import ShaderAssets.Yaml.Token

/-!
# Cutting a YAML text into tokens

Block collections have no closing mark.  They begin where a line is indented
further than the collection around it and end where a line is indented less, so
the reader keeps the stack of open indentations.  Whether a scalar is a mapping
key is known only at the colon behind it; the reader remembers where the last
possible key began and puts the missing tokens in front of it.
-/

namespace ShaderAssets
namespace Yaml

/-- Where the last node began that may turn out to be a key. -/
structure KeyCandidate where
  /-- A block mapping needs a key here. -/
  required : Bool
  /-- The number of tokens before it. -/
  position : Nat
  place : Place
deriving Repr, Inhabited

/-- What the reader of tokens knows between two tokens. -/
structure TokenReader where
  rest : List Char
  place : Place
  /-- The tokens so far, the last one first. -/
  done : List Token
  /-- The columns of the open block collections, the innermost first. -/
  indents : List Nat
  /-- A key may begin here. -/
  keyAllowed : Bool
  candidate : Option KeyCandidate
  /-- The candidates outside each open flow collection, the innermost first. -/
  outer : List (Option KeyCandidate)
deriving Repr, Inhabited

namespace TokenReader

/-- The reader at the beginning of a text. -/
def start (s : List Char) : TokenReader where
  rest := s
  place := .start
  done := []
  indents := []
  keyAllowed := true
  candidate := none
  outer := []

/-- Whether the reader stands in a flow collection. -/
def inFlow (r : TokenReader) : Bool :=
  !r.outer.isEmpty

/-- Appends a token. -/
def emit (r : TokenReader) (t : Token) : TokenReader :=
  { r with done := t :: r.done }

/-- Puts tokens in front of those from a position on. -/
def insert (r : TokenReader) (position : Nat) (ts : List Token) : TokenReader :=
  let later := r.done.length - position
  { r with done := r.done.take later ++ ts.reverse ++ r.done.drop later }

/-- Moves on to what a word reader left. -/
def moveTo (r : TokenReader) (rest : List Char) : TokenReader :=
  { r with
    rest := rest
    place := r.place.afterAll (r.rest.take (r.rest.length - rest.length)) }

/-- Moves on over a number of characters. -/
def skip (r : TokenReader) (count : Nat) : TokenReader :=
  { r with rest := r.rest.drop count, place := r.place.afterAll (r.rest.take count) }

/-! ## Indentation -/

/-- Opens a block collection at a column if it is further in than the last; its
first token stands at a position. -/
def openBlock (r : TokenReader) (column position : Nat) (t : Token) : TokenReader :=
  if r.inFlow then r
  else
    match r.indents with
    | [] => { r with indents := [column] }.insert position [t]
    | indent :: _ =>
        if indent < column then { r with indents := column :: r.indents }.insert position [t]
        else r

/-- Closes the block collections that are further in than a column. -/
def closeBlocks (r : TokenReader) (column : Nat) : TokenReader :=
  if r.inFlow then r
  else
    let closed := r.indents.takeWhile (column < ·)
    { r with
      indents := r.indents.drop closed.length
      done := closed.map (fun _ => .blockEnd) ++ r.done }

/-- Closes every block collection. -/
def closeAllBlocks (r : TokenReader) : TokenReader :=
  if r.inFlow then r
  else { r with indents := [], done := r.indents.map (fun _ => .blockEnd) ++ r.done }

/-! ## Keys -/

/-- Whether a candidate can no longer be a key: keys are single lines of limited
length. -/
def isStale (r : TokenReader) (k : KeyCandidate) : Bool :=
  k.place.line < r.place.line || k.place.index + 1024 < r.place.index

/-- A candidate that is no key after all; an error if a key was required. -/
def dropIf (drop : KeyCandidate → Bool) :
    Option KeyCandidate → Option (Option KeyCandidate)
  | none => some none
  | some k =>
      if drop k then if k.required then none else some none
      else some (some k)

/-- Drops every stale candidate. -/
def dropStale (r : TokenReader) : Option TokenReader := do
  let candidate ← dropIf r.isStale r.candidate
  let outer ← r.outer.mapM (dropIf r.isStale)
  return { r with candidate := candidate, outer := outer }

/-- Drops the candidate. -/
def dropCandidate (r : TokenReader) : Option TokenReader := do
  let candidate ← dropIf (fun _ => true) r.candidate
  return { r with candidate := candidate }

/-- Makes the next token the candidate, where keys are allowed. -/
def noteCandidate (r : TokenReader) : Option TokenReader :=
  if r.keyAllowed then do
    let r ← r.dropCandidate
    let required := !r.inFlow && r.indents.head? == some r.place.column
    return { r with candidate := some ⟨required, r.done.length, r.place⟩ }
  else some r

/-! ## Tokens -/

/-- Skips blanks, comments and line breaks, and a byte order mark at the beginning
of the text.  In block context a tab may not stand where a key may begin. -/
def skipIdle (flow keyAllowed comment : Bool) :
    List Char → Place → Bool × List Char × Place
  | [], p => (keyAllowed, [], p)
  | c :: rest, p =>
      if isBreak c then skipIdle flow (keyAllowed || !flow) false rest (p.after c)
      else if comment then skipIdle flow keyAllowed true rest (p.after c)
      else if c == ' ' || (c == '\t' && (flow || !keyAllowed)) ||
          (c == '\ufeff' && p.index == 0) then
        skipIdle flow keyAllowed false rest (p.after c)
      else if c = '#' then skipIdle flow keyAllowed true rest (p.after c)
      else (keyAllowed, c :: rest, p)

/-- Goes to the next token. -/
def toNext (r : TokenReader) : TokenReader :=
  let (keyAllowed, rest, place) := skipIdle r.inFlow r.keyAllowed false r.rest r.place
  { r with keyAllowed := keyAllowed, rest := rest, place := place }

/-- A directive or document marker closes everything. -/
def atMargin (r : TokenReader) : Option TokenReader := do
  let r ← r.closeAllBlocks.dropCandidate
  return { r with keyAllowed := false }

/-- Opens a flow collection. -/
def openFlow (r : TokenReader) (t : Token) : Option TokenReader := do
  let r ← r.noteCandidate
  return { r with
    outer := r.candidate :: r.outer, candidate := none, keyAllowed := true }.emit t |>.skip 1

/-- Closes a flow collection. -/
def closeFlow (r : TokenReader) (t : Token) : Option TokenReader := do
  let r ← r.dropCandidate
  let r := match r.outer with
    | [] => r
    | candidate :: outer => { r with candidate := candidate, outer := outer }
  return { r with keyAllowed := false }.emit t |>.skip 1

/-- A comma in a flow collection. -/
def flowEntry (r : TokenReader) : Option TokenReader := do
  let r ← r.dropCandidate
  return { r with keyAllowed := true }.emit .flowEntry |>.skip 1

/-- Opens a block collection for an indicator, which must stand where a key may
begin. -/
def openForIndicator (r : TokenReader) (t : Token) : Option TokenReader :=
  if r.inFlow then some r
  else if r.keyAllowed then some (r.openBlock r.place.column r.done.length t)
  else none

/-- A dash in front of an entry. -/
def blockEntry (r : TokenReader) : Option TokenReader := do
  let r ← r.openForIndicator .blockSequenceStart
  let r ← r.dropCandidate
  return { r with keyAllowed := true }.emit .blockEntry |>.skip 1

/-- A question mark in front of a key. -/
def explicitKey (r : TokenReader) : Option TokenReader := do
  let r ← r.openForIndicator .blockMappingStart
  let r ← r.dropCandidate
  return { r with keyAllowed := !r.inFlow }.emit .key |>.skip 1

/-- A colon: the candidate before it becomes a key. -/
def valueIndicator (r : TokenReader) : Option TokenReader :=
  match r.candidate with
  | some k =>
      let r := { r with candidate := none, keyAllowed := false }
      let r := r.insert k.position [.key]
      let r := r.openBlock k.place.column k.position .blockMappingStart
      some (r.emit .value |>.skip 1)
  | none => do
      let r ← r.openForIndicator .blockMappingStart
      return { r with keyAllowed := !r.inFlow }.emit .value |>.skip 1

/-- A word that begins a node: an anchor, a reference or a tag. -/
def word (r : TokenReader) (read : List Char → Option (Token × List Char)) :
    Option TokenReader := do
  let r ← r.noteCandidate
  let (t, rest) ← read r.rest
  return { r with keyAllowed := false }.emit t |>.moveTo rest

/-- A scalar that has been read. -/
def scalar (r : TokenReader) (style : ScalarStyle) (reading : Reading) : TokenReader :=
  { r.emit (.scalar style reading.text) with rest := reading.rest, place := reading.place }

/-- A quoted scalar. -/
def quoted (r : TokenReader) (quote : Char) (style : ScalarStyle) : Option TokenReader := do
  let r ← r.noteCandidate
  let inner := r.skip 1
  let reading ← readQuoted quote [] .none .text inner.rest inner.place
  return { r with keyAllowed := false }.scalar style reading

/-- A block scalar. -/
def block (r : TokenReader) (style : ScalarStyle) : Option TokenReader := do
  let r ← r.dropCandidate
  let inner := r.skip 1
  let reading ← readBlock (style == .folded) r.indents.head? inner.rest inner.place
  return { r with keyAllowed := true }.scalar style reading

/-- A plain scalar.  A key may begin behind it if it ended with its line. -/
def plain (r : TokenReader) : Option TokenReader := do
  let r ← r.noteCandidate
  let indent := (r.indents.head?.map (· + 1)).getD 0
  let (reading, atLineStart) ← readPlain r.inFlow indent [] .none r.rest r.place
  return { r with keyAllowed := atLineStart }.scalar .plain reading

/-- Characters that cannot begin a plain scalar by themselves. -/
def indicators : List Char :=
  "-?:,[]\x7b\x7d#&*!|>'\"%@`".toList

/-- Whether a plain scalar begins here. -/
def startsPlain (flow : Bool) : List Char → Bool
  | [] => false
  | c :: rest =>
      !(endsWord [c] || indicators.contains c) ||
        (c == '-' && !(rest.head?.map isBlank).getD false) ||
        (!flow && (c == '?' || c == ':') && !endsWord rest)

/-- Reads the token that begins with a given character. -/
def token (r : TokenReader) (c : Char) (after : List Char) : Option TokenReader :=
  let flow := r.inFlow
  if r.place.column = 0 ∧ c = '%' then do
    let r ← r.atMargin
    let (t, rest) ← readDirective? after
    let (rest, place) ← BlockHeader.endLine false rest
      (r.place.afterAll (r.rest.take (r.rest.length - rest.length)))
    return { r.emit t with rest := rest, place := place }
  else if startsMarker r.place (c :: after) then do
    let r ← r.atMargin
    return r.emit (if c = '-' then .documentStart else .documentEnd) |>.skip 3
  else if c = '[' then r.openFlow .flowSequenceStart
  else if c = '\x7b' then r.openFlow .flowMappingStart
  else if c = ']' then r.closeFlow .flowSequenceEnd
  else if c = '\x7d' then r.closeFlow .flowMappingEnd
  else if c = ',' then r.flowEntry
  else if c = '-' ∧ endsWord after then r.blockEntry
  else if c = '?' ∧ (flow || endsWord after) then r.explicitKey
  else if c = ':' ∧ (flow || endsWord after) then r.valueIndicator
  else if c = '*' then r.word fun s => (readAnchor? (s.drop 1)).map fun (n, s) => (.reference n, s)
  else if c = '&' then r.word fun s => (readAnchor? (s.drop 1)).map fun (n, s) => (.anchor n, s)
  else if c = '!' then r.word fun s => (readTag? flow s).map fun (n, s) => (.tag n, s)
  else if c = '|' ∧ ¬flow then r.block .literal
  else if c = '>' ∧ ¬flow then r.block .folded
  else if c = '\'' then r.quoted '\'' .singleQuoted
  else if c = '"' then r.quoted '"' .doubleQuoted
  else if startsPlain flow (c :: after) then r.plain
  else none

/-- Reads the tokens of the rest of a text; each takes at least one character, so
`fuel` need not exceed their number. -/
def run : Nat → TokenReader → Option (List Token)
  | 0, _ => none
  | fuel + 1, r => do
      let r ← r.toNext.dropStale
      match r.rest with
      | [] =>
          let r ← r.closeAllBlocks.dropCandidate
          return r.done.reverse
      | c :: after =>
          let r ← (r.closeBlocks r.place.column).token c after
          run fuel r

end TokenReader

namespace Token

/-- The tokens of a text in common form, unless it is malformed. -/
def read? (s : List Char) : Option (List Token) :=
  (TokenReader.start s).run (s.length + 1)

end Token

end Yaml
end ShaderAssets
