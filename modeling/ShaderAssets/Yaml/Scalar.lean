import ShaderAssets.Text.Integer
import ShaderAssets.Yaml.Place

/-!
# Scalars of a YAML text

Reading the text of a scalar in each of the five styles.  Plain and quoted
scalars may run over several lines: a single line break between two words folds
to a space, and of several breaks all but the first are kept.  Block scalars keep
or fold the lines below their header.

Each reader walks once through the characters and gives the text of the scalar
with what follows it, or nothing if the scalar is malformed.
-/

namespace ShaderAssets
namespace Yaml

/-- How a scalar is written. -/
inductive ScalarStyle where
  | plain
  | singleQuoted
  | doubleQuoted
  | literal
  | folded
deriving DecidableEq, Repr, Inhabited

/-- What a reader gives: the text read, and the characters that follow at a
place. -/
structure Reading where
  text : String
  rest : List Char
  place : Place
deriving Repr, Inhabited

/-! ## White space between words -/

/-- White space in a scalar that is not yet known to stand between two words. -/
inductive Gap where
  /-- Blanks within a line. -/
  | blanks (text : List Char)
  /-- Line breaks: the first, unless it was escaped, and the others. -/
  | breaks (first : Option Char) (others : List Char)
deriving DecidableEq, Repr, Inhabited

namespace Gap

/-- No white space. -/
def none : Gap := .blanks []

/-- Whether a line ended in the gap. -/
def hasBreak : Gap → Bool
  | .blanks _ => false
  | .breaks .. => true

/-- Adds white space.  Blanks beside a break do not count. -/
def add (g : Gap) (c : Char) : Gap :=
  if isBreak c then
    match g with
    | .blanks _ => .breaks (some c) []
    | .breaks first others => .breaks first (others ++ [c])
  else
    match g with
    | .blanks text => .blanks (text ++ [c])
    | .breaks first others => .breaks first others

/-- What the gap contributes between two words. -/
def text : Gap → List Char
  | .blanks text => text
  | .breaks first others =>
      if first = some '\n' then (if others.isEmpty then [' '] else others)
      else first.toList ++ others

end Gap

/-! ## Plain scalars -/

/-- Whether a plain scalar ends in front of these characters of a line. -/
def endsPlain (flow : Bool) : List Char → Bool
  | [] => true
  | c :: rest =>
      (c == ':' && endsWord rest) ||
        (flow && (c == ',' || c == '[' || c == ']' || c == '\x7b' || c == '\x7d'))

/-- Whether a colon within a flow collection is followed by an indicator, which
is an error in a plain scalar. -/
def clashes (flow : Bool) : List Char → Bool
  | ':' :: c :: _ =>
      flow && (c == ',' || c == '?' || c == '[' || c == ']' || c == '\x7b' || c == '\x7d')
  | _ => false

/-- Reads a plain scalar whose continuation lines begin at a column of at least
`indent`.  The text read so far is in reverse order. -/
def readPlain (flow : Bool) (indent : Nat) (done : List Char) (gap : Gap) :
    List Char → Place → Option (Reading × Bool)
  | [], p => some (⟨String.ofList done.reverse, [], p⟩, gap.hasBreak)
  | c :: rest, p =>
      let stop := some (⟨String.ofList done.reverse, c :: rest, p⟩, gap.hasBreak)
      if isBlank c then
        if gap.hasBreak && c == '\t' && p.column < indent then Option.none
        else readPlain flow indent done (gap.add c) rest (p.after c)
      else if isBreak c then readPlain flow indent done (gap.add c) rest (p.after c)
      else if gap != .none && ((!flow && gap.hasBreak && p.column < indent) || c == '#') then stop
      else if startsMarker p (c :: rest) then stop
      else if clashes flow (c :: rest) then Option.none
      else if endsPlain flow (c :: rest) then stop
      else readPlain flow indent (c :: (gap.text.reverse ++ done)) .none rest (p.after c)

/-! ## Quoted scalars -/

/-- What a letter after a backslash stands for. -/
def escaped? (c : Char) : Option Char :=
  match c with
  | '0' => some '\x00'
  | 'a' => some '\x07'
  | 'b' => some '\x08'
  | 't' => some '\t'
  | '\t' => some '\t'
  | 'n' => some '\n'
  | 'v' => some '\x0b'
  | 'f' => some '\x0c'
  | 'r' => some '\r'
  | 'e' => some '\x1b'
  | ' ' => some ' '
  | '"' => some '"'
  | '/' => some '/'
  | '\\' => some '\\'
  | 'N' => some '\u0085'
  | '_' => some '\u00a0'
  | 'L' => some '\u2028'
  | 'P' => some '\u2029'
  | _ => none

/-- The number of hexadecimal digits that a letter after a backslash asks for. -/
def escapeLength? (c : Char) : Option Nat :=
  match c with
  | 'x' => some 2
  | 'u' => some 4
  | 'U' => some 8
  | _ => none

/-- The character with a given number, if there is one. -/
def charOf? (n : Nat) : Option Char :=
  if h : n.isValidChar then some (Char.ofNatAux n h) else none

/-- Where the reader of a quoted scalar stands. -/
inductive QuotedMode where
  | text
  /-- Behind a backslash. -/
  | escape
  /-- Among the digits of an escape, so many of them missing. -/
  | digits (missing value : Nat)
  /-- Before the second of two single quotes. -/
  | doubled
deriving DecidableEq, Repr, Inhabited

/-- Reads a quoted scalar from behind its opening quote.  The text read so far is
in reverse order. -/
def readQuoted (quote : Char) (done : List Char) (gap : Gap) (mode : QuotedMode) :
    List Char → Place → Option Reading
  | [], _ => none
  | c :: rest, p =>
      let joined := gap.text.reverse ++ done
      match mode with
      | .doubled => readQuoted quote ('\'' :: done) gap .text rest (p.after c)
      | .escape =>
          if isBreak c then readQuoted quote done (.breaks Option.none []) .text rest (p.after c)
          else
            match escaped? c, escapeLength? c with
            | some e, _ => readQuoted quote (e :: done) gap .text rest (p.after c)
            | none, some n => readQuoted quote done gap (.digits n 0) rest (p.after c)
            | none, none => Option.none
      | .digits missing value =>
          match Text.digitValue? 16 c with
          | none => Option.none
          | some d =>
              let value := 16 * value + d
              if missing = 1 then
                match charOf? value with
                | none => Option.none
                | some e => readQuoted quote (e :: done) gap .text rest (p.after c)
              else readQuoted quote done gap (.digits (missing - 1) value) rest (p.after c)
      | .text =>
          if isBlank c || isBreak c then
            readQuoted quote done (gap.add c) .text rest (p.after c)
          else if startsMarker p (c :: rest) then Option.none
          else if c = quote then
            if quote = '\'' ∧ rest.head? = some quote then
              readQuoted quote joined .none .doubled rest (p.after c)
            else some ⟨String.ofList joined.reverse, rest, p.after c⟩
          else if quote = '"' ∧ c = '\\' then
            readQuoted quote joined .none .escape rest (p.after c)
          else readQuoted quote (c :: joined) .none .text rest (p.after c)

/-! ## Block scalars -/

/-- What happens to the line breaks at the end of a block scalar. -/
inductive Chomping where
  | strip
  | clip
  | keep
deriving DecidableEq, Repr, Inhabited

/-- The indicators behind the first character of a block scalar. -/
structure BlockHeader where
  chomping : Chomping
  /-- The indentation relative to the parent, if it is given. -/
  increment : Option Nat
deriving DecidableEq, Repr, Inhabited

namespace BlockHeader

/-- The chomping that an indicator asks for. -/
def chomping? : Char → Option Chomping
  | '+' => some .keep
  | '-' => some .strip
  | _ => none

/-- The indentation that a digit asks for. -/
def increment? (c : Char) : Option Nat :=
  if c.isDigit then some (c.toNat - 48) else none

/-- Reads the indicators, in either order, each at most once. -/
def read : List Char → BlockHeader × List Char
  | [] => (⟨.clip, none⟩, [])
  | c :: rest =>
      match chomping? c, increment? c with
      | some chomping, _ =>
          match rest with
          | d :: after =>
              match increment? d with
              | some n => (⟨chomping, some n⟩, after)
              | none => (⟨chomping, none⟩, rest)
          | [] => (⟨chomping, none⟩, rest)
      | none, some n =>
          match rest with
          | d :: after =>
              match chomping? d with
              | some chomping => (⟨chomping, some n⟩, after)
              | none => (⟨.clip, some n⟩, rest)
          | [] => (⟨.clip, some n⟩, rest)
      | none, none => (⟨.clip, none⟩, c :: rest)

/-- What follows the line of a header, which may end in blanks and a comment. -/
def endLine (comment : Bool) : List Char → Place → Option (List Char × Place)
  | [], p => some ([], p)
  | c :: rest, p =>
      if isBreak c then some (rest, p.after c)
      else if comment || isBlank c then endLine comment rest (p.after c)
      else if c = '#' then endLine true rest (p.after c)
      else none

end BlockHeader

/-- The blank lines at the top of a block scalar and the widest indentation in
front of its first character; a tab there is an error. -/
def readMargin (breaks : List Char) (widest : Nat) :
    List Char → Place → Option (List Char × Nat × List Char × Place)
  | [], p => some (breaks, max widest p.column, [], p)
  | c :: rest, p =>
      if c = ' ' then readMargin breaks widest rest (p.after c)
      else if c = '\t' then none
      else if isBreak c then
        readMargin (breaks ++ [c]) (max widest p.column) rest (p.after c)
      else some (breaks, max widest p.column, c :: rest, p)

/-- What the reader of a block scalar knows between two lines. -/
structure BlockState where
  /-- The text so far, in reverse order. -/
  done : List Char
  /-- The break that ended the last line. -/
  last : Option Char
  /-- The blank lines since then. -/
  empty : List Char
  /-- The last line began with a blank. -/
  indented : Bool
deriving Repr, Inhabited

namespace BlockState

/-- Begins a line: the breaks before it are kept, or folded between two lines
that begin at the margin. -/
def beginLine (s : BlockState) (folded blank : Bool) : BlockState :=
  let joint :=
    if folded && s.last == some '\n' && !s.indented && !blank then
      if s.empty.isEmpty then [' '] else []
    else s.last.toList
  ⟨s.empty.reverse ++ joint.reverse ++ s.done, none, [], blank⟩

/-- The whole text, its final breaks chomped. -/
def finish (s : BlockState) (chomping : Chomping) : String :=
  let tail := match chomping with
    | .strip => []
    | .clip => s.last.toList
    | .keep => s.last.toList ++ s.empty
  String.ofList (s.done.reverse ++ tail)

end BlockState

/-- Reads the lines of a block scalar whose margin is at a given column. -/
def readBlockLines (folded : Bool) (indent : Nat) (chomping : Chomping) (inLine : Bool)
    (s : BlockState) : List Char → Place → Option Reading
  | [], p => some ⟨s.finish chomping, [], p⟩
  | c :: rest, p =>
      if inLine then
        if isBreak c then
          readBlockLines folded indent chomping false { s with last := some c } rest (p.after c)
        else
          readBlockLines folded indent chomping true { s with done := c :: s.done } rest
            (p.after c)
      else if p.column < indent && c == ' ' then
        readBlockLines folded indent chomping false s rest (p.after c)
      else if p.column < indent && c == '\t' then none
      else if isBreak c then
        readBlockLines folded indent chomping false { s with empty := s.empty ++ [c] } rest
          (p.after c)
      else if p.column = indent then
        let s := s.beginLine folded (isBlank c)
        readBlockLines folded indent chomping true { s with done := c :: s.done } rest
          (p.after c)
      else some ⟨s.finish chomping, c :: rest, p⟩

/-- Reads a block scalar from behind its first character, given the column of the
collection it stands in. -/
def readBlock (folded : Bool) (parent : Option Nat) (s : List Char) (p : Place) :
    Option Reading := do
  let (header, after) := BlockHeader.read s
  if header.increment = some 0 then none
  let headerEnd := p.afterAll (s.take (s.length - after.length))
  let (rest, p) ← BlockHeader.endLine false after headerEnd
  let start (breaks : List Char) : BlockState := ⟨[], none, breaks, false⟩
  match header.increment with
  | some n => readBlockLines folded (parent.getD 0 + n) header.chomping false (start []) rest p
  | none =>
      let (breaks, widest, rest, p) ← readMargin [] 0 rest p
      let indent := max widest (max 1 ((parent.map (· + 1)).getD 0))
      readBlockLines folded indent header.chomping false (start breaks) rest p

end Yaml
end ShaderAssets
