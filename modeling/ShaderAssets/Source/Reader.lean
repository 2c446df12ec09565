import ShaderAssets.Text.Split
import ShaderAssets.Source.Params
import ShaderAssets.Source.Tags

/-!
# Reading a shader file

A shader file is read one character at a time.  Keywords count only outside
raw sections: `name`, `render_mode` and `params` at top level, and the section
keywords directly inside a pass.  Every brace at top level opens a pass, so the
word `pass` itself is optional.  The character that ends a keyword is looked at
again in the mode that the keyword starts, so `vertex{` opens a section.

The text of a raw section is kept as it stands up to the brace that closes it;
braces inside its `//` comments do not count.
-/

namespace ShaderAssets
namespace Source

/-- A raw section of a pass. -/
inductive Section where
  | tags
  | varying
  | vertex
  | fragment
deriving DecidableEq, Repr, Inhabited

namespace Section

/-- The word that opens a section. -/
def keyword : Section → String
  | .tags => "tags"
  | .varying => "varying"
  | .vertex => "vertex"
  | .fragment => "fragment"

/-- The section that a word opens. -/
def ofKeyword? : String → Option Section
  | "tags" => some .tags
  | "varying" => some .varying
  | "vertex" => some .vertex
  | "fragment" => some .fragment
  | _ => none

/-- Every section is opened by its own keyword. -/
@[simp]
theorem ofKeyword?_keyword (s : Section) : ofKeyword? s.keyword = some s := by
  cases s <;> rfl

end Section

/-- Where inside a parameter block the reader stands. -/
inductive ParamsPlace where
  | plain
  | comment
  | quote
deriving DecidableEq, Repr, Inhabited

/-- What is being read. -/
inductive ReadMode where
  /-- Keywords, at pass depth zero or one. -/
  | topLevel
  | nameLine
  | modeLine
  /-- After `params`, before its brace. -/
  | paramsOpen
  | params (place : ParamsPlace)
  /-- After a section keyword, before its brace. -/
  | sectionOpen (sec : Section)
  /-- Inside a section, with its count of open braces and whether a comment is
  running. -/
  | inSection (sec : Section) (depth : Nat) (comment : Bool)
  /-- A comment outside raw sections. -/
  | comment
deriving DecidableEq, Repr, Inhabited

/-- The raw texts of the pass being read. -/
structure OpenPass where
  tags : String
  varying : String
  vertex : String
  fragment : String
deriving DecidableEq, Repr, Inhabited

namespace OpenPass

/-- A pass without any text. -/
def empty : OpenPass := ⟨"", "", "", ""⟩

/-- Puts the text of one section in place of what was there. -/
def set (p : OpenPass) (text : String) : Section → OpenPass
  | .tags => { p with tags := text }
  | .varying => { p with varying := text }
  | .vertex => { p with vertex := text }
  | .fragment => { p with fragment := text }

end OpenPass

/-- The state of the reader between two characters. -/
structure Reader where
  mode : ReadMode
  /-- The character fed last. -/
  last : Option Char
  /-- The letters of a keyword that may still go on. -/
  word : String
  /-- The text of the line or section being read. -/
  buffer : String
  /-- Open braces of pass blocks. -/
  depth : Nat
  pass : OpenPass
  name : String
  renderMode : RenderMode
  parameterText : String
  passes : List PassSource
  warnings : List Warning
deriving DecidableEq, Repr, Inhabited

namespace Reader

/-- The reader at the start of a file. -/
def initial : Reader where
  mode := .topLevel
  last := none
  word := ""
  buffer := ""
  depth := 0
  pass := .empty
  name := ""
  renderMode := .forward
  parameterText := ""
  passes := []
  warnings := []

/-- The characters that keywords are made of. -/
def isWordChar (c : Char) : Bool :=
  c.isAlphanum || c == '_'

/-! ## Completed lines and passes -/

/-- The name that a name line gives: the text between its first two quotes, or
the whole line without white space at its ends. -/
def nameOfLine (line : String) : String :=
  match Text.splitOnce '"' line.toList with
  | some (_, rest) => String.ofList (rest.takeWhile (· != '"'))
  | none => String.ofList (Text.trim line.toList)

/-- Takes the buffered name line. -/
def takeName (s : Reader) : Reader :=
  { s with name := nameOfLine s.buffer, buffer := "" }

/-- Takes the buffered render mode; an unknown one is reported and counts as
forward. -/
def takeMode (s : Reader) : Reader :=
  let mode := String.ofList (Text.trim s.buffer.toList)
  match RenderMode.ofKeyword? mode with
  | some m => { s with renderMode := m, buffer := "" }
  | none =>
      { s with
        renderMode := .forward
        buffer := ""
        warnings := s.warnings ++ [.unknownRenderMode mode] }

/-- The pass that the collected texts make. -/
def passOf (text : OpenPass) : PassSource where
  varying := text.varying
  vertex := text.vertex
  fragment := text.fragment
  tags := Tags.tags text.tags

/-- The problems of the collected texts as the pass with index `index`. -/
def passWarnings (text : OpenPass) (index : Nat) : List Warning :=
  Tags.warnings text.tags ++
    if Text.isBlankText text.vertex && Text.isBlankText text.fragment then
      [.missingProgram index]
    else []

/-- Completes the pass whose last brace was closed. -/
def storePass (s : Reader) : Reader :=
  { s with
    pass := .empty
    passes := s.passes ++ [passOf s.pass]
    warnings := s.warnings ++ passWarnings s.pass s.passes.length }

/-! ## One character -/

/-- The mode that a completed word starts at a given pass depth. -/
def keywordMode? (depth : Nat) (word : String) : Option ReadMode :=
  match depth with
  | 0 =>
      if word = "name" then some .nameLine
      else if word = "render_mode" then some .modeLine
      else if word = "params" then some .paramsOpen
      else none
  | 1 => (Section.ofKeyword? word).map .sectionOpen
  | _ => none

/-- A character at top level with no word before it. -/
def feedPlain (s : Reader) (c : Char) : Reader :=
  if isWordChar c then { s with mode := .topLevel, word := s.word.push c }
  else if c = '/' ∧ s.last = some '/' then { s with mode := .comment }
  else if c = '{' then { s with mode := .topLevel, depth := s.depth + 1 }
  else if c = '}' then
    match s.depth with
    | 0 => { s with mode := .topLevel }
    | 1 => { s with mode := .topLevel, depth := 0 }.storePass
    | d + 2 => { s with mode := .topLevel, depth := d + 1 }
  else { s with mode := .topLevel }

/-- A character of a name line. -/
def feedName (s : Reader) (c : Char) : Reader :=
  if c = '\n' then { s.takeName with mode := .topLevel }
  else { s with mode := .nameLine, buffer := s.buffer.push c }

/-- A character of a render mode line. -/
def feedMode (s : Reader) (c : Char) : Reader :=
  if c = '\n' then { s.takeMode with mode := .topLevel }
  else { s with mode := .modeLine, buffer := s.buffer.push c }

/-- A character between `params` and its brace. -/
def feedParamsOpen (s : Reader) (c : Char) : Reader :=
  if c = '{' then { s with mode := .params .plain }
  else if Text.isBlank c then { s with mode := .paramsOpen }
  else s.feedPlain c

/-- A character between a section keyword and its brace. -/
def feedSectionOpen (s : Reader) (sec : Section) (c : Char) : Reader :=
  if c = '{' then { s with mode := .inSection sec 1 false, buffer := "" }
  else if Text.isBlank c then { s with mode := .sectionOpen sec }
  else s.feedPlain c

/-- A character at top level.  One that ends a keyword is handed to the mode
that the keyword starts. -/
def feedTop (s : Reader) (c : Char) : Reader :=
  if isWordChar c then { s with word := s.word.push c }
  else
    let s' := { s with word := "" }
    match keywordMode? s.depth s.word with
    | some .nameLine => { s' with buffer := "" }.feedName c
    | some .modeLine => { s' with buffer := "" }.feedMode c
    | some .paramsOpen => s'.feedParamsOpen c
    | some (.sectionOpen sec) => s'.feedSectionOpen sec c
    | _ => s'.feedPlain c

/-- A character of a parameter block.  Inner braces are dropped, and the first
closing brace outside comments and quotes ends the block.  Comments and quotes
end with their line. -/
def feedParams (s : Reader) (place : ParamsPlace) (c : Char) : Reader :=
  let keep (place : ParamsPlace) : Reader :=
    { s with mode := .params place, parameterText := s.parameterText.push c }
  match place with
  | .comment => keep (if c = '\n' then .plain else .comment)
  | .quote => keep (if c = '\n' ∨ c = '"' then .plain else .quote)
  | .plain =>
      if c = '/' ∧ s.last = some '/' then keep .comment
      else if c = '"' then keep .quote
      else if c = '}' then
        { s with mode := .topLevel, parameterText := s.parameterText.push '\n' }
      else if c = '{' then { s with mode := .params .plain }
      else keep .plain

/-- A character of a raw section with `depth` open braces. -/
def feedSection (s : Reader) (sec : Section) (depth : Nat) (comment : Bool)
    (c : Char) : Reader :=
  let keep (depth : Nat) (comment : Bool) : Reader :=
    { s with mode := .inSection sec depth comment, buffer := s.buffer.push c }
  if comment then keep depth (c != '\n')
  else if c = '/' ∧ s.last = some '/' then keep depth true
  else if c = '{' then keep (depth + 1) false
  else if c = '}' then
    if depth ≤ 1 then
      { s with mode := .topLevel, pass := s.pass.set s.buffer sec, buffer := "" }
    else keep (depth - 1) false
  else keep depth false

/-- What a character does in the current mode, the record of the last character
apart. -/
def step (s : Reader) (c : Char) : Reader :=
  match s.mode with
  | .topLevel => s.feedTop c
  | .nameLine => s.feedName c
  | .modeLine => s.feedMode c
  | .paramsOpen => s.feedParamsOpen c
  | .params place => s.feedParams place c
  | .sectionOpen sec => s.feedSectionOpen sec c
  | .inSection sec depth comment => s.feedSection sec depth comment c
  | .comment => { s with mode := if c = '\n' then .topLevel else .comment }

/-- Feeds one character. -/
def feed (s : Reader) (c : Char) : Reader :=
  { s.step c with last := some c }

/-- Feeds a text character by character. -/
def feedText (s : Reader) (text : List Char) : Reader :=
  text.foldl feed s

/-- Feeding two texts one after the other is feeding them joined. -/
@[simp]
theorem feedText_append (s : Reader) (x y : List Char) :
    s.feedText (x ++ y) = (s.feedText x).feedText y :=
  List.foldl_append

/-! ## End of the file -/

/-- A word that the end of the file completes. -/
def endWord (s : Reader) : Reader :=
  if s.word = "" then s
  else
    let s' := { s with word := "" }
    match keywordMode? s.depth s.word with
    | some .nameLine => { s' with mode := .nameLine, buffer := "" }
    | some .modeLine => { s' with mode := .modeLine, buffer := "" }
    | some mode => { s' with mode := mode }
    | none => { s' with mode := .topLevel }

/-- A line that the end of the file completes. -/
def endLine (s : Reader) : Reader :=
  match s.mode with
  | .nameLine => s.takeName
  | .modeLine => s.takeMode
  | _ => s

/-- An open pass is reported and leaves an empty pass behind. -/
def endPass (s : Reader) : Reader :=
  if s.depth = 0 then s
  else
    { s with
      passes := s.passes ++ [.empty]
      warnings := s.warnings ++ [.unbalanced s.passes.length] }

/-- The source and the warnings of everything read. -/
def result (s : Reader) : Parsed where
  source :=
    { name := s.name
      renderMode := s.renderMode
      uniforms := Params.uniforms s.parameterText
      passes := s.passes }
  warnings := s.warnings ++ Params.warnings s.parameterText ++
    if s.passes.isEmpty then [.noPasses] else []

/-- Ends the file: what is open is completed as far as it can be. -/
def finish (s : Reader) : Parsed :=
  s.endWord.endLine.endPass.result

end Reader

namespace ShaderSource

/-- Reads a whole shader file. -/
def parse (text : String) : Parsed :=
  (Reader.initial.feedText text.toList).finish

end ShaderSource

end Source
end ShaderAssets
