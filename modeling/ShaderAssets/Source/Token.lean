import ShaderAssets.Text.Blank

/-!
# Tokens of a line

The lines of parameter and tag blocks consist of words, quoted texts and, where
asked for, colons.  Two slashes outside quotes start a comment that runs to the
end of the line.  A quoted text ends at the next quote or at the end of the
line.
-/

namespace ShaderAssets
namespace Source

/-- A token of one line. -/
inductive Token where
  | word (text : String)
  | quoted (text : String)
  | colon
deriving DecidableEq, Repr, Inhabited

namespace Token

/-- The text that a token stands for. -/
def text : Token → String
  | .word s => s
  | .quoted s => s
  | .colon => ":"

/-- The word collected so far, unless it is empty. -/
def ofPending (pending : String) : List Token :=
  if pending = "" then [] else [.word pending]

mutual

/-- The tokens of the rest of a line after the characters of a pending word. -/
def readWords (colons : Bool) (pending : String) : List Char → List Token
  | [] => ofPending pending
  | c :: rest =>
      if c = '/' ∧ rest.head? = some '/' then ofPending pending
      else if c = '"' then ofPending pending ++ readQuoted colons "" rest
      else if c = ':' ∧ colons = true then
        ofPending pending ++ .colon :: readWords colons "" rest
      else if Text.isBlank c then ofPending pending ++ readWords colons "" rest
      else readWords colons (pending.push c) rest

/-- The tokens of the rest of a line inside a quoted text. -/
def readQuoted (colons : Bool) (pending : String) : List Char → List Token
  | [] => [.quoted pending]
  | c :: rest =>
      if c = '"' then .quoted pending :: readWords colons "" rest
      else readQuoted colons (pending.push c) rest

end

/-- The tokens of a line.  With `colons`, a colon outside quotes is a token of
its own even when it touches a word. -/
def ofLine (line : List Char) (colons : Bool) : List Token :=
  readWords colons "" line

end Token

end Source
end ShaderAssets
