/-!
# Balance of brackets

Round, square and curly brackets of a stage's code have to match.  A closing
bracket that does not match the innermost open one is reported with its line;
if every closing bracket matches, the innermost bracket left open is reported.
-/

namespace ShaderAssets

/-- Why brackets do not match. -/
inductive BalanceError where
  | unexpected (bracket : Char) (line : Nat)
  | unclosed (bracket : Char)
deriving DecidableEq, Repr, Inhabited

namespace BalanceError

/-- The wording of a balance error. -/
def message : BalanceError → String
  | .unexpected bracket line =>
      "unexpected '" ++ String.singleton bracket ++ "' at line " ++ toString line
  | .unclosed bracket => "unclosed '" ++ String.singleton bracket ++ "'"

end BalanceError

namespace Balance

/-- Whether a character opens a bracket pair. -/
def isOpening (c : Char) : Bool :=
  c == '{' || c == '(' || c == '['

/-- The bracket that a closing bracket closes. -/
def opener? (c : Char) : Option Char :=
  if c = '}' then some '{'
  else if c = ')' then some '('
  else if c = ']' then some '['
  else none

/-- Checks the rest of a code, given its line number and the open brackets, the
innermost first. -/
def checkFrom (line : Nat) (stack : List Char) : List Char → Except BalanceError Unit
  | [] =>
      match stack with
      | [] => .ok ()
      | bracket :: _ => .error (.unclosed bracket)
  | c :: rest =>
      if c = '\n' then checkFrom (line + 1) stack rest
      else if isOpening c then checkFrom line (c :: stack) rest
      else
        match opener? c with
        | none => checkFrom line stack rest
        | some bracket =>
            if stack.head? = some bracket then checkFrom line stack.tail rest
            else .error (.unexpected c line)

/-- Checks the brackets of a code. -/
def check (code : List Char) : Except BalanceError Unit :=
  checkFrom 1 [] code

end Balance
end ShaderAssets
