import ShaderAssets.Text.Blank
import ShaderAssets.Text.Integer

/-!
# Conditions

The expressions behind `#if` and `#elif`: sixty-four bit numbers, names,
`defined`, parentheses, negation, comparison and the logical operators, with
the usual precedence.

A condition is cut into lexemes, the lexemes are read as tokens, the tokens are
read as an expression, and the expression is evaluated over the defined names.
Each of the first three steps may fail; evaluation never does.
-/

namespace ShaderAssets
namespace Condition

open Text

/-! ## Lexemes -/

/-- The characters that a name starts with. -/
def isNameStart (c : Char) : Bool :=
  c.isAlpha || c == '_'

/-- The characters that a name goes on with. -/
def isNameRest (c : Char) : Bool :=
  c.isAlphanum || c == '_'

/-- White space between lexemes is ASCII. -/
def isGap (c : Char) : Bool :=
  isBlank c && c.toNat < 128

/-- Whether two characters make one operator. -/
def isPair (c d : Char) : Bool :=
  (c == '&' && d == '&') || (c == '|' && d == '|') ||
    (d == '=' && (c == '=' || c == '!' || c == '<' || c == '>'))

/-- Whether a lexeme goes on with a character: a number with any letter or
digit, a name with any name character, and an operator with its second half. -/
def goesOn : List Char → Char → Bool
  | [], _ => false
  | first :: more, c =>
      if first.isDigit then c.isAlphanum
      else if isNameStart first then isNameRest c
      else more.isEmpty && isPair first c

/-- The lexemes of the rest of a text after the characters of a pending one,
each as long as possible. -/
def lexemesFrom (pending : List Char) : List Char → List (List Char)
  | [] => if pending.isEmpty then [] else [pending]
  | c :: rest =>
      if goesOn pending c then lexemesFrom (pending ++ [c]) rest
      else
        (if pending.isEmpty then [] else [pending]) ++
          lexemesFrom (if isGap c then [] else [c]) rest

/-- The lexemes of a text. -/
def lexemes (s : List Char) : List (List Char) :=
  lexemesFrom [] s

/-! ## Tokens -/

/-- The operators with two operands. -/
inductive BinaryOp where
  | or
  | and
  | equal
  | notEqual
  | less
  | greater
  | lessOrEqual
  | greaterOrEqual
deriving DecidableEq, Repr, Inhabited

/-- A token of a condition. -/
inductive Token where
  | number (value : Int)
  | name (text : String)
  | binary (op : BinaryOp)
  | not
  | minus
  | opening
  | closing
deriving DecidableEq, Repr, Inhabited

/-- The letters that may follow a number and say nothing. -/
def isNumberSuffix (c : Char) : Bool :=
  c == 'u' || c == 'U' || c == 'l' || c == 'L'

/-- The operator or parenthesis that a lexeme stands for. -/
def symbol? : List Char → Option Token
  | ['('] => some .opening
  | [')'] => some .closing
  | ['&', '&'] => some (.binary .and)
  | ['|', '|'] => some (.binary .or)
  | ['=', '='] => some (.binary .equal)
  | ['!', '='] => some (.binary .notEqual)
  | ['<', '='] => some (.binary .lessOrEqual)
  | ['>', '='] => some (.binary .greaterOrEqual)
  | ['<'] => some (.binary .less)
  | ['>'] => some (.binary .greater)
  | ['!'] => some .not
  | ['-'] => some .minus
  | _ => none

/-- The token that a lexeme stands for.  A number is decimal, may carry suffix
letters and fits sixty-four bits. -/
def token? (lexeme : List Char) : Option Token :=
  match lexeme with
  | [] => none
  | first :: _ =>
      if first.isDigit then
        (readInt64? (lexeme.reverse.dropWhile isNumberSuffix).reverse).map .number
      else if isNameStart first then some (.name (String.ofList lexeme))
      else symbol? lexeme

/-- The tokens of a condition. -/
def lex (s : List Char) : Option (List Token) :=
  (lexemes s).mapM token?

/-! ## Expressions -/

/-- A condition as a tree. -/
inductive Expr where
  | number (value : Int)
  | name (text : String)
  | isDefined (name : String)
  | not (operand : Expr)
  | negate (operand : Expr)
  | binary (op : BinaryOp) (left right : Expr)
deriving DecidableEq, Repr, Inhabited

/-- The levels of precedence, from the loosest to the tightest. -/
inductive Level where
  | or
  | and
  | equality
  | relation
  | unary
deriving DecidableEq, Repr, Inhabited

namespace Level

/-- The level of the operands of a level's operators. -/
def next : Level → Level
  | .or => .and
  | .and => .equality
  | .equality => .relation
  | .relation => .unary
  | .unary => .unary

end Level

namespace BinaryOp

/-- The level of an operator. -/
def level : BinaryOp → Level
  | .or => .or
  | .and => .and
  | .equal | .notEqual => .equality
  | .less | .greater | .lessOrEqual | .greaterOrEqual => .relation

end BinaryOp

namespace Expr

mutual

/-- Reads an expression of a level from the front of a token list.  The first
argument bounds the number of nested steps. -/
def readLevel : Nat → Level → List Token → Option (Expr × List Token)
  | 0, _, _ => none
  | n + 1, .unary, tokens =>
      match tokens with
      | .not :: rest => (readLevel n .unary rest).map fun (e, rest) => (.not e, rest)
      | .minus :: rest => (readLevel n .unary rest).map fun (e, rest) => (.negate e, rest)
      | .number value :: rest => some (.number value, rest)
      | .opening :: rest =>
          match readLevel n .or rest with
          | some (e, .closing :: rest) => some (e, rest)
          | _ => none
      | .name text :: rest =>
          if text = "defined" then
            match rest with
            | .name target :: rest => some (.isDefined target, rest)
            | .opening :: .name target :: .closing :: rest => some (.isDefined target, rest)
            | _ => none
          else some (.name text, rest)
      | _ => none
  | n + 1, level, tokens =>
      match readLevel n level.next tokens with
      | some (left, rest) => readChain n level left rest
      | none => none

/-- Reads the operators of a level that follow a left operand, and their right
operands. -/
def readChain : Nat → Level → Expr → List Token → Option (Expr × List Token)
  | 0, _, _, _ => none
  | n + 1, level, left, tokens =>
      match tokens with
      | .binary op :: rest =>
          if op.level = level then
            match readLevel n level.next rest with
            | some (right, rest) => readChain n level (.binary op left right) rest
            | none => none
          else some (left, tokens)
      | _ => some (left, tokens)

end

/-- Reads a whole token list as one expression. -/
def read? (tokens : List Token) : Option Expr :=
  match readLevel (8 * tokens.length + 8) .or tokens with
  | some (e, []) => some e
  | _ => none

/-! ## Evaluation -/

/-- Wraps a number to sixty-four signed bits. -/
def wrap (n : Int) : Int :=
  n.bmod UInt64.size

/-- One for a true proposition and zero for a false one. -/
def ofBool (b : Bool) : Int :=
  if b then 1 else 0

/-- The value of an operator's application. -/
def apply (x y : Int) : BinaryOp → Int
  | .or => ofBool (x != 0 || y != 0)
  | .and => ofBool (x != 0 && y != 0)
  | .equal => ofBool (x == y)
  | .notEqual => ofBool (x != y)
  | .less => ofBool (x < y)
  | .greater => ofBool (x > y)
  | .lessOrEqual => ofBool (x ≤ y)
  | .greaterOrEqual => ofBool (x ≥ y)

/-- The value of a name: zero if undefined, one if defined as nothing, else the
number it is defined as, or zero if that is no number. -/
def nameValue : Option String → Int
  | none => 0
  | some value => if value = "" then 1 else (readInt64? value.toList).getD 0

/-- The value of an expression over the defined names. -/
def eval (macros : String → Option String) : Expr → Int
  | .number value => value
  | .name text => nameValue (macros text)
  | .isDefined target => ofBool (macros target).isSome
  | .not e => ofBool (e.eval macros == 0)
  | .negate e => wrap (-(e.eval macros))
  | .binary op left right => apply (left.eval macros) (right.eval macros) op

end Expr

/-- Whether a condition holds; nothing if it is malformed. -/
def holds? (macros : String → Option String) (text : List Char) : Option Bool := do
  let tokens ← lex text
  let e ← Expr.read? tokens
  return e.eval macros != 0

end Condition
end ShaderAssets
