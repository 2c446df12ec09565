import ShaderAssets.Text.Blank
import ShaderAssets.Text.Split

/-!
# Directives

A line whose first visible character is `#` may be a directive: an inclusion, a
definition or a conditional.  Any other line, one with an unknown directive
included, is ordinary text.
-/

namespace ShaderAssets

/-- What one line tells the preprocessor. -/
inductive Directive where
  /-- Ordinary text. -/
  | text
  /-- An inclusion of a path in quotes or angle brackets. -/
  | inclusion (path : String)
  /-- An inclusion of something else. -/
  | malformedInclusion (argument : String)
  | define (name value : String)
  | undefine (name : String)
  | ifDefined (name : String) (expected : Bool)
  | condition (text : String)
  | otherwiseIf (text : String)
  | otherwise
  | endIf
deriving DecidableEq, Repr, Inhabited

namespace Directive

open Text

/-- The path between quotes or angle brackets. -/
def includePath? : List Char → Option (List Char)
  | '"' :: inner => dropSuffix? ['"'] inner
  | '<' :: inner => dropSuffix? ['>'] inner
  | _ => none

/-- The definition in the argument of a directive: a name up to white space, and
the value after it. -/
def definition (argument : List Char) : String × String :=
  (String.ofList (argument.takeWhile (!isBlank ·)),
    String.ofList (trim (argument.dropWhile (!isBlank ·))))

/-- The argument of a directive, without a comment at its end. -/
def argument (rest : List Char) : List Char :=
  trimEnd (beforeMark ['/', '/'] (trim rest))

/-- The directive with a given keyword and argument. -/
def ofKeyword (keyword : String) (argument : List Char) : Directive :=
  match keyword with
  | "include" =>
      match includePath? argument with
      | some path => .inclusion (String.ofList path)
      | none => .malformedInclusion (String.ofList argument)
  | "define" => .define (definition argument).1 (definition argument).2
  | "undef" => .undefine (String.ofList argument)
  | "ifdef" => .ifDefined (String.ofList argument) true
  | "ifndef" => .ifDefined (String.ofList argument) false
  | "if" => .condition (String.ofList argument)
  | "elif" => .otherwiseIf (String.ofList argument)
  | "else" => .otherwise
  | "endif" => .endIf
  | _ => .text

/-- The characters that a directive's keyword is made of. -/
def isKeywordChar (c : Char) : Bool :=
  c.isAlphanum || c == '_'

/-- What a line tells the preprocessor. -/
def ofLine (line : List Char) : Directive :=
  match trim line with
  | '#' :: rest =>
      let body := trimStart rest
      ofKeyword (String.ofList (body.takeWhile isKeywordChar))
        (argument (body.dropWhile isKeywordChar))
  | _ => .text

end Directive

end ShaderAssets
