import ShaderAssets.Text.Lines
import ShaderAssets.Text.Split
import ShaderAssets.Source.Basic
import ShaderAssets.Source.Token

/-!
# Tag blocks

Each line of a tag block gives one tag: a name and its values, or

    <name> = <define> ? <values if set> [: <values if unset>]

Without a colon every value belongs to the set branch.  A name without values
is no tag.
-/

namespace ShaderAssets
namespace Source

namespace Tag

/-- The values that belong to each branch of a conditional tag: those in front
of the first colon, and those after it that are no colon. -/
def branches (values : List String) : List String × List String :=
  (values.takeWhile (· != ":"), (values.dropWhile (· != ":")).filter (· != ":"))

/-- The conditional tag that the tokens after the equals sign give. -/
def readConditional? (name : String) : List String → Option Tag
  | define :: "?" :: value :: values =>
      if define = "?" then none
      else
        let (ifSet, ifUnset) := branches (value :: values)
        some (.conditional name define ifSet ifUnset)
  | _ => none

/-- The values of a tag for a defines string.  A conditional tag looks for the
literal text `<define>=1`. -/
def resolve (defines : String) : Tag → List String
  | .plain _ values => values
  | .conditional _ define ifSet ifUnset =>
      if Text.occursIn (define ++ "=1").toList defines.toList then ifSet else ifUnset

end Tag

/-- What one line of a tag block says. -/
inductive TagLine where
  /-- No tag: the line has at most a name. -/
  | empty
  | tag (declaration : Tag)
  | faulty (warning : Warning)
deriving DecidableEq, Repr, Inhabited

namespace TagLine

/-- Reads the line with a given number, counted from zero. -/
def read (number : Nat) (line : List Char) : TagLine :=
  match (Token.ofLine line false).map Token.text with
  | name :: "=" :: rest =>
      match Tag.readConditional? name rest with
      | some declaration => .tag declaration
      | none => .faulty (.malformedTag number (String.ofList (Text.trim line)))
  | name :: value :: values => .tag (.plain name (value :: values))
  | _ => .empty

end TagLine

namespace Tags

/-- The lines of a tag block, numbered from zero. -/
def readLines (text : String) : List TagLine :=
  (Text.linesOf text).zipIdx.map fun (line, number) => TagLine.read number line

/-- The tags that a tag block gives, in order. -/
def tags (text : String) : List Tag :=
  (readLines text).filterMap fun
    | .tag declaration => some declaration
    | _ => none

/-- The problems of a tag block, in order. -/
def warnings (text : String) : List Warning :=
  (readLines text).filterMap fun
    | .faulty warning => some warning
    | _ => none

end Tags

end Source
end ShaderAssets
