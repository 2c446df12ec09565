/-!
# Lines of a text

A line ends at a line feed or at the end of the text.  A carriage return right
before a line feed belongs to the line break; any other carriage return is an
ordinary character of its line.
-/

namespace ShaderAssets
namespace Text

/-- The lines of a text, without their breaks.  A final line break opens no
further line. -/
def lines : List Char → List (List Char)
  | [] => []
  | '\n' :: rest => [] :: lines rest
  | '\r' :: '\n' :: rest => [] :: lines rest
  | c :: rest =>
      match lines rest with
      | [] => [[c]]
      | line :: more => (c :: line) :: more

/-- The lines of a string. -/
def linesOf (s : String) : List (List Char) :=
  lines s.toList

/-- Each line followed by a line feed, all in one text. -/
def unlines (ls : List (List Char)) : List Char :=
  ls.flatMap (fun line => line ++ ['\n'])

end Text
end ShaderAssets
