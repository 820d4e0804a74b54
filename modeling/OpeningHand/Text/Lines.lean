/-!
# Lines of a text

A line ends at a line feed, which may follow a carriage return; both are dropped. A carriage return
that no line feed follows is an ordinary character. The last line need not be closed, and a text that
ends with a line feed has no empty line behind it. A line that begins with a number sign or with two
slashes is a comment.
-/

namespace OpeningHand.Text

def lines : List Char → List (List Char)
  | [] => []
  | '\n' :: text => [] :: lines text
  | '\r' :: '\n' :: text => [] :: lines text
  | c :: text =>
    match lines text with
    | [] => [[c]]
    | line :: rest => (c :: line) :: rest

/-- Whether a line without blanks around it says nothing: it is empty, or a comment. -/
def isComment (line : List Char) : Bool :=
  line.isEmpty || "#".toList.isPrefixOf line || "//".toList.isPrefixOf line

@[simp] theorem lines_nil : lines [] = [] := rfl

@[simp] theorem lines_lineFeed (text : List Char) : lines ('\n' :: text) = [] :: lines text := rfl

example : lines "ab\r\n\r\nc\r".toList = ["ab".toList, [], "c\r".toList] := by decide

example : lines "a\r\r\nb\n".toList = ["a\r".toList, "b".toList] := by decide

end OpeningHand.Text
