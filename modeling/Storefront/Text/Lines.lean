/-!
Text of files: UTF-8 in which every line ends in a line feed.
-/

namespace Storefront.Text

/-- The text with a line feed for each carriage return, alone or with the line feed after it. -/
def unifyNewlines : List Char → List Char
  | [] => []
  | '\r' :: '\n' :: s => '\n' :: unifyNewlines s
  | '\r' :: s => '\n' :: unifyNewlines s
  | c :: s => c :: unifyNewlines s

/-- The text of a file, if its bytes are UTF-8. -/
def ofBytes? (bytes : ByteArray) : Option String :=
  (String.fromUTF8? bytes).map fun s => .ofList (unifyNewlines s.toList)

end Storefront.Text
