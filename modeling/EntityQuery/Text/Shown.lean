import EntityQuery.Text.Visible

/-!
# Text/Shown — a text as a message shows it

A message shows a foreign text in double quotes. Quotes, backslashes, the usual line and tab breaks
and the null character are escaped by a letter, and any other character that would not show by its
code.
-/

namespace EntityQuery.Shown

/-- A character inside the quotes. -/
def escape (c : Char) : List Char :=
  match c with
  | '"' => ['\\', '"']
  | '\\' => ['\\', '\\']
  | '\n' => ['\\', 'n']
  | '\r' => ['\\', 'r']
  | '\t' => ['\\', 't']
  | '\x00' => ['\\', '0']
  | c => if isVisible c then [c]
      else '\\' :: 'u' :: '\x7b' :: Nat.toDigits 16 c.toNat ++ ['\x7d']

/-- A text in quotes. -/
def quote (text : String) : String :=
  String.ofList ('"' :: text.toList.flatMap escape ++ ['"'])

end EntityQuery.Shown
