/-!
# Json/Quoted — how a text is written between quotes

Quotes and backslashes are escaped, and so is every control character — the five that have a letter
by it, the rest by four hexadecimal digits. Everything else stands for itself.
-/

namespace EntityQuery.Quoted

/-- One hexadecimal digit. -/
def hexDigit (n : Nat) : Char :=
  (n % 16).digitChar

/-- The escape of four hexadecimal digits. -/
def unicodeEscape (c : Char) : List Char :=
  let n := c.toNat
  ['\\', 'u', hexDigit (n / 4096), hexDigit (n / 256), hexDigit (n / 16), hexDigit n]

/-- A character as it stands between quotes. -/
def escape (c : Char) : List Char :=
  match c with
  | '"' => ['\\', '"']
  | '\\' => ['\\', '\\']
  | '\x08' => ['\\', 'b']
  | '\x0c' => ['\\', 'f']
  | '\n' => ['\\', 'n']
  | '\r' => ['\\', 'r']
  | '\t' => ['\\', 't']
  | c => if c.toNat < 32 then unicodeEscape c else [c]

/-- The characters of a text between quotes, without the quotes. -/
def encode (cs : List Char) : List Char :=
  cs.flatMap escape

/-- A text in quotes. -/
def chars (text : String) : List Char :=
  '"' :: encode text.toList ++ ['"']

end EntityQuery.Quoted
