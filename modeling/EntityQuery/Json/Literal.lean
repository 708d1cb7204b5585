import EntityQuery.Json.Scan

/-!
# Json/Literal — texts in quotes, as they are written

A text runs to the next quote that is not escaped. Control characters must be escaped, and an escape
is a letter of a short list or `u` and four hexadecimal digits. Such an escape is a unit of sixteen
bits: two units that form a surrogate pair are one character, and half a pair is a fault — but only
to a reader that wants the text, since one who passes over it looks at each escape by itself.
-/

namespace EntityQuery

namespace Literal

/-- The worth of a hexadecimal digit. -/
def hexValue? (c : Char) : Option Nat :=
  if c.isDigit then some (c.toNat - '0'.toNat)
  else if 'a' ≤ c ∧ c ≤ 'f' then some (c.toNat - 'a'.toNat + 10)
  else if 'A' ≤ c ∧ c ≤ 'F' then some (c.toNat - 'A'.toNat + 10)
  else none

/-- The unit that four hexadecimal digits spell. -/
def unit? (a b c d : Char) : Option Nat := do
  let a ← hexValue? a
  let b ← hexValue? b
  let c ← hexValue? c
  let d ← hexValue? d
  some (((a * 16 + b) * 16 + c) * 16 + d)

/-- The first half of a surrogate pair. -/
def isLeading (unit : Nat) : Bool :=
  decide (0xD800 ≤ unit ∧ unit < 0xDC00)

/-- The second half of a surrogate pair. -/
def isTrailing (unit : Nat) : Bool :=
  decide (0xDC00 ≤ unit ∧ unit < 0xE000)

/-- The character that a surrogate pair stands for. -/
def pairChar (leading trailing : Nat) : Char :=
  Char.ofNat (0x10000 + (leading - 0xD800) * 0x400 + (trailing - 0xDC00))

/-- The character after a backslash, for the escapes of one letter. -/
def letterEscape? : Char → Option Char
  | '"' => some '"'
  | '\\' => some '\\'
  | '/' => some '/'
  | 'b' => some '\x08'
  | 'f' => some '\x0c'
  | 'n' => some '\n'
  | 'r' => some '\r'
  | 't' => some '\t'
  | _ => none

/-- Four bytes were due as hexadecimal digits and they are not. -/
def unitFault (digits : List Char) : Fault :=
  if byteCount digits < 4 then .ended else ⟨.malformed, byteCount digits - 4⟩

/-- The fault of half a pair whose second half is missing, where what follows shows it: anything but
another unit. A text that ends there is reported as ended. -/
def loneFault? : List Char → Option Fault
  | [] => none
  | '\\' :: [] => none
  | '\\' :: 'u' :: _ => none
  | '\\' :: rest => some (.faultAt rest)
  | rest => some (.faultAt rest)

/-- The characters read so far, or the first fault that keeps them from being a text. -/
def finish (lone : Option Fault) (read : List Char) : Except Fault String :=
  match lone with
  | none => .ok (String.ofList read.reverse)
  | some fault => .error fault

/-- Breaks off: a reader of the text has noticed half a pair already if there is one. -/
def broken {α : Type} (lone : Option Fault) (fault : Fault) : Scan α :=
  .broken (lone.getD fault) fault

/-- A text after its opening quote; `lone` is the first half pair met so far, and `read` holds the
characters from the last one back. -/
def scanFrom (lone : Option Fault) (read : List Char) : List Char → Scan (Except Fault String)
  | [] => broken lone .ended
  | '"' :: rest => .read (finish lone read) rest
  | '\\' :: 'u' :: a :: b :: c :: d :: rest =>
      match unit? a b c d with
      | none => broken lone (unitFault (a :: b :: c :: d :: rest))
      | some unit =>
          if isTrailing unit then scanFrom (lone.or (some (.before rest))) read rest
          else if isLeading unit then
            match rest with
            | '\\' :: 'u' :: e :: f :: g :: h :: rest' =>
                match unit? e f g h with
                | none => broken lone (unitFault (e :: f :: g :: h :: rest'))
                | some second =>
                    if isTrailing second then
                      scanFrom lone (pairChar unit second :: read) rest'
                    else scanFrom (lone.or (some (.before rest'))) read rest'
            | rest => scanFrom (lone.or (loneFault? rest)) read rest
          else scanFrom lone (Char.ofNat unit :: read) rest
  | '\\' :: 'u' :: digits => broken lone (unitFault digits)
  | '\\' :: c :: rest =>
      match letterEscape? c with
      | some escaped => scanFrom lone (escaped :: read) rest
      | none => broken lone (.faultAt (c :: rest))
  | '\\' :: [] => broken lone .ended
  | c :: rest =>
      if c.toNat < 32 then broken lone (.faultAt (c :: rest))
      else scanFrom lone (c :: read) rest

/-- A text after its opening quote. -/
def scan (cs : List Char) : Scan (Except Fault String) :=
  scanFrom none [] cs

theorem within_scanFrom (lone : Option Fault) (read cs : List Char) :
    (scanFrom lone read cs).Within cs.length := by
  fun_induction scanFrom lone read cs
  case case2 => simp
  case case1 | case3 | case5 | case10 | case12 | case13 | case14 => trivial
  all_goals
    rename_i ih
    exact ih.mono (by simp only [List.length_cons]; omega)

theorem within_scan (cs : List Char) : (scan cs).Within cs.length :=
  within_scanFrom none [] cs

end Literal

end EntityQuery
