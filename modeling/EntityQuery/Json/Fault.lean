/-!
# Json/Fault — why a text is not JSON, and where

A fault says whether the text ended too early or held something that cannot stand where it does,
and how many bytes were still unread when that was noticed. The offending byte counts as read, so a
fault at a character leaves one byte less than the text from that character on (`faultAt`).
`placeAfter` turns the count back into a line and a column.
-/

namespace EntityQuery

/-- What is wrong with a text that is not JSON. -/
inductive FaultCause where
  /-- The text ends inside something. -/
  | ended
  /-- Something stands where it cannot. -/
  | malformed
  deriving DecidableEq, Repr

/-- A place at which a text stops being JSON. -/
structure Fault where
  /-- What is wrong. -/
  cause : FaultCause
  /-- How many bytes follow the offending one. -/
  unread : Nat
  deriving DecidableEq, Repr

/-- The length of a text in bytes. -/
def byteCount (cs : List Char) : Nat :=
  cs.foldl (fun total c => total + c.utf8Size) 0

namespace Fault

/-- The text ends too early. -/
def ended : Fault := ⟨.ended, 0⟩

/-- Everything before this text was read, and its last byte cannot stand. -/
def before (rest : List Char) : Fault := ⟨.malformed, byteCount rest⟩

/-- The first byte of this text cannot stand. -/
def faultAt (here : List Char) : Fault := ⟨.malformed, byteCount here - 1⟩

end Fault

/-- The line and the column reached by reading so many bytes from a line and a column.

Lines count from one and columns count the bytes read since the last line break. -/
def placeFrom (bytes line column : Nat) : List Char → Nat × Nat
  | [] => (line, column)
  | c :: rest =>
      if bytes < c.utf8Size then (line, column + bytes)
      else if c = '\n' then placeFrom (bytes - 1) (line + 1) 0 rest
      else placeFrom (bytes - c.utf8Size) line (column + c.utf8Size) rest

/-- The line and the column of a fault in a text. -/
def Fault.place (fault : Fault) (text : String) : Nat × Nat :=
  placeFrom (byteCount text.toList - fault.unread) 1 0 text.toList

end EntityQuery
