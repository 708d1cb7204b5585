import EntityQuery.Entries
import EntityQuery.Number.Binary64

/-!
# Json/Basic — JSON values

A JSON value keeps its object members as entries, in the order the keys first appeared.
Numbers come in two kinds: integers that fit 64 bits, signed or unsigned, and doubles.
-/

namespace EntityQuery

/-- A JSON number: an integer of 64 bits, or a double. -/
inductive Number where
  | integer (value : Int)
  | real (value : Binary64)
  deriving DecidableEq, Repr

namespace Number

/-- The least integer that needs the sixty-fourth bit. -/
def signedLimit : Int := 0x8000000000000000

/-- The least integer that needs a sixty-fifth bit. -/
def unsignedLimit : Int := 0x10000000000000000

end Number

/-- A JSON value. -/
inductive Json where
  | null
  | bool (value : Bool)
  | num (value : Number)
  | str (value : String)
  | arr (items : List Json)
  | obj (members : List (String × Json))
  deriving Repr

namespace Json

/-- The value under a key of an object. -/
def get? (value : Json) (key : String) : Option Json :=
  match value with
  | .obj members => Entries.get? members key
  | _ => none

/-- Objects are told apart from everything else. -/
def isObj : Json → Bool
  | .obj _ => true
  | _ => false

end Json

end EntityQuery
