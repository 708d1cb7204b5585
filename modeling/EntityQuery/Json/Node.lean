import EntityQuery.Json.Basic
import EntityQuery.Json.Fault

/-!
# Json/Node — a JSON text as a tree, faults and all

A text is read from left to right, and what a reader complains of depends on what it wants: one that
wants an object complains of `[` before it sees what follows. So a text is first turned into a tree
that keeps every fault where it was met, and a reader then walks the tree and meets the faults in
the order of the text.

Some faults only matter to a reader that wants the value: a number no double can hold, a text with
half a surrogate pair, nesting beyond `maxDepth`. A reader that passes over the value does not see
them. `Node.unreadable` carries both views, and `Node.skipFault` is the one of the passer-by.
-/

namespace EntityQuery

/-- A JSON text as a tree that keeps its faults. -/
inductive Node where
  | null
  | bool (value : Bool)
  | num (value : Number)
  | str (value : String)
  /-- The items up to the bracket, or up to a fault where a comma or the bracket must stand. -/
  | arr (items : List Node) (stop : Option Fault)
  /-- The members up to the brace, or up to a fault where a key, a comma or the brace must stand. A
  key is its text, or the fault for which it has none. -/
  | obj (members : List (Except Fault String × Node)) (stop : Option Fault)
  /-- What a reader of this value meets, and what one meets who passes over it. -/
  | unreadable (fault : Fault) (skipped : Option Fault)

/-- The members of an object as they stand in the text, repeated keys included. -/
abbrev Members : Type := List (Except Fault String × Node)

/-- Containers nest this deep; one more is refused. -/
def maxDepth : Nat := 127

namespace Node

/-! ## Passing over a value -/

mutual

/-- The first fault that even a reader meets who passes over the value. -/
def skipFault : Node → Option Fault
  | .arr items stop => (skipFaultItems items).or stop
  | .obj members stop => (skipFaultMembers members).or stop
  | .unreadable _ skipped => skipped
  | _ => none

/-- The first such fault among items. -/
def skipFaultItems : List Node → Option Fault
  | [] => none
  | item :: rest => (skipFault item).or (skipFaultItems rest)

/-- The first such fault among members. -/
def skipFaultMembers : List (Except Fault String × Node) → Option Fault
  | [] => none
  | (_, value) :: rest => (skipFault value).or (skipFaultMembers rest)

end

/-- Passes over a value. -/
def skip (node : Node) : Except Fault Unit :=
  match node.skipFault with
  | none => .ok ()
  | some fault => .error fault

/-- The end of a container. -/
def close : Option Fault → Except Fault Unit
  | none => .ok ()
  | some fault => .error fault

/-! ## Reading a value in full -/

mutual

/-- The value with every member it was written with, repeated keys included. -/
def content : Node → Except Fault Json
  | .null => .ok .null
  | .bool value => .ok (.bool value)
  | .num value => .ok (.num value)
  | .str value => .ok (.str value)
  | .arr items stop => do
      let values ← contentItems items
      close stop
      .ok (.arr values)
  | .obj members stop => do
      let values ← contentMembers members
      close stop
      .ok (.obj values)
  | .unreadable fault _ => .error fault

/-- The values of items. -/
def contentItems : List Node → Except Fault (List Json)
  | [] => .ok []
  | item :: rest => do
      let value ← content item
      let values ← contentItems rest
      .ok (value :: values)

/-- The keys and values of members. -/
def contentMembers : List (Except Fault String × Node) → Except Fault (List (String × Json))
  | [] => .ok []
  | (key, item) :: rest => do
      let key ← key
      let value ← content item
      let values ← contentMembers rest
      .ok ((key, value) :: values)

end

end Node

namespace Json

mutual

/-- Merges repeated keys at every depth: the last value stands in the first place. -/
def settle : Json → Json
  | .arr items => .arr (settleItems items)
  | .obj members => .obj (Entries.ofList (settleMembers members))
  | scalar => scalar

/-- Merges repeated keys inside items. -/
def settleItems : List Json → List Json
  | [] => []
  | item :: rest => settle item :: settleItems rest

/-- Merges repeated keys inside the values of members. -/
def settleMembers : List (String × Json) → List (String × Json)
  | [] => []
  | (key, value) :: rest => (key, settle value) :: settleMembers rest

end

end Json

/-- The value of a node, repeated keys merged. -/
def Node.value (node : Node) : Except Fault Json :=
  node.content.map Json.settle

end EntityQuery
