import EntityQuery.Entries

/-!
# OrderedMap — entries in which no name stands twice

An ordered map is a list of entries together with the proof that their names are distinct. Every
operation keeps the order in which the names first appeared.
-/

namespace EntityQuery

/-- Named values in the order of their first appearance, each name once. -/
structure OrderedMap (α : Type) where
  /-- The names and values, in order. -/
  entries : Entries α
  /-- No name stands twice. -/
  nodup : entries.names.Nodup

namespace OrderedMap

variable {α β : Type}

instance [DecidableEq α] : DecidableEq (OrderedMap α) := fun a b =>
  decidable_of_iff (a.entries = b.entries) <| by cases a; cases b; simp

@[ext] theorem ext {a b : OrderedMap α} (h : a.entries = b.entries) : a = b := by
  cases a; cases b; simp_all

/-- The map without entries. -/
def empty : OrderedMap α := ⟨[], List.nodup_nil⟩

/-- The value under a name. -/
def get? (map : OrderedMap α) (name : String) : Option α :=
  map.entries.get? name

/-- Gives a name a value, in place when the name is known and at the end when it is new. -/
def put (map : OrderedMap α) (name : String) (value : α) : OrderedMap α :=
  ⟨map.entries.put name value, Entries.nodup_names_put map.nodup name value⟩

/-- Puts pairs one after the other. -/
def ofList (pairs : List (String × α)) : OrderedMap α :=
  ⟨Entries.ofList pairs, Entries.nodup_names_ofList pairs⟩

/-- Applies a function that may fail to every name and value, in order. -/
def traverse {ε : Type} (f : String → α → Except ε β) (map : OrderedMap α) :
    Except ε (OrderedMap β) :=
  match h : map.entries.traverse f with
  | .ok entries => .ok ⟨entries, Entries.names_traverse h ▸ map.nodup⟩
  | .error error => .error error

end OrderedMap

end EntityQuery
