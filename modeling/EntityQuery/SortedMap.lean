import EntityQuery.Entries

/-!
# SortedMap — entries in the order of their names

A sorted map is a list of entries together with the proof that their names ascend, so there is one
map for each assignment of values to names. Names are compared character by character by code point,
which is also the order of their bytes. `get?_insert` says what an insertion changes.
-/

namespace EntityQuery

/-- Entries whose names ascend. -/
def Entries.Ascending {α : Type} (entries : Entries α) : Prop :=
  entries.names.Pairwise (· < ·)

/-- Named values in the order of their names, each name once. -/
structure SortedMap (α : Type) where
  /-- The names and values, in order. -/
  entries : Entries α
  /-- The names ascend. -/
  ascending : entries.Ascending

namespace SortedMap

variable {α β : Type}

instance [DecidableEq α] : DecidableEq (SortedMap α) := fun a b =>
  decidable_of_iff (a.entries = b.entries) <| by cases a; cases b; simp

@[ext] theorem ext {a b : SortedMap α} (h : a.entries = b.entries) : a = b := by
  cases a; cases b; simp_all

/-- The map without entries. -/
def empty : SortedMap α := ⟨[], List.Pairwise.nil⟩

/-- The value under a name. -/
def get? (map : SortedMap α) (name : String) : Option α :=
  map.entries.get? name

/-- The names, ascending. -/
def names (map : SortedMap α) : List String :=
  map.entries.names

/-- Gives a name a value, in its place among ascending names. -/
def insertEntry (name : String) (value : α) : Entries α → Entries α
  | [] => [(name, value)]
  | entry :: rest =>
      if entry.1 < name then entry :: insertEntry name value rest
      else if entry.1 = name then (name, value) :: rest
      else (name, value) :: entry :: rest

theorem mem_names_insertEntry {name : String} {value : α} {other : String} :
    ∀ {entries : Entries α}, other ∈ (insertEntry name value entries).names →
      other = name ∨ other ∈ entries.names
  | [], h => .inl (List.mem_singleton.1 h)
  | first :: rest, h => by
      unfold insertEntry at h
      split at h
      · rcases List.mem_cons.1 h with h | h
        · exact .inr (h ▸ List.mem_cons_self)
        · exact (mem_names_insertEntry h).imp_right (List.mem_cons_of_mem _)
      · split at h
        · exact (List.mem_cons.1 h).imp_right (List.mem_cons_of_mem _)
        · exact List.mem_cons.1 h

theorem ascending_insertEntry (name : String) (value : α) :
    ∀ {entries : Entries α}, entries.Ascending → (insertEntry name value entries).Ascending
  | [], _ => List.pairwise_singleton _ _
  | first :: rest, h => by
      obtain ⟨hfirst, hrest⟩ := List.pairwise_cons.1 h
      unfold insertEntry
      split
      · rename_i hlt
        refine List.pairwise_cons.2 ⟨fun other ho => ?_, ascending_insertEntry name value hrest⟩
        rcases mem_names_insertEntry ho with rfl | ho
        · exact hlt
        · exact hfirst _ ho
      · rename_i hge
        split
        · rename_i heq
          exact List.pairwise_cons.2 ⟨fun other ho => heq ▸ hfirst other ho, hrest⟩
        · rename_i hne
          have hlt : name < first.1 :=
            Std.lt_of_le_of_ne (String.not_lt.1 hge) (Ne.symm hne)
          refine List.pairwise_cons.2 ⟨fun other ho => ?_, h⟩
          rcases List.mem_cons.1 ho with rfl | ho
          · exact hlt
          · exact String.lt_trans hlt (hfirst _ ho)

/-- Gives a name a value. -/
def insert (map : SortedMap α) (name : String) (value : α) : SortedMap α :=
  ⟨insertEntry name value map.entries, ascending_insertEntry name value map.ascending⟩

/-- Inserts pairs one after the other, so the last value of a name stands. -/
def ofList (pairs : List (String × α)) : SortedMap α :=
  pairs.foldl (fun map pair => map.insert pair.1 pair.2) empty

/-- Applies a function that may fail to every name and value, in the order of the names. -/
def traverse {ε : Type} (f : String → α → Except ε β) (map : SortedMap α) :
    Except ε (SortedMap β) :=
  match h : map.entries.traverse f with
  | .ok entries => .ok ⟨entries, by
      unfold Entries.Ascending
      rw [Entries.names_traverse h]
      exact map.ascending⟩
  | .error error => .error error

/-! ## Reading after writing -/

theorem get?_insertEntry (name : String) (value : α) (other : String) :
    ∀ {entries : Entries α}, entries.Ascending →
      (insertEntry name value entries).get? other =
        if name = other then some value else entries.get? other
  | [], _ => by simp [insertEntry, Entries.get?_cons]
  | first :: rest, h => by
      obtain ⟨hfirst, hrest⟩ := List.pairwise_cons.1 h
      unfold insertEntry
      split
      · rename_i hlt
        have hne : first.1 ≠ name := fun e => String.lt_irrefl name (e ▸ hlt)
        rw [Entries.get?_cons, Entries.get?_cons, get?_insertEntry name value other hrest]
        by_cases ho : first.1 = other
        · simp [ho, show ¬ name = other from fun e => hne (ho.trans e.symm)]
        · simp [ho]
      · split
        · rename_i heq
          rw [Entries.get?_cons, Entries.get?_cons, heq]
          by_cases ho : name = other <;> simp [ho]
        · rw [Entries.get?_cons]

theorem get?_insert (map : SortedMap α) (name : String) (value : α) (other : String) :
    (map.insert name value).get? other = if name = other then some value else map.get? other :=
  get?_insertEntry name value other map.ascending

theorem get?_insert_of_ne (map : SortedMap α) {name other : String} (value : α)
    (h : name ≠ other) : (map.insert name value).get? other = map.get? other := by
  simp [get?_insert, h]

end SortedMap

end EntityQuery
