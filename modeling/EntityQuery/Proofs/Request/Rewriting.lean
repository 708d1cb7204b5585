import EntityQuery.Compile.Select
import EntityQuery.Proofs.Json.Bare
import EntityQuery.Proofs.Json.Reread
import EntityQuery.Proofs.Request.Finite

/-!
# Proofs/Request/Rewriting — orders survive being written and read again

    { name: { note: null, direction: { DESC: null } }, mother: {}, age: { direction: "UP" } }
      ──▸  { name: { direction: "DESC" }, mother: {}, age: { direction: "UP" } }
      ──▸  …

An order is written without a mark for what its entries are, so they have to be told apart again.
`SortEntry.IsRead` is how a value is told apart: it is a sort key, an order whose values are
objects, or it is kept aside and not looked into.  By induction on it, what was read and written is
read as it was (`SortEntry.ofJson_rewrite`), and fits, nests and has its keys once as before.

An order with these properties is kept (`Order.IsKept`) by one rewriting (`IsKept.step`), and so by
any number of them (`IsKept.run`).  What is not kept is a double that was kept aside: its text is
worked out again, which may miss it by a last bit (`drifting_not_read_back`).  Doubles are never
looked at, so they can be replaced before or after reading (`SortEntry.ofJson_mapDoubles`) and
change nothing of what is compiled (`Order.compile_mapDoubles`).
-/

namespace EntityQuery

/-! ## Changing the values of members -/

namespace Json

variable {make : Json → Json} {members : List (String × Json)}

/-- An object stays without repeated keys if its values do. -/
theorem IsSettled.mapValues (h : (Json.obj members).IsSettled)
    (hmake : ∀ member ∈ members, member.2.IsSettled → (make member.2).IsSettled) :
    (Json.obj (Entries.mapValues make members)).IsSettled := by
  obtain ⟨hnames, hmembers⟩ := h
  refine ⟨(Entries.names_mapValues make members).symm ▸ hnames, settledMembers_iff.mpr ?_⟩
  exact List.forall_mem_map.mpr fun member hmember =>
    hmake member hmember (settledMembers_iff.mp hmembers member hmember)

theorem isProper_obj_iff :
    (Json.obj members).IsProper ↔ ∀ member ∈ members, member.2.IsProper := by
  refine ⟨fun h => ?_, .obj⟩
  cases h with
  | obj proper => exact proper

theorem IsProper.mapValues (h : (Json.obj members).IsProper)
    (hmake : ∀ member ∈ members, member.2.IsProper → (make member.2).IsProper) :
    (Json.obj (Entries.mapValues make members)).IsProper := by
  rw [isProper_obj_iff] at h
  exact .obj (List.forall_mem_map.mpr fun member hmember =>
    hmake member hmember (h member hmember))

/-- An object nests no deeper if its values do not. -/
theorem nesting_mapValues_le
    (hmake : ∀ member ∈ members, (make member.2).nesting ≤ member.2.nesting) :
    (Json.obj (Entries.mapValues make members)).nesting ≤ (Json.obj members).nesting := by
  refine Nat.add_le_add_right (nestingMembers_le (List.forall_mem_map.mpr ?_)) 1
  exact fun member hmember => (hmake member hmember).trans (nesting_le_of_mem member hmember)

end Json

/-! ## Sort keys -/

namespace SortKey

section

variable (f : Binary64 → Binary64)

/-- A name is read alike, since there is no double in it. -/
theorem nameOf?_mapDoubles {α : Type} (names : List (String × α)) (value : Json) :
    nameOf? names (value.mapDoubles f) = nameOf? names value := by
  cases value with
  | num number => cases number <;> rfl
  | obj members =>
    rcases members with _ | ⟨⟨name, unit⟩, _ | ⟨⟨next, value⟩, rest⟩⟩
    · rfl
    · cases unit with
      | num number => cases number <;> rfl
      | _ => rfl
    · cases unit with
      | num number => cases number <;> rfl
      | _ => rfl
  | _ => rfl

/-- A priority is read alike, since a double is none. -/
theorem integer?_mapDoubles (value : Json) : integer? (value.mapDoubles f) = integer? value := by
  cases value with
  | num number => cases number <;> rfl
  | _ => rfl

theorem optional?_map {α : Type} {read : Json → Option α}
    (h : ∀ value, read (value.mapDoubles f) = read value) (value : Option Json) :
    optional? read (value.map (Json.mapDoubles f)) = optional? read value := by
  rcases value with _ | value
  · rfl
  · have hvalue := h value
    cases value with
    | null => rfl
    | num number => cases number <;> exact congrArg (Option.map some) hvalue
    | _ => exact congrArg (Option.map some) hvalue

/-- No part of a sort key is a double. -/
theorem ofMembers?_mapDoubles (members : List (String × Json)) :
    ofMembers? (Json.mapDoublesMembers f members) = ofMembers? members := by
  rw [Json.mapDoublesMembers_eq_mapValues]
  simp only [ofMembers?, Entries.get?_mapValues, optional?_map f (nameOf?_mapDoubles f _),
    optional?_map f (integer?_mapDoubles f), Option.bind_eq_bind, Option.bind_map,
    Function.comp_def, nameOf?_mapDoubles]

end

/-- There is no double in what a sort key is written as. -/
theorem mapDoubles_toJson (f : Binary64 → Binary64) (key : SortKey) :
    key.toJson.mapDoubles f = key.toJson := by
  obtain ⟨direction, _ | place, _ | priority⟩ := key <;> rfl

/-- A direction is read back from its name. -/
theorem nameOf?_direction (direction : Direction) :
    nameOf? Direction.names (.str direction.name) = some direction := by
  cases direction <;> rfl

/-- A place of nulls is read back from its name. -/
theorem nameOf?_place (place : NullsPlace) :
    nameOf? NullsPlace.names (.str place.name) = some place := by
  cases place <;> rfl

theorem integer?_toInt (n : Int64) : integer? (.num (.integer n.toInt)) = some n := by
  have hlimit : n.toInt < Number.signedLimit := n.toInt_lt
  rw [integer?, if_pos hlimit, Int64.ofInt_toInt]

/-- **A sort key is read back.** -/
theorem ofJson_toJson (key : SortKey) : SortEntry.ofJson key.toJson = .key key := by
  obtain ⟨direction, _ | place, _ | priority⟩ := key <;>
    simp [toJson, SortEntry.ofJson, ofMembers?, Entries.get?, List.lookup_cons, optional?,
      nameOf?_direction, nameOf?_place, integer?_toInt]

theorem isSettled_toJson (key : SortKey) : key.toJson.IsSettled := by
  have hpriority (n : Int64) := Number.isProper_toInt n
  obtain ⟨direction, _ | place, _ | priority⟩ := key
  · exact ⟨by simp [Entries.names], trivial, trivial⟩
  · exact ⟨by simp [Entries.names], trivial, hpriority priority, trivial⟩
  · exact ⟨by simp [Entries.names], trivial, trivial, trivial⟩
  · exact ⟨by simp [Entries.names], trivial, trivial, hpriority priority, trivial⟩

theorem isProper_toJson (key : SortKey) : key.toJson.IsProper := by
  refine .obj fun member hmember => ?_
  simp only [List.cons_append, List.mem_cons, List.mem_append, List.mem_map] at hmember
  rcases hmember with rfl | ⟨place, -, rfl⟩ | ⟨priority, -, rfl⟩
  · exact .str _
  · exact .str _
  · exact .num (Number.isProper_toInt priority)

theorem nesting_toJson (key : SortKey) : key.toJson.nesting = 1 := by
  obtain ⟨direction, _ | place, _ | priority⟩ := key <;> rfl

end SortKey

/-! ## Sort entries -/

namespace SortEntry

section

variable (f : Binary64 → Binary64)

mutual

/-- An entry with the doubles in its unrecognised values replaced. -/
def mapDoubles : SortEntry → SortEntry
  | .key sortKey => .key sortKey
  | .nested entries => .nested (mapDoublesEntries entries)
  | .other value => .other (value.mapDoubles f)

/-- Entries with the doubles in their unrecognised values replaced. -/
def mapDoublesEntries : List (String × SortEntry) → List (String × SortEntry)
  | [] => []
  | (name, entry) :: rest => (name, mapDoubles entry) :: mapDoublesEntries rest

end

end

mutual

/-- The doubles in the unrecognised values of an entry. -/
def doubles : SortEntry → List Binary64
  | .key _ => []
  | .nested entries => doublesEntries entries
  | .other value => value.doubles

/-- The doubles in the unrecognised values of entries. -/
def doublesEntries : List (String × SortEntry) → List Binary64
  | [] => []
  | (_, entry) :: rest => doubles entry ++ doublesEntries rest

end

/-- The entries of an order are written one by one. -/
theorem toMembers_eq_mapValues (entries : List (String × SortEntry)) :
    toMembers entries = Entries.mapValues toJson entries := by
  induction entries with
  | nil => rfl
  | cons entry rest ih => rw [toMembers, ih, Entries.mapValues, Entries.mapValues, List.map_cons]

/-- The entries of an order are read one by one. -/
theorem ofMembers_eq_mapValues (members : List (String × Json)) :
    ofMembers members = Entries.mapValues ofJson members := by
  induction members with
  | nil => rfl
  | cons member rest ih => rw [ofMembers, ih, Entries.mapValues, Entries.mapValues, List.map_cons]

theorem mapDoublesEntries_eq_mapValues (f : Binary64 → Binary64)
    (entries : List (String × SortEntry)) :
    mapDoublesEntries f entries = Entries.mapValues (mapDoubles f) entries := by
  induction entries with
  | nil => rfl
  | cons entry rest ih =>
    rw [mapDoublesEntries, ih, Entries.mapValues, Entries.mapValues, List.map_cons]

section

variable {f : Binary64 → Binary64}

mutual

/-- An entry stays as it is exactly if its doubles do. -/
theorem mapDoubles_eq_self_iff : ∀ {entry : SortEntry},
    entry.mapDoubles f = entry ↔ ∀ x ∈ entry.doubles, f x = x
  | .key _ => iff_of_true rfl nofun
  | .nested entries => by
      rw [mapDoubles, doubles, SortEntry.nested.injEq, mapDoublesEntries_eq_self_iff]
  | .other value => by
      rw [mapDoubles, doubles, SortEntry.other.injEq, Json.mapDoubles_eq_self_iff]

theorem mapDoublesEntries_eq_self_iff : ∀ {entries : List (String × SortEntry)},
    mapDoublesEntries f entries = entries ↔ ∀ x ∈ doublesEntries entries, f x = x
  | [] => iff_of_true rfl nofun
  | (name, entry) :: rest => by
      rw [mapDoublesEntries, doublesEntries, List.cons.injEq, Prod.mk.injEq,
        List.forall_mem_append, mapDoubles_eq_self_iff, mapDoublesEntries_eq_self_iff,
        and_iff_right rfl]

end

mutual

theorem mapDoubles_mapDoubles (g : Binary64 → Binary64) : ∀ entry : SortEntry,
    (entry.mapDoubles f).mapDoubles g = entry.mapDoubles (g ∘ f)
  | .key _ => rfl
  | .nested entries => congrArg SortEntry.nested (mapDoublesEntries_mapDoublesEntries g entries)
  | .other value => congrArg SortEntry.other (value.mapDoubles_mapDoubles g)

theorem mapDoublesEntries_mapDoublesEntries (g : Binary64 → Binary64) :
    ∀ entries : List (String × SortEntry),
      mapDoublesEntries g (mapDoublesEntries f entries) = mapDoublesEntries (g ∘ f) entries
  | [] => rfl
  | (name, entry) :: rest => congrArg₂ List.cons
      (congrArg (Prod.mk name) (mapDoubles_mapDoubles g entry))
      (mapDoublesEntries_mapDoublesEntries g rest)

end

mutual

/-- Doubles can be replaced before or after writing. -/
theorem toJson_mapDoubles : ∀ entry : SortEntry,
    (entry.mapDoubles f).toJson = entry.toJson.mapDoubles f
  | .key sortKey => (sortKey.mapDoubles_toJson f).symm
  | .nested entries => congrArg Json.obj (toMembers_mapDoublesEntries entries)
  | .other _ => rfl

/-- Doubles can be replaced before an order is written or after. -/
theorem toMembers_mapDoublesEntries : ∀ entries : List (String × SortEntry),
    toMembers (mapDoublesEntries f entries) = Json.mapDoublesMembers f (toMembers entries)
  | [] => rfl
  | (name, entry) :: rest => congrArg₂ List.cons
      (congrArg (Prod.mk name) (toJson_mapDoubles entry)) (toMembers_mapDoublesEntries rest)

end

/-- Whether there is a direction does not depend on doubles. -/
theorem any_direction_mapDoubles (members : List (String × Json)) :
    ((Json.mapDoublesMembers f members).any fun member => member.1 == "direction")
      = members.any fun member => member.1 == "direction" := by
  rw [Json.mapDoublesMembers_eq_mapValues, Entries.mapValues, List.any_map]
  rfl

theorem all_isObj_mapDoubles (members : List (String × Json)) :
    ((Json.mapDoublesMembers f members).all fun member => member.2.isObj)
      = members.all fun member => member.2.isObj := by
  have hvalue (value : Json) : (value.mapDoubles f).isObj = value.isObj := by
    cases value with
    | num number => cases number <;> rfl
    | _ => rfl
  rw [Json.mapDoublesMembers_eq_mapValues, Entries.mapValues, List.all_map]
  exact congrArg (members.all ·) (funext fun member => hvalue member.2)

mutual

/-- Doubles can be replaced before or after reading: none is looked at. -/
theorem ofJson_mapDoubles : ∀ value : Json,
    ofJson (value.mapDoubles f) = (ofJson value).mapDoubles f
  | .null | .bool _ | .str _ | .arr _ | .num (.integer _) | .num (.real _) => rfl
  | .obj members => by
      rw [Json.mapDoubles, ofJson, ofJson, any_direction_mapDoubles, all_isObj_mapDoubles,
        SortKey.ofMembers?_mapDoubles]
      split
      · cases SortKey.ofMembers? members <;> rfl
      · split
        · rw [mapDoubles, ofMembers_mapDoublesMembers]
        · rfl

/-- Doubles can be replaced before an order is read or after. -/
theorem ofMembers_mapDoublesMembers : ∀ members : List (String × Json),
    ofMembers (Json.mapDoublesMembers f members) = mapDoublesEntries f (ofMembers members)
  | [] => rfl
  | (name, value) :: rest => congrArg₂ List.cons
      (congrArg (Prod.mk name) (ofJson_mapDoubles value)) (ofMembers_mapDoublesMembers rest)

end

end

/-! ## Writing what was read -/

/-- How a value is read, down to where it is not looked into. -/
inductive IsRead : Json → Prop
  | key {value : Json} {sortKey : SortKey} (hread : ofJson value = .key sortKey)
      (hobj : value.isObj = true) : IsRead value
  | nested {members : List (String × Json)}
      (hdirection : (members.any fun member => member.1 == "direction") = false)
      (hobj : ∀ member ∈ members, member.2.isObj = true)
      (inner : ∀ member ∈ members, IsRead member.2) : IsRead (.obj members)
  | other {value : Json} (hread : ofJson value = .other value) : IsRead value

mutual

/-- Every value is read. -/
theorem isRead : ∀ value : Json, IsRead value
  | .null | .bool _ | .str _ | .arr _ | .num _ => .other rfl
  | .obj members => by
      by_cases hdirection : (members.any fun member => member.1 == "direction") = true
      · rcases hkey : SortKey.ofMembers? members with _ | sortKey
        · exact .other (by rw [ofJson, if_pos hdirection, hkey])
        · exact .key (by rw [ofJson, if_pos hdirection, hkey]) rfl
      · by_cases hobj : (members.all fun member => member.2.isObj) = true
        · exact .nested (Bool.eq_false_iff.mpr hdirection) (List.all_eq_true.mp hobj)
            (isRead_of_mem members)
        · exact .other (by rw [ofJson, if_neg hdirection, if_neg hobj])

theorem isRead_of_mem : ∀ members : List (String × Json), ∀ member ∈ members, IsRead member.2
  | [] => nofun
  | (_, value) :: rest => List.forall_mem_cons.mpr ⟨isRead value, isRead_of_mem rest⟩

end

/-- A value as it is written after it was read. -/
def rewrite (value : Json) : Json :=
  (ofJson value).toJson

section

variable {members : List (String × Json)}
  (hdirection : (members.any fun member => member.1 == "direction") = false)
  (hobj : ∀ member ∈ members, member.2.isObj = true)

include hdirection hobj

theorem ofJson_nested : ofJson (.obj members) = .nested (Entries.mapValues ofJson members) := by
  rw [ofJson, if_neg (Bool.eq_false_iff.mp hdirection), if_pos (List.all_eq_true.mpr hobj),
    ofMembers_eq_mapValues]

theorem rewrite_nested : rewrite (.obj members) = .obj (Entries.mapValues rewrite members) := by
  rw [rewrite, ofJson_nested hdirection hobj, toJson, toMembers_eq_mapValues,
    Entries.mapValues_mapValues]
  rfl

end

/-- An object is written as an object. -/
theorem isObj_rewrite {value : Json} (h : value.isObj = true) : (rewrite value).isObj = true := by
  cases isRead value with
  | key hread =>
    rw [rewrite, hread]
    rfl
  | nested hdirection hobj =>
    rw [rewrite_nested hdirection hobj]
    rfl
  | other hread =>
    rw [rewrite, hread]
    exact h

/-- **What was read and written is read again as it was.** -/
theorem ofJson_rewrite (value : Json) : ofJson (rewrite value) = ofJson value := by
  induction isRead value with
  | key hread =>
    rw [rewrite, hread]
    exact SortKey.ofJson_toJson _
  | other hread =>
    rw [rewrite, hread]
    exact hread
  | @nested members hdirection hobj _ ih =>
    have hnames : ((Entries.mapValues rewrite members).any fun member => member.1 == "direction")
        = false := by
      rw [Entries.mapValues, List.any_map]
      exact hdirection
    have hobjects : ∀ member ∈ Entries.mapValues rewrite members, member.2.isObj = true :=
      List.forall_mem_map.mpr fun member hmember => isObj_rewrite (hobj member hmember)
    rw [rewrite_nested hdirection hobj, ofJson_nested hnames hobjects,
      ofJson_nested hdirection hobj, Entries.mapValues_mapValues, Entries.mapValues_congr ih]

/-- No key stands twice in what is written, if none did in what was read. -/
theorem isSettled_rewrite {value : Json} (h : value.IsSettled) : (rewrite value).IsSettled := by
  induction isRead value with
  | key hread =>
    rw [rewrite, hread]
    exact SortKey.isSettled_toJson _
  | other hread =>
    rw [rewrite, hread]
    exact h
  | @nested members hdirection hobj _ ih =>
    rw [rewrite_nested hdirection hobj]
    exact h.mapValues fun member hmember => ih member hmember

/-- Numbers fit as before. -/
theorem isProper_rewrite {value : Json} (h : value.IsProper) : (rewrite value).IsProper := by
  induction isRead value with
  | key hread =>
    rw [rewrite, hread]
    exact SortKey.isProper_toJson _
  | other hread =>
    rw [rewrite, hread]
    exact h
  | @nested members hdirection hobj _ ih =>
    rw [rewrite_nested hdirection hobj]
    exact h.mapValues fun member hmember => ih member hmember

/-- Containers nest no deeper than before. -/
theorem nesting_rewrite_le (value : Json) : (rewrite value).nesting ≤ value.nesting := by
  induction isRead value with
  | @key value sortKey hread hobj =>
    rw [rewrite, hread, toJson, SortKey.nesting_toJson]
    cases value with
    | obj members => exact Nat.le_add_left 1 _
    | _ => contradiction
  | other hread => rw [rewrite, hread, toJson]
  | @nested members hdirection hobj _ ih =>
    rw [rewrite_nested hdirection hobj]
    exact Json.nesting_mapValues_le ih

end SortEntry

/-! ## Orders -/

namespace Order

/-- An order with the doubles in its unrecognised values replaced. -/
def mapDoubles (f : Binary64 → Binary64) (order : Order) : Order :=
  SortEntry.mapDoublesEntries f order

/-- The doubles in the unrecognised values of an order. -/
def doubles (order : Order) : List Binary64 :=
  SortEntry.doublesEntries order

/-- A text is read as an order. -/
def Reads (text : String) (order : Order) : Prop :=
  (Document.ofText text).read (.ofNode ofNode) = .ok order

/-- A text with the order that it is read as written in its place. -/
def rewrite (text : String) : Except Refusal String := do
  let order ← (Document.ofText text).read (.ofNode ofNode)
  .ok order.toJson.compact

/-- A text that is rewritten so many times. -/
def rewriteTimes : Nat → String → Except Refusal String
  | 0, text => .ok text
  | count + 1, text => do
      let rewritten ← rewriteTimes count text
      rewrite rewritten

variable {text : String} {order : Order}

/-- A text that is read as an order is rewritten as the text of the order. -/
theorem rewrite_of_reads (h : Reads text order) : rewrite text = .ok order.toJson.compact := by
  rw [rewrite, h]
  rfl

/-- **Every object is read**, by its members with repeated keys merged. -/
theorem reads_of_spells {members settled : List (String × Json)}
    (h : Json.Grammar.Spells text (.obj members))
    (hdepth : (Json.obj members).nesting ≤ maxDepth)
    (hsettle : (Json.obj members).settle = .obj settled) :
    Reads text (Entries.mapValues SortEntry.ofJson settled) := by
  have hsettled : Entries.ofList (Entries.mapValues Json.settle members) = settled := by
    rw [← Json.settleMembers_eq_mapValues]
    exact Json.obj.inj hsettle
  rw [Reads, Document.ofText_eq_ofJson h hdepth, Document.read_ofNode, ofNode,
    Node.readEntries_value, ← hsettled, Entries.mapValues_ofList, Entries.mapValues_mapValues]
  rfl

/-- An order that reading and writing keeps: its entries read back, and as a value it is settled,
its numbers fit, and it nests within the limit. -/
structure IsKept (order : Order) : Prop where
  readsBack : ∀ entry ∈ order, SortEntry.ofJson entry.2.toJson = entry.2
  settled : order.toJson.settle = order.toJson
  proper : order.toJson.IsProper
  nesting : order.toJson.nesting ≤ maxDepth

theorem toJson_eq (order : Order) :
    order.toJson = .obj (Entries.mapValues SortEntry.toJson order) := by
  rw [toJson, SortEntry.toMembers_eq_mapValues]

/-- **Every object is read as an order that is kept.** -/
theorem exists_isKept {members : List (String × Json)}
    (h : Json.Grammar.Spells text (.obj members))
    (hdepth : (Json.obj members).nesting ≤ maxDepth) :
    ∃ order, Reads text order ∧ order.IsKept := by
  have hproper : (Json.obj members).IsProper := by
    have hroot := Document.isProper_ofText text
    rw [Document.ofText_eq_ofJson h hdepth] at hroot
    exact hroot.content (Node.content_ofJson _)
  have hnesting := Json.nesting_settle_le (.obj members)
  have hsettled := hproper.isSettled
  have hmerged := hproper.settle
  obtain ⟨settled, hsettle⟩ : ∃ settled, (Json.obj members).settle = .obj settled := ⟨_, rfl⟩
  rw [hsettle] at hnesting hsettled hmerged
  have hjson : toJson (Entries.mapValues SortEntry.ofJson settled)
      = .obj (Entries.mapValues SortEntry.rewrite settled) := by
    rw [toJson_eq, Entries.mapValues_mapValues]
    rfl
  refine ⟨_, reads_of_spells h hdepth hsettle, ?_, ?_, ?_, ?_⟩
  · exact List.forall_mem_map.mpr fun member _ => SortEntry.ofJson_rewrite member.2
  · rw [hjson]
    exact Json.settle_of_isSettled (hsettled.mapValues fun _ _ => SortEntry.isSettled_rewrite)
  · rw [hjson]
    exact hmerged.mapValues fun _ _ => SortEntry.isProper_rewrite
  · rw [hjson]
    refine Nat.le_trans (Json.nesting_mapValues_le fun member _ => ?_) (hnesting.trans hdepth)
    exact SortEntry.nesting_rewrite_le member.2

/-- **What spells an order that is kept is read as it.** -/
theorem IsKept.reads (h : order.IsKept) (hspells : Json.Grammar.Spells text order.toJson) :
    Reads text order := by
  have hsettled := h.settled
  rw [toJson_eq] at hsettled
  have hentries : Entries.mapValues SortEntry.ofJson (Entries.mapValues SortEntry.toJson order)
      = order := by
    have hsame : ∀ entry ∈ order, (SortEntry.ofJson ∘ SortEntry.toJson) entry.2 = id entry.2 :=
      h.readsBack
    rw [Entries.mapValues_mapValues, Entries.mapValues_congr hsame]
    exact List.map_id' order
  have hnesting := h.nesting
  rw [toJson_eq] at hspells hnesting
  have hreads := reads_of_spells hspells hnesting hsettled
  rwa [hentries] at hreads

/-- Doubles can be replaced before an order is written or after. -/
theorem toJson_mapDoubles (f : Binary64 → Binary64) (order : Order) :
    (order.mapDoubles f).toJson = order.toJson.mapDoubles f :=
  congrArg Json.obj (SortEntry.toMembers_mapDoublesEntries order)

/-- An order is kept with other doubles, if these are finite. -/
theorem IsKept.mapDoubles (h : order.IsKept) {f : Binary64 → Binary64}
    (hf : ∀ x, x.isFinite = true → (f x).isFinite = true) : (order.mapDoubles f).IsKept := by
  refine ⟨?_, ?_, ?_, ?_⟩
  · rw [Order.mapDoubles, SortEntry.mapDoublesEntries_eq_mapValues]
    refine List.forall_mem_map.mpr fun entry hentry => ?_
    rw [SortEntry.toJson_mapDoubles, SortEntry.ofJson_mapDoubles, h.readsBack entry hentry]
  · rw [toJson_mapDoubles, Json.settle_mapDoubles, h.settled]
  · rw [toJson_mapDoubles]
    exact h.proper.mapDoubles hf
  · rw [toJson_mapDoubles, Json.nesting_mapDoubles]
    exact h.nesting

/-- What sorts is no double. -/
theorem compile_mapDoubles (f : Binary64 → Binary64) (order : Order) (target : Target)
    (entity : String) :
    (order.mapDoubles f).compile target entity = order.compile target entity := by
  have hkey (entity : Entity) (entry : String × SortEntry) :
      prioritized? entity entry.1 (entry.2.mapDoubles f) = prioritized? entity entry.1 entry.2 := by
    obtain ⟨field, _ | _ | _⟩ := entry <;> rfl
  have hterms (entity : Entity) : (order.mapDoubles f).terms entity = order.terms entity := by
    rw [terms, terms, mapDoubles, SortEntry.mapDoublesEntries_eq_mapValues, Entries.mapValues,
      List.filterMap_map]
    simp only [Function.comp_def, hkey]
  simp only [compile, hterms]

/-! ## Rewriting -/

/-- A text is read as one order. -/
theorem Reads.unique {other : Order} (h : Reads text order) (hother : Reads text other) :
    order = other :=
  Except.ok.inj (h.symm.trans hother)

/-- **Written and read again, an order is kept but for its doubles.** -/
theorem IsKept.step (h : order.IsKept) : (order.mapDoubles Binary64.reread).IsKept
    ∧ Reads order.toJson.compact (order.mapDoubles Binary64.reread) := by
  have hkept := h.mapDoubles fun x hx => (Binary64.lexed_reread hx).1
  refine ⟨hkept, hkept.reads ?_⟩
  rw [toJson_mapDoubles]
  exact Json.spells_compact h.proper

/-- **However often it is rewritten, an order is kept but for its doubles.** -/
theorem IsKept.run (h : order.IsKept) (hreads : Reads text order) (count : Nat) :
    (order.mapDoubles (Binary64.reread^[count])).IsKept ∧ ∃ rewritten,
      rewriteTimes count text = .ok rewritten
        ∧ Reads rewritten (order.mapDoubles (Binary64.reread^[count])) := by
  induction count with
  | zero =>
    have hself : order.mapDoubles id = order :=
      SortEntry.mapDoublesEntries_eq_self_iff.mpr fun _ _ => rfl
    rw [Function.iterate_zero, hself]
    exact ⟨h, text, rfl, hreads⟩
  | succ count ih =>
    obtain ⟨hkept, rewritten, hrewritten, hread⟩ := ih
    have hagain : (order.mapDoubles (Binary64.reread^[count])).mapDoubles Binary64.reread
        = order.mapDoubles (Binary64.reread^[count + 1]) := by
      rw [Function.iterate_succ']
      exact SortEntry.mapDoublesEntries_mapDoublesEntries _ order
    obtain ⟨hnext, hreads⟩ := hkept.step
    rw [hagain] at hnext hreads
    refine ⟨hnext, _, ?_, hreads⟩
    rw [rewriteTimes, hrewritten]
    exact rewrite_of_reads hread

end Order

/-- **Orders survive being written and read again**, but for doubles that nothing looks at.  No
object is refused as an order for what it holds.  One that has a value, as every object has that
nests within the limit and has no number that the reader cannot hold and no half of a surrogate
pair, is read.  However often the order is written and read again, it is the same order, with every
double in an unrecognised value read off its own text as often; it is the same order altogether
exactly if these doubles are read as they are, and then every rewriting gives the same text.  What
it compiles to is always the same. -/
theorem order_survives_rewriting :
    (Reader.ofNode Order.ofNode).TakesObjects
    ∧ ∀ (text : String) (members : List (String × Json)),
      Json.Grammar.Spells text (.obj members) → (Json.obj members).nesting ≤ maxDepth →
        ∃ order : Order, Order.Reads text order
          ∧ (∀ count, ∃ rewritten, Order.rewriteTimes count text = .ok rewritten
            ∧ Order.Reads rewritten (order.mapDoubles (Binary64.reread^[count])))
          ∧ (Order.Reads order.toJson.compact order ↔ ∀ x ∈ order.doubles, x.reread = x)
          ∧ ((∀ x ∈ order.doubles, x.reread = x) →
            ∀ count, Order.rewriteTimes (count + 1) text = .ok order.toJson.compact)
          ∧ ∀ f target entity,
            (order.mapDoubles f).compile target entity = order.compile target entity := by
  refine ⟨Reader.takesObjects fun _ _ _ => Node.exists_fault_of_readEntries, ?_⟩
  intro text members h hdepth
  obtain ⟨order, hreads, hkept⟩ := Order.exists_isKept h hdepth
  refine ⟨order, hreads, fun count => (hkept.run hreads count).2, ?_, fun hfixed count => ?_,
    fun f => order.compile_mapDoubles f⟩
  · have hstep := hkept.step.2
    have hself : order.mapDoubles Binary64.reread = order ↔ ∀ x ∈ order.doubles, x.reread = x :=
      SortEntry.mapDoublesEntries_eq_self_iff
    rw [← hself]
    refine ⟨fun hsame => hstep.unique hsame, fun hsame => ?_⟩
    rw [hsame] at hstep
    exact hstep
  · obtain ⟨-, rewritten, hrewritten, hread⟩ := hkept.run hreads count
    have hself : order.mapDoubles (Binary64.reread^[count]) = order :=
      SortEntry.mapDoublesEntries_eq_self_iff.mpr fun x hx =>
        Function.iterate_fixed (hfixed x hx) count
    rw [hself] at hread
    rw [Order.rewriteTimes, hrewritten]
    exact Order.rewrite_of_reads hread

/-- One value of each kind: a sort key that is spelled at length, an order for a relation, a sort
key without a usable direction, and a double. -/
def everyKind : List (String × Json) :=
  [("name", .obj [("note", .null), ("direction", .obj [("DESC", .null)])]),
    ("mother", .obj [("age", .obj [("direction", .str "ASC"), ("priority", .null)])]),
    ("age", .obj [("direction", .str "UP")]), ("height", .num (.real ⟨0x3ff8000000000000⟩))]

/-- They are written at no more length than they need, however often they are rewritten. -/
theorem everyKind_survives :
    Json.Grammar.Spells (Json.obj everyKind).compact (.obj everyKind)
    ∧ (Json.obj everyKind).nesting ≤ maxDepth
    ∧ ∀ count, Order.rewriteTimes (count + 1) (Json.obj everyKind).compact
      = .ok ("\x7b\"name\":\x7b\"direction\":\"DESC\"\x7d,\"mother\":\x7b\"age\":"
        ++ "\x7b\"direction\":\"ASC\"\x7d\x7d,\"age\":\x7b\"direction\":\"UP\"\x7d,"
        ++ "\"height\":1.5\x7d") := by
  have hproper : (Json.obj everyKind).IsProper := by
    have hnumber : (Json.num (.real ⟨0x3ff8000000000000⟩)).IsProper := by
      have hfinite : Binary64.isFinite ⟨0x3ff8000000000000⟩ = true := by decide
      exact .num hfinite
    simp [everyKind, Json.isProper_obj_iff, Json.IsProper.null, Json.IsProper.str, hnumber]
  have hself : (Json.obj everyKind).mapDoubles Binary64.reread = .obj everyKind :=
    Json.mapDoubles_eq_self_iff.mpr (by decide +kernel)
  have hspells := Json.spells_compact hproper
  rw [hself] at hspells
  have hdepth : (Json.obj everyKind).nesting ≤ maxDepth := by decide
  refine ⟨hspells, hdepth, fun count => ?_⟩
  obtain ⟨order, hreads, -, -, hsame, -⟩ := order_survives_rewriting.2 _ _ hspells hdepth
  obtain rfl := hreads.unique (Order.reads_of_spells hspells hdepth rfl)
  refine (hsame (by decide +kernel) count).trans (congrArg Except.ok ?_)
  decide +kernel

theorem HasBareMember.not_reads {text : String} (h : HasBareMember text) {order : Order} :
    ¬Order.Reads text order := by
  obtain ⟨fault, htext⟩ := h
  rw [Order.Reads, htext]
  exact nofun

/-- The order that `{"x":7.751518962134485e-29}` is read as. -/
def drifting : Order :=
  [("x", .other (.num (.real ⟨0x3a1890c78092b4d3⟩)))]

/-- It is written with a double whose text is read as the one before, and so it is not read back.
Objects with a member that has no value are not read at all. -/
theorem drifting_not_read_back :
    Json.Grammar.Spells "\x7b\"x\":7.751518962134485e-29\x7d"
        (.obj [("x", .num (.real ⟨0x3a1890c78092b4d3⟩))])
      ∧ (Json.obj [("x", .num (.real ⟨0x3a1890c78092b4d3⟩))]).nesting ≤ maxDepth
      ∧ Order.Reads "\x7b\"x\":7.751518962134485e-29\x7d" drifting
      ∧ drifting.toJson.compact = "\x7b\"x\":7.751518962134484e-29\x7d"
      ∧ ¬Order.Reads drifting.toJson.compact drifting
      ∧ Numeral.scan "1e999".toList = .read hugeNumeral []
      ∧ ∀ text ∈ ["\x7b\"x\":1e999\x7d", "\x7b\"x\":\"\\ud800\"\x7d"],
        HasBareMember text ∧ ∀ order, ¬Order.Reads text order := by
  have htext : (Json.obj [("x", .num (.real ⟨0x3a1890c78092b4d4⟩))]).compact
      = "\x7b\"x\":7.751518962134485e-29\x7d" := by decide +kernel
  have hspells := htext ▸ Json.spells_missed "x"
  have hdepth : (Json.obj [("x", .num (.real ⟨0x3a1890c78092b4d3⟩))]).nesting ≤ maxDepth := by
    decide
  have hnot : ¬Order.Reads drifting.toJson.compact drifting := by
    intro hback
    have hproper : drifting.toJson.IsProper := .obj (List.forall_mem_singleton.mpr (.num rfl))
    have hkept : drifting.IsKept := ⟨List.forall_mem_singleton.mpr rfl, rfl, hproper, hdepth⟩
    have hsame := hkept.step.2.unique hback
    have hdouble := SortEntry.mapDoublesEntries_eq_self_iff.mp hsame _ List.mem_cons_self
    exact absurd hdouble (by decide +kernel)
  refine ⟨hspells, hdepth, Order.reads_of_spells hspells hdepth rfl, by decide +kernel, hnot, rfl,
    fun text hmem => ?_⟩
  have hbare := hasBareMember_of_mem hmem
  exact ⟨hbare, fun _ => hbare.not_reads⟩

end EntityQuery
