import EntityQuery.Proofs.Json.Nearest
import EntityQuery.Proofs.Number.Range

/-!
# Proofs/Json/Reread — a value that is written is read with its doubles worked out again

The text of a finite double is read as some finite double, which need not be the same
(`Binary64.reread`).  All else that is written without blanks is read back, so the text spells the
value with each double replaced by the one that its own text is read as (`Json.spells_compact`).
With its numbers rounded once it spells the value itself (`Json.spellsAs_held_compact`).  Whatever
text spells a value in this way is read as the value but for its doubles (`Json.IsReadAs`), each of
them taken for one that a numeral nearest to it is read as (`Json.exists_spells_of_held`).

`Json.mapDoubles` replaces the doubles of a value.  It commutes with merging repeated keys, keeps
the nesting, and leaves a value alone exactly if it leaves its doubles alone.
-/

namespace EntityQuery

open Json.Grammar (Blanks Lexed Key Taking ValueAs ItemsAs Ends nearest held)

/-! ## Numbers -/

/-- The double that the text of a double is read as. -/
def Binary64.reread (x : Binary64) : Binary64 :=
  match Json.parse (Number.real x).text with
  | .ok (.num (.real y)) => y
  | _ => x

example : Binary64.reread ⟨0x3ff8000000000000⟩ = ⟨0x3ff8000000000000⟩ := by decide +kernel

/-- A double whose text is read as the one before it. -/
theorem Binary64.reread_missed :
    Binary64.reread ⟨0x3a1890c78092b4d4⟩ = ⟨0x3a1890c78092b4d3⟩ := by
  decide +kernel

/-- **The text of a finite double is one token**, whatever ends it: the double it is read as. -/
theorem Binary64.lexed_reread {x : Binary64} (h : x.isFinite = true) : x.reread.isFinite = true
    ∧ ∀ rest, Ends rest →
      Lexed ((Number.real x).text.toList ++ rest) (.scalar (.num (.real x.reread))) rest := by
  obtain ⟨numeral, htext⟩ := Number.exists_isTextOf h
  obtain ⟨y, hvalue⟩ := htext.exists_value? h
  have hlexed (rest : List Char) (hrest : Ends rest) :
      Lexed ((Number.real x).text.toList ++ rest) (.scalar (.num (.real y))) rest := by
    obtain ⟨c, after, hchars, hscan, -⟩ := htext.isWritten.exists_scan hrest
    rw [Numeral.node, hvalue] at hscan
    rw [htext.chars, hchars]
    exact ⟨c, after, rfl, hscan⟩
  have hreread : x.reread = y := by
    have hspells : Json.Grammar.Spells (Number.real x).text (.num (.real y)) :=
      ⟨[], .scalar (List.append_nil (Number.real x).text.toList ▸ hlexed [] .nil) rfl, .refl []⟩
    rw [reread, Json.parse_of_spells hspells (Nat.zero_le _)]
    rfl
  rw [hreread]
  exact ⟨Numeral.isProper_of_value? hvalue, hlexed⟩

namespace Json

/-! ## Doubles -/

section

variable (f : Binary64 → Binary64)

mutual

/-- A value with its doubles replaced. -/
def mapDoubles : Json → Json
  | .num (.real x) => .num (.real (f x))
  | .arr items => .arr (mapDoublesItems items)
  | .obj members => .obj (mapDoublesMembers members)
  | value => value

/-- Items with their doubles replaced. -/
def mapDoublesItems : List Json → List Json
  | [] => []
  | item :: rest => mapDoubles item :: mapDoublesItems rest

/-- Members with the doubles of their values replaced. -/
def mapDoublesMembers : List (String × Json) → List (String × Json)
  | [] => []
  | (key, value) :: rest => (key, mapDoubles value) :: mapDoublesMembers rest

end

end

mutual

/-- The doubles of a value, in the order in which they are written. -/
def doubles : Json → List Binary64
  | .num (.real x) => [x]
  | .arr items => doublesItems items
  | .obj members => doublesMembers members
  | _ => []

/-- The doubles of items. -/
def doublesItems : List Json → List Binary64
  | [] => []
  | item :: rest => doubles item ++ doublesItems rest

/-- The doubles of the values of members. -/
def doublesMembers : List (String × Json) → List Binary64
  | [] => []
  | (_, value) :: rest => doubles value ++ doublesMembers rest

end

theorem mapDoublesItems_eq_map (f : Binary64 → Binary64) (items : List Json) :
    mapDoublesItems f items = items.map (mapDoubles f) := by
  induction items with
  | nil => rfl
  | cons item rest ih => rw [mapDoublesItems, ih, List.map_cons]

theorem mapDoublesMembers_eq_mapValues (f : Binary64 → Binary64) (members : List (String × Json)) :
    mapDoublesMembers f members = Entries.mapValues (mapDoubles f) members := by
  induction members with
  | nil => rfl
  | cons member rest ih =>
    rw [mapDoublesMembers, ih, Entries.mapValues, Entries.mapValues, List.map_cons]

section

variable {f : Binary64 → Binary64}

mutual

/-- A value stays as it is exactly if its doubles do. -/
theorem mapDoubles_eq_self_iff : ∀ {value : Json},
    value.mapDoubles f = value ↔ ∀ x ∈ value.doubles, f x = x
  | .null | .bool _ | .str _ | .num (.integer _) => iff_of_true rfl nofun
  | .num (.real x) => by simp [mapDoubles, doubles]
  | .arr items => by
      rw [mapDoubles, doubles, Json.arr.injEq, mapDoublesItems_eq_self_iff]
  | .obj members => by
      rw [mapDoubles, doubles, Json.obj.injEq, mapDoublesMembers_eq_self_iff]

theorem mapDoublesItems_eq_self_iff : ∀ {items : List Json},
    mapDoublesItems f items = items ↔ ∀ x ∈ doublesItems items, f x = x
  | [] => iff_of_true rfl nofun
  | item :: rest => by
      rw [mapDoublesItems, doublesItems, List.cons.injEq, List.forall_mem_append,
        mapDoubles_eq_self_iff, mapDoublesItems_eq_self_iff]

theorem mapDoublesMembers_eq_self_iff : ∀ {members : List (String × Json)},
    mapDoublesMembers f members = members ↔ ∀ x ∈ doublesMembers members, f x = x
  | [] => iff_of_true rfl nofun
  | (key, value) :: rest => by
      rw [mapDoublesMembers, doublesMembers, List.cons.injEq, Prod.mk.injEq,
        List.forall_mem_append, mapDoubles_eq_self_iff, mapDoublesMembers_eq_self_iff,
        and_iff_right rfl]

end

theorem mapDoubles_id (value : Json) : value.mapDoubles id = value :=
  mapDoubles_eq_self_iff.mpr fun _ _ => rfl

mutual

/-- Doubles that are replaced twice can be replaced at once. -/
theorem mapDoubles_mapDoubles (g : Binary64 → Binary64) : ∀ value : Json,
    (value.mapDoubles f).mapDoubles g = value.mapDoubles (g ∘ f)
  | .null | .bool _ | .str _ | .num (.integer _) | .num (.real _) => rfl
  | .arr items => congrArg Json.arr (mapDoublesItems_mapDoublesItems g items)
  | .obj members => congrArg Json.obj (mapDoublesMembers_mapDoublesMembers g members)

theorem mapDoublesItems_mapDoublesItems (g : Binary64 → Binary64) : ∀ items : List Json,
    mapDoublesItems g (mapDoublesItems f items) = mapDoublesItems (g ∘ f) items
  | [] => rfl
  | item :: rest => congrArg₂ List.cons (mapDoubles_mapDoubles g item)
      (mapDoublesItems_mapDoublesItems g rest)

theorem mapDoublesMembers_mapDoublesMembers (g : Binary64 → Binary64) :
    ∀ members : List (String × Json),
      mapDoublesMembers g (mapDoublesMembers f members) = mapDoublesMembers (g ∘ f) members
  | [] => rfl
  | (key, value) :: rest => congrArg₂ List.cons
      (congrArg (Prod.mk key) (mapDoubles_mapDoubles g value))
      (mapDoublesMembers_mapDoublesMembers g rest)

end

mutual

/-- Containers nest as deep as before. -/
@[simp] theorem nesting_mapDoubles : ∀ value : Json, (value.mapDoubles f).nesting = value.nesting
  | .null | .bool _ | .str _ | .num (.integer _) | .num (.real _) => rfl
  | .arr items => congrArg (· + 1) (nestingItems_mapDoublesItems items)
  | .obj members => congrArg (· + 1) (nestingMembers_mapDoublesMembers members)

theorem nestingItems_mapDoublesItems : ∀ items : List Json,
    nestingItems (mapDoublesItems f items) = nestingItems items
  | [] => rfl
  | item :: rest => congrArg₂ max (nesting_mapDoubles item) (nestingItems_mapDoublesItems rest)

theorem nestingMembers_mapDoublesMembers : ∀ members : List (String × Json),
    nestingMembers (mapDoublesMembers f members) = nestingMembers members
  | [] => rfl
  | (_, value) :: rest =>
      congrArg₂ max (nesting_mapDoubles value) (nestingMembers_mapDoublesMembers rest)

end

mutual

/-- Repeated keys can be merged before or after. -/
theorem settle_mapDoubles : ∀ value : Json,
    (value.mapDoubles f).settle = value.settle.mapDoubles f
  | .null | .bool _ | .str _ | .num (.integer _) | .num (.real _) => rfl
  | .arr items => congrArg Json.arr (settleItems_mapDoublesItems items)
  | .obj members => by
      rw [mapDoubles, settle, settle, mapDoubles, settleMembers_mapDoublesMembers,
        mapDoublesMembers_eq_mapValues, mapDoublesMembers_eq_mapValues, Entries.mapValues_ofList]

theorem settleItems_mapDoublesItems : ∀ items : List Json,
    settleItems (mapDoublesItems f items) = mapDoublesItems f (settleItems items)
  | [] => rfl
  | item :: rest => congrArg₂ List.cons (settle_mapDoubles item) (settleItems_mapDoublesItems rest)

theorem settleMembers_mapDoublesMembers : ∀ members : List (String × Json),
    settleMembers (mapDoublesMembers f members) = mapDoublesMembers f (settleMembers members)
  | [] => rfl
  | (key, value) :: rest => congrArg₂ List.cons (congrArg (Prod.mk key) (settle_mapDoubles value))
      (settleMembers_mapDoublesMembers rest)

end

/-- Numbers still fit, if finite doubles stay finite. -/
theorem IsProper.mapDoubles (hf : ∀ x, x.isFinite = true → (f x).isFinite = true) {value : Json}
    (h : value.IsProper) : (value.mapDoubles f).IsProper := by
  induction h with
  | null => exact .null
  | bool truth => exact .bool truth
  | str text => exact .str text
  | @num number proper =>
    cases number with
    | integer n => exact .num proper
    | real x => exact .num (hf x proper)
  | arr _ ih =>
    rw [Json.mapDoubles, mapDoublesItems_eq_map]
    exact .arr (List.forall_mem_map.mpr ih)
  | obj _ ih =>
    rw [Json.mapDoubles, mapDoublesMembers_eq_mapValues]
    exact .obj (List.forall_mem_map.mpr ih)

end

/-! ## Numbers that are held -/

mutual

/-- A value is read as another, which differs in doubles only. -/
inductive IsReadAs : Json → Json → Prop
  | null : IsReadAs .null .null
  | bool (truth : Bool) : IsReadAs (.bool truth) (.bool truth)
  | integer (n : Int) : IsReadAs (.num (.integer n)) (.num (.integer n))
  | real {x y : Binary64} (h : x.IsReadAs y) : IsReadAs (.num (.real x)) (.num (.real y))
  | str (text : String) : IsReadAs (.str text) (.str text)
  | arr {items read} (inner : ItemsAreReadAs items read) : IsReadAs (.arr items) (.arr read)
  | obj {members read} (inner : MembersAreReadAs members read) :
      IsReadAs (.obj members) (.obj read)

/-- Items are read as others. -/
inductive ItemsAreReadAs : List Json → List Json → Prop
  | nil : ItemsAreReadAs [] []
  | cons {item read items others} (first : IsReadAs item read)
      (rest : ItemsAreReadAs items others) : ItemsAreReadAs (item :: items) (read :: others)

/-- Members are read as others with the same keys. -/
inductive MembersAreReadAs : List (String × Json) → List (String × Json) → Prop
  | nil : MembersAreReadAs [] []
  | cons {key value read members others} (first : IsReadAs value read)
      (rest : MembersAreReadAs members others) :
      MembersAreReadAs ((key, value) :: members) ((key, read) :: others)

end

/-- Members that are read as others have the same keys in the same order. -/
theorem MembersAreReadAs.related : ∀ {members others : List (String × Json)},
    MembersAreReadAs members others → Entries.Related IsReadAs members others
  | _, _, .nil => .nil
  | _, _, .cons first rest => .cons ⟨rfl, first⟩ rest.related

/-- The number nearest to a numeral is read as the number of the numeral. -/
theorem isReadAs_of_nearest? {numeral : Numeral} {number read : Number}
    (hnearest : numeral.nearest? = some number) (hvalue : numeral.value? = some read) :
    (num number).IsReadAs (num read) := by
  have hnumber := hnearest
  rw [Numeral.nearest?, hvalue] at hnumber
  cases read with
  | integer n =>
    obtain rfl := Option.some.inj hnumber
    exact .integer n
  | real y =>
    obtain ⟨-, hreal⟩ := Option.ite_none_right_eq_some.mp hnumber
    obtain rfl := Option.some.inj hreal
    exact .real ⟨numeral, hnearest, hvalue⟩

/-- A numeral that is held is taken for the number nearest to it. -/
theorem exists_number_of_held {here rest : List Char} {numeral : Numeral} {value : Json}
    (scanned : Numeral.scan here = .read numeral rest)
    (taken : held.node here (numeral.node rest) = Node.ofJson value) :
    ∃ number read, numeral.nearest? = some number ∧ numeral.value? = some read
      ∧ value = .num number := by
  have hnearest := Grammar.nearest_node scanned
  rw [Numeral.node] at taken hnearest
  rcases hvalue : numeral.value? with _ | read <;> rw [hvalue] at taken hnearest
  · exact absurd taken.symm (Node.ofJson_ne_unreadable value)
  · have hnode := hnearest.symm.trans taken
    rw [Numeral.nearestNode] at hnode
    split at hnode
    · next number hnumber =>
      exact ⟨number, read, hnumber, rfl, Node.ofJson_injective hnode.symm⟩
    · exact absurd hnode.symm (Node.ofJson_ne_unreadable value)

/-- A scalar that is held is what it is read as, but for a double. -/
theorem exists_scalar_of_held {cs rest : List Char} {node : Node} {value : Json}
    (lexed : Lexed cs (.scalar node) rest) (taken : held.node cs node = Node.ofJson value) :
    ∃ read, node = Node.ofJson read ∧ value.IsReadAs read := by
  obtain ⟨c, after, rfl, hscan⟩ := lexed
  cases Token.isScalar_of_scan hscan with
  | null =>
    obtain rfl : value = .null := Node.ofJson_injective taken.symm
    exact ⟨.null, rfl, .null⟩
  | bool truth =>
    obtain rfl : value = .bool truth := Node.ofJson_injective taken.symm
    exact ⟨.bool truth, rfl, .bool truth⟩
  | numeral scanned =>
    obtain ⟨number, read, hnearest, hvalue, rfl⟩ := exists_number_of_held scanned taken
    refine ⟨.num read, ?_, isReadAs_of_nearest? hnearest hvalue⟩
    rw [Numeral.node, hvalue]
    rfl

mutual

/-- **What spells a value, its numbers held and rounded once, spells what the value is read as.** -/
theorem exists_value_of_held : ∀ {cs rest : List Char} {value : Json},
    ValueAs held cs value rest → ∃ read, Grammar.Value cs read rest ∧ value.IsReadAs read
  | _, _, _, .blank isBlank inner => by
      obtain ⟨read, hread, hsame⟩ := exists_value_of_held inner
      exact ⟨read, .blank isBlank hread, hsame⟩
  | _, _, _, .text lexed => ⟨_, .text lexed, .str _⟩
  | _, _, _, .scalar lexed taken => by
      obtain ⟨read, hnode, hsame⟩ := exists_scalar_of_held lexed taken
      exact ⟨read, .scalar lexed hnode, hsame⟩
  | _, _, _, .emptyArr gap => ⟨_, .emptyArr gap, .arr .nil⟩
  | _, _, _, .arr inner => by
      obtain ⟨read, hread, hsame⟩ := exists_items_of_held inner
      exact ⟨_, .arr hread, .arr hsame⟩
  | _, _, _, .emptyObj gap => ⟨_, .emptyObj gap, .obj .nil⟩
  | _, _, _, .obj inner => by
      obtain ⟨read, hread, hsame⟩ := exists_members_of_held inner
      exact ⟨_, .obj hread, .obj hsame⟩

theorem exists_items_of_held : ∀ {cs rest : List Char} {items : List Json},
    ItemsAs held cs items rest → ∃ read, Grammar.Items cs read rest ∧ ItemsAreReadAs items read
  | _, _, _, .one first gap => by
      obtain ⟨read, hread, hsame⟩ := exists_value_of_held first
      exact ⟨_, .one hread gap, .cons hsame .nil⟩
  | _, _, _, .more first gap next => by
      obtain ⟨read, hread, hsame⟩ := exists_value_of_held first
      obtain ⟨others, hothers, hrest⟩ := exists_items_of_held next
      exact ⟨_, .more hread gap hothers, .cons hsame hrest⟩

theorem exists_members_of_held : ∀ {cs rest : List Char} {members : List (String × Json)},
    Grammar.MembersAs held cs members rest →
      ∃ read, Grammar.Members cs read rest ∧ MembersAreReadAs members read
  | _, _, _, .one name first gap => by
      obtain ⟨read, hread, hsame⟩ := exists_value_of_held first
      exact ⟨_, .one name hread gap, .cons hsame .nil⟩
  | _, _, _, .more name first gap next => by
      obtain ⟨read, hread, hsame⟩ := exists_value_of_held first
      obtain ⟨others, hothers, hrest⟩ := exists_members_of_held next
      exact ⟨_, .more name hread gap hothers, .cons hsame hrest⟩

end

/-- A text that spells a value, its numbers held and rounded once, spells what the value is read
as. -/
theorem exists_spells_of_held {text : String} {value : Json}
    (h : Grammar.SpellsAs held text value) :
    ∃ read, Grammar.Spells text read ∧ value.IsReadAs read := by
  obtain ⟨rest, hvalue, hrest⟩ := h
  obtain ⟨read, hread, hsame⟩ := exists_value_of_held hvalue
  exact ⟨read, ⟨rest, hread, hrest⟩, hsame⟩

mutual

/-- Containers nest as deep as those that are read. -/
theorem IsReadAs.nesting_eq : ∀ {value read : Json}, value.IsReadAs read →
    read.nesting = value.nesting
  | _, _, .null | _, _, .bool _ | _, _, .integer _ | _, _, .real _ | _, _, .str _ => rfl
  | _, _, .arr inner => congrArg (· + 1) inner.nesting_eq
  | _, _, .obj inner => congrArg (· + 1) inner.nesting_eq

theorem ItemsAreReadAs.nesting_eq : ∀ {items read : List Json}, ItemsAreReadAs items read →
    nestingItems read = nestingItems items
  | _, _, .nil => rfl
  | _, _, .cons first rest => congrArg₂ max first.nesting_eq rest.nesting_eq

theorem MembersAreReadAs.nesting_eq : ∀ {members read : List (String × Json)},
    MembersAreReadAs members read → nestingMembers read = nestingMembers members
  | _, _, .nil => rfl
  | _, _, .cons first rest => congrArg₂ max first.nesting_eq rest.nesting_eq

end

/-! ## Without blanks -/

/-- Items that are written are items of the grammar. -/
theorem items_compactItems {taking : Taking} {read : Json → Json} {items : List Json}
    {rest : List Char} (hrest : Ends rest) (hsome : items ≠ [])
    (h : ∀ item ∈ items, ∀ rest, Ends rest →
      ValueAs taking (item.compactChars ++ rest) (read item) rest) :
    ItemsAs taking (compactItems items ++ rest) (items.map read) rest := by
  induction items with
  | nil => exact absurd rfl hsome
  | cons item items ih =>
    obtain ⟨hitem, hitems⟩ := List.forall_mem_cons.mp h
    rcases items with _ | ⟨next, items⟩
    · exact .one (hitem rest hrest) (.refl rest)
    · have hnext := ih (List.cons_ne_nil next items) hitems
      rw [compactItems, List.append_assoc, List.cons_append]
      · exact .more (hitem _ (by simp [Ends])) (.refl _) hnext
      · exact List.cons_ne_nil next items

/-- Members that are written are members of the grammar. -/
theorem members_compactMembers {taking : Taking} {read : Json → Json}
    {members : List (String × Json)} {rest : List Char} (hrest : Ends rest) (hsome : members ≠ [])
    (h : ∀ member ∈ members, ∀ rest, Ends rest →
      ValueAs taking (member.2.compactChars ++ rest) (read member.2) rest) :
    Grammar.MembersAs taking (compactMembers members ++ rest) (Entries.mapValues read members)
      rest := by
  induction members with
  | nil => exact absurd rfl hsome
  | cons member members ih =>
    obtain ⟨name, value⟩ := member
    obtain ⟨hvalue, hmembers⟩ := List.forall_mem_cons.mp h
    have hname (after : List Char) : Key (Quoted.chars name ++ ':' :: after) name after :=
      ⟨_, _, .refl _, Grammar.lexed_quoted name _, .refl _⟩
    rcases members with _ | ⟨next, members⟩
    · rw [compactMembers, List.append_assoc, List.cons_append]
      exact .one (hname _) (hvalue rest hrest) (.refl rest)
    · have hnext := ih (List.cons_ne_nil next members) hmembers
      rw [compactMembers, List.append_assoc, List.append_assoc, List.cons_append, List.cons_append]
      · exact .more (hname _) (hvalue _ (by simp [Ends])) (.refl _) hnext
      · exact List.cons_ne_nil next members

section

variable {taking : Taking} {f : Binary64 → Binary64}
  (hnumber : ∀ number : Number, number.IsProper → ∀ rest, Ends rest → ∃ node,
    Lexed (number.text.toList ++ rest) (.scalar node) rest
      ∧ taking.node (number.text.toList ++ rest) node = Node.ofJson ((num number).mapDoubles f))

include hnumber

/-- A value that is written without blanks is a value of the grammar, its doubles replaced by what
their texts are taken for. -/
theorem value_compactChars {value : Json} (h : value.IsProper) : ∀ rest, Ends rest →
    ValueAs taking (value.compactChars ++ rest) (value.mapDoubles f) rest := by
  induction h with
  | null => exact fun rest _ => .scalar ⟨'n', _, rfl, rfl⟩ (taking.null _)
  | bool truth =>
    cases truth with
    | true => exact fun rest _ => .scalar ⟨'t', _, rfl, rfl⟩ (taking.bool _ _)
    | false => exact fun rest _ => .scalar ⟨'f', _, rfl, rfl⟩ (taking.bool _ _)
  | @num number proper =>
    intro rest hrest
    obtain ⟨node, hlexed, htaken⟩ := hnumber number proper rest hrest
    exact .scalar hlexed htaken
  | str text => exact fun rest _ => .text (Grammar.lexed_quoted text rest)
  | @arr items _ ih =>
    intro rest _
    rw [mapDoubles, mapDoublesItems_eq_map, compactChars, List.append_assoc, List.cons_append]
    rcases items with _ | ⟨item, items⟩
    · exact .emptyArr (.refl _)
    · exact .arr (items_compactItems (by simp [Ends]) (List.cons_ne_nil _ _) ih)
  | @obj members _ ih =>
    intro rest _
    rw [mapDoubles, mapDoublesMembers_eq_mapValues, compactChars, List.append_assoc,
      List.cons_append]
    rcases members with _ | ⟨member, members⟩
    · exact .emptyObj (.refl _)
    · exact .obj (members_compactMembers (by simp [Ends]) (List.cons_ne_nil _ _) ih)

/-- A value that is written on one line spells itself, its doubles replaced by what their texts are
taken for. -/
theorem spellsAs_compact {value : Json} (h : value.IsProper) :
    Grammar.SpellsAs taking value.compact (value.mapDoubles f) := by
  refine ⟨[], ?_, .refl []⟩
  rw [compact, String.toList_ofList, ← List.append_nil value.compactChars]
  exact value_compactChars hnumber h [] .nil

end

/-- **A value that is written on one line spells itself**, with its doubles worked out again. -/
theorem spells_compact {value : Json} (h : value.IsProper) :
    Grammar.Spells value.compact (value.mapDoubles Binary64.reread) := by
  refine spellsAs_compact (fun number proper rest hrest => ?_) h
  cases number with
  | integer n => exact ⟨_, Number.readsBack_integer proper rest hrest, rfl⟩
  | real x => exact ⟨_, (Binary64.lexed_reread proper).2 rest hrest, rfl⟩

/-- An object with a double that is missed spells the one before it. -/
theorem spells_missed (name : String) :
    Grammar.Spells (obj [(name, .num (.real ⟨0x3a1890c78092b4d4⟩))]).compact
      (.obj [(name, .num (.real ⟨0x3a1890c78092b4d3⟩))]) := by
  have hproper : (obj [(name, .num (.real ⟨0x3a1890c78092b4d4⟩))]).IsProper :=
    .obj (List.forall_mem_singleton.mpr (.num rfl))
  have hspells := spells_compact hproper
  rwa [mapDoubles, mapDoublesMembers, mapDoublesMembers, mapDoubles, Binary64.reread_missed]
    at hspells

/-- **A value that is written on one line spells itself**, its numbers held and rounded once. -/
theorem spellsAs_held_compact {value : Json} (h : value.IsProper) :
    Grammar.SpellsAs held value.compact value := by
  have hspells : Grammar.SpellsAs held value.compact (value.mapDoubles id) := by
    refine spellsAs_compact (fun number proper rest hrest => ?_) h
    cases number with
    | integer n =>
      have hlexed := Number.readsBack_integer proper rest hrest
      exact ⟨_, hlexed, proper.held_node hrest hlexed⟩
    | real x =>
      have hlexed := (Binary64.lexed_reread proper).2 rest hrest
      exact ⟨_, hlexed, proper.held_node hrest hlexed⟩
  rwa [mapDoubles_id] at hspells

end Json

end EntityQuery
