import EntityQuery.Proofs.Filter.Reading

/-!
# Proofs/Filter/Accepted — which values spell a filter

    group     := members `$_not`: boolean | field: clause     (no other key starts with `$_`)
    clause    := scalar | [ scalars ] | condition | group
    condition := `$_eq`: operand | `$_lk`: scalar | bounds, and `$_not`: boolean
    operand   := scalar | [ scalars ]

`Filter.Grammar` says this over generic values, in which repeated keys have been merged
(`Json.IsSettled`): an object is a scalar where it has a scalar's mark, else a condition where it
has an operator, else a group again.  `filter_accepted_iff` is the reader against the grammar, in
both directions and at every depth.
-/

namespace EntityQuery

/-! ## Generic values -/

namespace Json

mutual

/-- No key stands twice, at any depth, and integers have 64 bits. -/
def IsSettled : Json → Prop
  | .num (.integer value) => -Number.signedLimit ≤ value ∧ value < Number.unsignedLimit
  | .arr items => SettledItems items
  | .obj members => (Entries.names members).Nodup ∧ SettledMembers members
  | _ => True

/-- Items in which no key stands twice. -/
def SettledItems : List Json → Prop
  | [] => True
  | item :: rest => IsSettled item ∧ SettledItems rest

/-- Members in whose values no key stands twice. -/
def SettledMembers : List (String × Json) → Prop
  | [] => True
  | (_, value) :: rest => IsSettled value ∧ SettledMembers rest

end

mutual

/-- Merging changes nothing where no key stands twice. -/
theorem settle_of_isSettled : ∀ {value : Json}, value.IsSettled → value.settle = value
  | .null, _ | .bool _, _ | .num _, _ | .str _, _ => rfl
  | .arr _, h => congrArg Json.arr (settleItems_of_settled h)
  | .obj members, h => by
      rw [settle, settleMembers_of_settled h.2, Entries.ofList_of_nodup h.1]

theorem settleItems_of_settled : ∀ {items : List Json}, SettledItems items →
    settleItems items = items
  | [], _ => rfl
  | _ :: _, h => by rw [settleItems, settle_of_isSettled h.1, settleItems_of_settled h.2]

theorem settleMembers_of_settled : ∀ {members : List (String × Json)}, SettledMembers members →
    settleMembers members = members
  | [], _ => rfl
  | (_, _) :: _, h => by
      rw [settleMembers, settle_of_isSettled h.1, settleMembers_of_settled h.2]

end

theorem isSettled_of_mem_items {items : List Json} (h : SettledItems items) :
    ∀ item ∈ items, item.IsSettled := by
  induction items with
  | nil => exact nofun
  | cons item rest ih => exact List.forall_mem_cons.mpr ⟨h.1, ih h.2⟩

theorem isSettled_of_mem_members {members : List (String × Json)} (h : SettledMembers members) :
    ∀ member ∈ members, member.2.IsSettled := by
  induction members with
  | nil => exact nofun
  | cons member rest ih => exact List.forall_mem_cons.mpr ⟨h.1, ih h.2⟩

end Json

/-! ## The grammar -/

namespace Filter.Grammar

/-- An object that is a scalar: a date that can be read, or no text under the date and a reference
that is still to come.  All other keys are passed over. -/
def IsScalarObject (members : List (String × Json)) : Prop :=
  (∃ text, (Key.date, .str text) ∈ members ∧ (Instant.read text).isSome)
    ∨ ((∀ text, (Key.date, .str text) ∉ members)
      ∧ ∃ reference, (Key.pending, .str reference) ∈ members)

/-- A scalar: a literal, but no integer that needs the sixty-fourth bit, or a scalar object. -/
def IsScalar : Json → Prop
  | .null | .bool _ | .str _ | .num (.real _) => True
  | .num (.integer value) => ¬ (0x8000000000000000 ≤ value ∧ value ≤ 0xffffffffffffffff)
  | .obj members => IsScalarObject members
  | .arr _ => False

/-- An operand: a scalar or an array of scalars. -/
def IsOperand : Json → Prop
  | .arr items => ∀ item ∈ items, IsScalar item
  | value => IsScalar value

/-- An equality is given. -/
def HasEqual (members : List (String × Json)) : Prop :=
  Key.equal ∈ Entries.names members

/-- A pattern is given. -/
def HasLike (members : List (String × Json)) : Prop :=
  Key.like ∈ Entries.names members

/-- A bound is given that is not null. -/
def HasBound (members : List (String × Json)) : Prop :=
  ∃ member ∈ members, (member.1 = Key.greater ∨ member.1 = Key.lesser) ∧ member.2 ≠ .null

/-- The five keys of a condition, and what may stand under them. -/
inductive IsPart : String → Json → Prop
  | equal {value : Json} (h : IsOperand value) : IsPart Key.equal value
  | like {value : Json} (h : IsScalar value) : IsPart Key.like value
  | greater {value : Json} (h : IsScalar value) : IsPart Key.greater value
  | lesser {value : Json} (h : IsScalar value) : IsPart Key.lesser value
  | negation (negated : Bool) : IsPart Key.negation (.bool negated)

/-- A condition: only these keys, and operators of one family at most. -/
structure IsCondition (members : List (String × Json)) : Prop where
  parts : ∀ member ∈ members, IsPart member.1 member.2
  equal_or_like : ¬ (HasEqual members ∧ HasLike members)
  equal_or_bound : ¬ (HasEqual members ∧ HasBound members)
  like_or_bound : ¬ (HasLike members ∧ HasBound members)

mutual

/-- What may stand under a field.  An object is a scalar if it has a scalar's mark, else a condition
if it has an operator, and else a group. -/
def IsClause : Json → Prop
  | .arr items => ∀ item ∈ items, IsScalar item
  | .obj members =>
      if Key.date ∈ Entries.names members ∨ Key.pending ∈ Entries.names members then
        IsScalarObject members
      else if ∃ key ∈ [Key.equal, Key.like, Key.greater, Key.lesser],
          key ∈ Entries.names members then
        IsCondition members
      else IsGroup members
  | value => IsScalar value

/-- A group: a boolean under `$_not`, no other key that starts with `$_`, and clauses. -/
def IsGroup : List (String × Json) → Prop
  | [] => True
  | (key, value) :: rest =>
      (if key = Key.negation then ∃ negated, value = .bool negated
        else ¬ ['$', '_'] <+: key.toList ∧ IsClause value)
      ∧ IsGroup rest

end

end Filter.Grammar

open Filter.Grammar

/-! ## Scalars and operands -/

/-- An object without repeated keys is read as a scalar if it has the form of one. -/
theorem Scalar.exists_ofJson_obj_eq_ok {members : List (String × Json)}
    (h : (Entries.names members).Nodup) :
    (∃ scalar, ofJson (.obj members) = .ok scalar) ↔ IsScalarObject members := by
  have htext : ∀ {key text}, textUnder? key members = some text ↔ (key, .str text) ∈ members :=
    fun {key text} => (textUnder?_eq_some h).trans (Entries.get?_eq_some h)
  rw [ofJson, IsScalarObject]
  cases hdate : textUnder? Key.date members with
  | some text =>
    have hmem := htext.mp hdate
    have hunique : ∀ other, (Key.date, Json.str other) ∈ members → other = text := by
      intro other hother
      exact (Option.some.inj (hdate.symm.trans (htext.mpr hother))).symm
    change (∃ scalar, ofDateText text = .ok scalar) ↔ _
    rw [ofDateText]
    constructor
    · intro hread
      refine .inl ⟨text, hmem, ?_⟩
      cases hinstant : Instant.read text with
      | some _ => rfl
      | none =>
        rw [hinstant] at hread
        exact nomatch hread
    · rintro (⟨other, hother, hread⟩ | ⟨hnone, -⟩)
      · rw [hunique other hother] at hread
        obtain ⟨value, hvalue⟩ := Option.isSome_iff_exists.mp hread
        exact ⟨.instant value, by rw [hvalue]⟩
      · exact absurd hmem (hnone text)
  | none =>
    have hnone : ∀ text, (Key.date, Json.str text) ∉ members := by
      intro text hmem
      exact nomatch hdate.symm.trans (htext.mpr hmem)
    cases hpending : textUnder? Key.pending members with
    | some reference =>
      exact ⟨fun _ => .inr ⟨hnone, reference, htext.mp hpending⟩, fun _ => ⟨_, rfl⟩⟩
    | none =>
      refine ⟨nofun, ?_⟩
      rintro (⟨text, hmem, -⟩ | ⟨-, reference, hmem⟩)
      · exact absurd hmem (hnone text)
      · exact nomatch hpending.symm.trans (htext.mpr hmem)

/-- A scalar is read exactly where one is spelled. -/
theorem Scalar.exists_ofJson_eq_ok {value : Json} (h : value.IsSettled) :
    (∃ scalar, ofJson value = .ok scalar) ↔ IsScalar value := by
  match value, h with
  | .null, _ | .bool _, _ | .str _, _ | .num (.real _), _ =>
    exact ⟨fun _ => trivial, fun _ => ⟨_, rfl⟩⟩
  | .arr _, _ => exact ⟨nofun, nofun⟩
  | .obj members, h => exact exists_ofJson_obj_eq_ok h.1
  | .num (.integer value), h =>
    have hlimit : value < Number.unsignedLimit := h.2
    rw [ofJson, IsScalar]
    unfold Number.unsignedLimit at hlimit
    unfold Number.signedLimit
    split
    · exact ⟨fun _ => by omega, fun _ => ⟨_, rfl⟩⟩
    · exact ⟨nofun, fun hfits => absurd (by omega) hfits⟩

/-- Items are read as scalars if each is one. -/
theorem Scalar.exists_mapM_ofJson_eq_ok {items : List Json} (h : Json.SettledItems items) :
    (∃ scalars, items.mapM ofJson = .ok scalars) ↔ ∀ item ∈ items, IsScalar item := by
  rw [Except.exists_mapM_eq_ok]
  exact forall₂_congr fun item hitem =>
    exists_ofJson_eq_ok (Json.isSettled_of_mem_items h item hitem)

/-- An operand is read exactly where one is spelled. -/
theorem Operand.exists_ofJson_eq_ok {value : Json} (h : value.IsSettled) :
    (∃ operand, ofJson value = .ok operand) ↔ IsOperand value := by
  simp only [ofJson, Except.mapError_eq_ok]
  cases value with
  | arr items => exact Except.exists_map_eq_ok.trans (Scalar.exists_mapM_ofJson_eq_ok h)
  | _ => exact Except.exists_map_eq_ok.trans (Scalar.exists_ofJson_eq_ok h)

/-! ## Conditions -/

namespace Condition

/-- A bound is read if it is a scalar, null included. -/
theorem exists_boundOf_eq_ok {value : Json} (h : value.IsSettled) :
    (∃ bound, boundOf value = .ok bound) ↔ IsScalar value := by
  by_cases hnull : value = .null
  · subst hnull
    exact ⟨fun _ => trivial, fun _ => ⟨none, rfl⟩⟩
  · rw [boundOf_of_ne_null hnull]
    exact Except.exists_map_eq_ok.trans (Scalar.exists_ofJson_eq_ok h)

/-- The bound that is read is there unless it is null. -/
theorem isSome_of_boundOf {value : Json} {bound : Option Scalar} (h : boundOf value = .ok bound) :
    bound.isSome ↔ value ≠ .null := by
  by_cases hnull : value = .null
  · subst hnull
    obtain rfl := Except.ok.inj h
    exact ⟨nofun, fun hnull => absurd rfl hnull⟩
  · rw [boundOf_of_ne_null hnull] at h
    obtain ⟨scalar, -, rfl⟩ := Except.map_eq_ok.mp h
    exact ⟨fun _ => hnull, fun _ => rfl⟩

/-- A key is read exactly where what stands under it is a part of a condition. -/
theorem exists_update_eq_ok {key : String} {value : Json} (h : value.IsSettled) :
    (∃ change, record.update (key, value) = .ok change) ↔ IsPart key value := by
  constructor
  · rintro ⟨change, hchange⟩
    rcases update_eq_ok.mp hchange with ⟨rfl, _, hread, -⟩ | ⟨rfl, _, hread, -⟩
      | ⟨rfl, _, hread, -⟩ | ⟨rfl, _, hread, -⟩ | ⟨rfl, negated, rfl, -⟩
    · exact .equal ((Operand.exists_ofJson_eq_ok h).mp ⟨_, hread⟩)
    · exact .like ((Scalar.exists_ofJson_eq_ok h).mp ⟨_, hread⟩)
    · exact .greater ((exists_boundOf_eq_ok h).mp ⟨_, hread⟩)
    · exact .lesser ((exists_boundOf_eq_ok h).mp ⟨_, hread⟩)
    · exact .negation negated
  · intro hpart
    simp only [update_eq_ok]
    cases hpart with
    | equal hoperand =>
      obtain ⟨operand, hread⟩ := (Operand.exists_ofJson_eq_ok h).mpr hoperand
      exact ⟨_, .inl ⟨rfl, operand, hread, rfl⟩⟩
    | like hscalar =>
      obtain ⟨pattern, hread⟩ := (Scalar.exists_ofJson_eq_ok h).mpr hscalar
      exact ⟨_, .inr (.inl ⟨rfl, pattern, hread, rfl⟩)⟩
    | greater hscalar =>
      obtain ⟨above, hread⟩ := (exists_boundOf_eq_ok h).mpr hscalar
      exact ⟨_, .inr (.inr (.inl ⟨rfl, above, hread, rfl⟩))⟩
    | lesser hscalar =>
      obtain ⟨below, hread⟩ := (exists_boundOf_eq_ok h).mpr hscalar
      exact ⟨_, .inr (.inr (.inr (.inl ⟨rfl, below, hread, rfl⟩)))⟩
    | negation negated => exact ⟨_, .inr (.inr (.inr (.inr ⟨rfl, negated, rfl, rfl⟩)))⟩

/-- Operators of two families exclude one another. -/
theorem Parts.exists_condition_eq_ok {parts : Parts} :
    (∃ condition, parts.condition = .ok condition) ↔
      ¬ (parts.operand.isSome ∧ parts.pattern.isSome) ∧ ¬ (parts.operand.isSome ∧ parts.isRange)
        ∧ ¬ (parts.pattern.isSome ∧ parts.isRange) := by
  rw [Parts.condition]
  cases parts.operand <;> cases parts.pattern <;> cases parts.isRange <;> simp

/-- Something is said where a member of the key says something. -/
theorem isSome_said {α : Type} {members : List (String × Json)}
    (h : (Entries.names members).Nodup) {key : String} {meaning : Json → Option α} :
    (Record.said members key meaning none).isSome ↔
      ∃ value, (key, value) ∈ members ∧ (meaning value).isSome := by
  rw [Record.said]
  simp only [← Entries.get?_eq_some h]
  cases Entries.get? members key <;> simp

section

variable {members : List (String × Json)} (hnodup : (Entries.names members).Nodup)
  (hread : ∀ member ∈ members, ∃ change, record.update member = .ok change)

include hnodup hread

omit hread in
/-- What is read wherever it stands is there if its key is. -/
theorem isSome_said_toOption {α : Type} (key : String) {read : Json → Except Complaint α}
    (hkey : ∀ value, (key, value) ∈ members → ∃ a, read value = .ok a) :
    (Record.said members key (fun value => (read value).toOption) none).isSome
      ↔ key ∈ Entries.names members := by
  rw [isSome_said hnodup, Entries.names, List.mem_map]
  constructor
  · rintro ⟨value, hmem, -⟩
    exact ⟨_, hmem, rfl⟩
  · rintro ⟨⟨_, value⟩, hmem, rfl⟩
    obtain ⟨a, ha⟩ := hkey value hmem
    exact ⟨value, hmem, by rw [ha]; rfl⟩

theorem isSome_operand : (Parts.ofMembers {} members).operand.isSome ↔ HasEqual members :=
  isSome_said_toOption hnodup Key.equal fun value hmem =>
    Except.exists_map_eq_ok.mp (update_equal value ▸ hread _ hmem)

theorem isSome_pattern : (Parts.ofMembers {} members).pattern.isSome ↔ HasLike members :=
  isSome_said_toOption hnodup Key.like fun value hmem =>
    Except.exists_map_eq_ok.mp (update_like value ▸ hread _ hmem)

omit hread in
/-- A bound that is read is said unless it is null. -/
theorem isSome_bound (key : String)
    (hkey : ∀ value, (key, value) ∈ members → ∃ bound, boundOf value = .ok bound) :
    (Record.said members key (fun value => (boundOf value).toOption.join) none).isSome ↔
      ∃ value, (key, value) ∈ members ∧ value ≠ .null := by
  rw [isSome_said hnodup]
  refine exists_congr fun value => and_congr_right fun hmem => ?_
  obtain ⟨bound, hbound⟩ := hkey value hmem
  rw [← isSome_of_boundOf hbound, hbound]
  rfl

/-- The parts of a condition are those of a range if a bound is named. -/
theorem isRange_iff : (Parts.ofMembers {} members).isRange ↔ HasBound members := by
  have habove := isSome_bound hnodup Key.greater fun value hmem =>
    Except.exists_map_eq_ok.mp (update_greater value ▸ hread _ hmem)
  have hbelow := isSome_bound hnodup Key.lesser fun value hmem =>
    Except.exists_map_eq_ok.mp (update_lesser value ▸ hread _ hmem)
  rw [Parts.isRange, Bool.or_eq_true]
  refine (or_congr habove hbelow).trans ?_
  rw [HasBound]
  constructor
  · rintro (⟨value, hmem, hnull⟩ | ⟨value, hmem, hnull⟩)
    · exact ⟨_, hmem, .inl rfl, hnull⟩
    · exact ⟨_, hmem, .inr rfl, hnull⟩
  · rintro ⟨⟨_, value⟩, hmem, rfl | rfl, hnull⟩
    · exact .inl ⟨value, hmem, hnull⟩
    · exact .inr ⟨value, hmem, hnull⟩

end

/-- **A condition is read exactly where one is spelled.** -/
theorem exists_ofNode_eq_ok {source : Source} {members : List (String × Json)}
    (hnodup : (Entries.names members).Nodup) (hsettled : Json.SettledMembers members) :
    (∃ condition, ofNode source (Node.ofJson (.obj members)) = .ok condition)
      ↔ IsCondition members := by
  have hparts : (∀ member ∈ members, ∃ change, record.update member = .ok change)
      ↔ ∀ member ∈ members, IsPart member.1 member.2 :=
    forall₂_congr fun member hmem =>
      exists_update_eq_ok (Json.isSettled_of_mem_members hsettled member hmem)
  simp only [ofNode_eq_ok hnodup, exists_and_left, Parts.exists_condition_eq_ok]
  constructor
  · rintro ⟨hread, hlike, hbound, hboth⟩
    rw [isSome_operand hnodup hread, isSome_pattern hnodup hread] at hlike
    rw [isSome_operand hnodup hread, isRange_iff hnodup hread] at hbound
    rw [isSome_pattern hnodup hread, isRange_iff hnodup hread] at hboth
    exact ⟨hparts.mp hread, hlike, hbound, hboth⟩
  · rintro ⟨hmembers, hlike, hbound, hboth⟩
    have hread := hparts.mpr hmembers
    rw [isSome_operand hnodup hread, isSome_pattern hnodup hread, isRange_iff hnodup hread]
    exact ⟨hread, hlike, hbound, hboth⟩

end Condition

/-! ## Clauses and groups -/

/-- A key is free if it does not start with `$_`. -/
theorem Key.isReserved_eq_false {key : String} :
    isReserved key = false ↔ ¬ ['$', '_'] <+: key.toList := by
  rw [List.prefix_iff_eq_take, isReserved, beq_eq_false_iff_ne, ne_comm]
  rfl

/-- An object spells an instant or a value that is still to come, if a scalar at all. -/
theorem Scalar.ofJson_obj_ne_bool {members : List (String × Json)} {value : Bool} :
    ofJson (.obj members) ≠ .ok (.bool value) := by
  rw [ofJson]
  cases textUnder? Key.date members with
  | some text =>
    change ofDateText text ≠ _
    rw [ofDateText]
    cases Instant.read text <;> exact nofun
  | none => cases textUnder? Key.pending members <;> exact nofun

namespace Clause

/-- Only a boolean is read as a boolean. -/
theorem ofJson_eq_bool {json : Json} {negated : Bool} :
    ofJson json = .ok (.value (.bool negated)) ↔ json = .bool negated := by
  refine ⟨fun h => ?_, fun h => h ▸ rfl⟩
  cases json with
  | null | str _ => cases h
  | bool other =>
    obtain rfl := Scalar.bool.inj (Clause.value.inj (Except.ok.inj h))
    rfl
  | num number =>
    obtain ⟨scalar, hread, hbool⟩ := Except.map_eq_ok.mp h
    obtain rfl := Clause.value.inj hbool
    cases number with
    | real => cases hread
    | integer =>
      rw [Scalar.ofJson] at hread
      split at hread <;> cases hread
  | arr items =>
    obtain ⟨scalars, -, hbool⟩ := Except.map_eq_ok.mp h
    cases hbool
  | obj members =>
    rw [ofJson] at h
    split at h
    · obtain ⟨scalar, hread, hbool⟩ := Except.map_eq_ok.mp h
      obtain rfl := Clause.value.inj hbool
      exact absurd hread Scalar.ofJson_obj_ne_bool
    · split at h
      · obtain ⟨condition, -, hbool⟩ := Except.map_eq_ok.mp h
        cases hbool
      · obtain ⟨entries, -, h⟩ := Except.bind_eq_ok.mp h
        obtain ⟨filter, -, h⟩ := Except.bind_eq_ok.mp h
        cases h

/-- What may stand under a key, read off its value. -/
theorem exists_admits_iff {key : String} {json : Json} :
    (∃ clause, ofJson json = .ok clause ∧ Filter.Admits key clause) ↔
      if key = Key.negation then ∃ negated, json = .bool negated
      else ¬ ['$', '_'] <+: key.toList ∧ ∃ clause, ofJson json = .ok clause := by
  unfold Filter.Admits
  split
  · constructor
    · rintro ⟨_, hread, negated, rfl⟩
      exact ⟨negated, ofJson_eq_bool.mp hread⟩
    · rintro ⟨negated, rfl⟩
      exact ⟨_, rfl, negated, rfl⟩
  · rw [Key.isReserved_eq_false, exists_and_right, and_comm]

mutual

/-- A clause is read exactly where one is spelled. -/
theorem exists_ofJson_eq_ok : ∀ {json : Json}, json.IsSettled →
    ((∃ clause, ofJson json = .ok clause) ↔ IsClause json)
  | .null, h | .bool _, h | .num _, h | .str _, h =>
      Except.exists_map_eq_ok.trans (Scalar.exists_ofJson_eq_ok h)
  | .arr _, h => Except.exists_map_eq_ok.trans (Scalar.exists_mapM_ofJson_eq_ok h)
  | .obj members, h => by
      have hgroup := exists_ofMembers_eq_ok h.2
      rw [IsClause]
      by_cases hscalar : Key.marksScalar members = true
      · rw [ofJson, if_pos hscalar, if_pos (Key.marksScalar_iff.mp hscalar)]
        exact Except.exists_map_eq_ok.trans (Scalar.exists_ofJson_obj_eq_ok h.1)
      · rw [if_neg (mt Key.marksScalar_iff.mpr hscalar)]
        by_cases hcondition : Condition.isMarked members = true
        · rw [ofJson, if_neg hscalar, if_pos hcondition,
            if_pos (Condition.isMarked_iff.mp hcondition)]
          exact Except.exists_map_eq_ok.trans (Condition.exists_ofNode_eq_ok h.1 h.2)
        · rw [ofJson_group hscalar hcondition, if_neg (mt Condition.isMarked_iff.mpr hcondition)]
          exact Except.exists_map_eq_ok.trans hgroup

/-- A group is read exactly where one is spelled. -/
theorem exists_ofMembers_eq_ok : ∀ {members : List (String × Json)},
    Json.SettledMembers members →
    ((∃ filter, Filter.ofMembers members = .ok filter) ↔ IsGroup members)
  | [], _ => ⟨fun _ => trivial, fun _ => ⟨.empty, rfl⟩⟩
  | (key, json) :: rest, h => by
      have hrest := exists_ofMembers_eq_ok h.2
      have hclause := exists_ofJson_eq_ok h.1
      rw [Filter.exists_ofMembers_eq_ok] at hrest ⊢
      rw [List.forall_mem_cons, hrest, exists_admits_iff, hclause, IsGroup]

end

end Clause

/-- A settled object is read without anything to merge. -/
theorem Filter.ofNode_of_isSettled {members : List (String × Json)}
    (h : (Json.obj members).IsSettled) :
    ofNode (Node.ofJson (.obj members)) = ofMembers members := by
  rw [ofNode_ofJson, Json.settleMembers_of_settled h.2, ofMembers]
  cases hentries : Clause.ofMembers members with
  | error => rfl
  | ok entries =>
    have hnodup : (Entries.names entries).Nodup := Clause.names_of_ofMembers hentries ▸ h.1
    change ofEntries (Entries.ofList entries) = ofEntries entries
    rw [Entries.ofList_of_nodup hnodup]

/-- **The reader of filters accepts exactly its grammar.** -/
theorem filter_accepted_iff {members : List (String × Json)}
    (h : (Json.obj members).IsSettled) :
    (∃ filter, Filter.ofNode (Node.ofJson (.obj members)) = .ok filter) ↔ IsGroup members := by
  rw [Filter.ofNode_of_isSettled h]
  exact Clause.exists_ofMembers_eq_ok h.2

/-- A null bound beside a pattern; a date that is marked as still to come, too, but not by a text;
and a group with nothing in it but its negation. -/
def leapDay : List (String × Json) :=
  [(Key.negation, .bool true),
    ("name", .obj [(Key.like, .str "A%"), (Key.greater, .null), (Key.negation, .bool true)]),
    ("since",
      .obj [(Key.greater, .obj [(Key.pending, .bool true), (Key.date, .str "2020-02-29")])]),
    ("vehicles", .obj [(Key.negation, .bool false)])]

/-- It is read as a filter. -/
theorem leapDay_accepted : (Json.obj leapDay).IsSettled
    ∧ ∃ filter, Filter.ofNode (Node.ofJson (.obj leapDay)) = .ok filter := by
  have hsettled : (Json.obj leapDay).IsSettled := by
    simp [leapDay, Json.IsSettled, Json.SettledMembers, Key.negation, Key.like, Key.greater,
      Key.pending, Key.date]
  have hname : IsCondition
      [(Key.like, .str "A%"), (Key.greater, .null), (Key.negation, .bool true)] := by
    refine ⟨List.forall_mem_cons.mpr ⟨.like trivial, List.forall_mem_cons.mpr ⟨.greater trivial,
      List.forall_mem_singleton.mpr (.negation true)⟩⟩, ?_, ?_, ?_⟩ <;>
    simp [HasEqual, HasLike, HasBound, Key.equal, Key.like, Key.greater, Key.lesser, Key.negation]
  have hdate : IsScalarObject [(Key.pending, .bool true), (Key.date, .str "2020-02-29")] :=
    .inl ⟨"2020-02-29", by simp, by decide +kernel⟩
  have hsince : IsCondition
      [(Key.greater, .obj [(Key.pending, .bool true), (Key.date, .str "2020-02-29")])] := by
    refine ⟨List.forall_mem_singleton.mpr (.greater hdate), ?_, ?_, ?_⟩ <;>
    simp [HasEqual, HasLike, Key.equal, Key.like, Key.greater]
  have hgroup : IsGroup leapDay :=
    ⟨⟨true, rfl⟩, ⟨by decide, hname⟩, ⟨by decide, hsince⟩,
      ⟨by decide, ⟨⟨false, rfl⟩, trivial⟩⟩, trivial⟩
  exact ⟨hsettled, (filter_accepted_iff hsettled).mpr hgroup⟩

end EntityQuery
