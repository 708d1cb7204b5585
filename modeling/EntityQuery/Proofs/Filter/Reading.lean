import EntityQuery.Filter.Reader
import EntityQuery.Proofs.Reading.Record

/-!
# Proofs/Filter/Reading — scalars, conditions and groups read off values

A value without faults is read by what it is alone, so reading off its tree is reading the value
(`Scalar.ofNode_ofJson`, `Operand.ofNode_ofJson`).  The keys of a condition are read one by one
(`Condition.update_eq_ok` has what each of the five means), and what they say together can be looked
up: `Condition.ofNode_eq_ok` gives the condition in terms of `Parts.ofMembers`, which knows nothing
of their order.  A group of clauses is read if every key may stand there
(`Filter.exists_ofEntries_eq_ok`).
-/

namespace EntityQuery

/-! ## Scalars -/

theorem Scalar.ofNode_ofJson (value : Json) : Scalar.ofNode (Node.ofJson value) = ofJson value := by
  rw [Scalar.ofNode, Reader.read]
  change (Node.faulty (Node.ofJson value).content).bind ofJson = _
  rw [Node.content_ofJson]
  rfl

theorem Operand.ofNode_ofJson (value : Json) :
    Operand.ofNode (Node.ofJson value) = ofJson value := by
  rw [Operand.ofNode, Reader.read]
  change (Node.faulty (Node.ofJson value).content).bind ofJson = _
  rw [Node.content_ofJson]
  rfl

/-- Where no key is repeated, the text under a key is what is found there. -/
theorem Scalar.textUnder?_eq_some {members : List (String × Json)}
    (h : (Entries.names members).Nodup) {key text : String} :
    textUnder? key members = some text ↔ Entries.get? members key = some (.str text) := by
  rw [textUnder?, Entries.filter_name h]
  cases Entries.get? members key with
  | none => exact ⟨nofun, nofun⟩
  | some value => cases value <;> simp

/-! ## Conditions -/

namespace Condition

/-- The bound that a value spells: a scalar, or none for `null`. -/
def boundOf : Json → Except Complaint (Option Scalar)
  | .null => .ok none
  | value => (Scalar.ofJson value).map some

/-- A bound that is not null is a scalar. -/
theorem boundOf_of_ne_null {value : Json} (h : value ≠ .null) :
    boundOf value = (Scalar.ofJson value).map some := by
  cases value with
  | null => exact absurd rfl h
  | _ => rfl

theorem readOption_ofJson (value : Json) :
    Node.readOption Scalar.ofNode (Node.ofJson value) = boundOf value := by
  have hsome : (Scalar.ofNode (Node.ofJson value)).map some = (Scalar.ofJson value).map some := by
    rw [Scalar.ofNode_ofJson]
  cases value with
  | null => rfl
  | _ => exact hsome

/-- The keys that a condition may have. -/
def keys : List String :=
  [Key.equal, Key.like, Key.greater, Key.lesser, Key.negation]

/-- An operator that is not known is refused by its name. -/
theorem update_of_not_mem {key : String} (h : key ∉ keys) (value : Json) :
    record.update (key, value) = .error (.unknownField key keys) := by
  have hfield : record.field? key = none := by
    refine List.find?_eq_none.mpr fun field hfield hname => h ?_
    rw [← beq_iff_eq.mp hname]
    exact List.mem_map_of_mem hfield
  rw [Record.update, hfield]
  rfl

section

variable (value : Json)

theorem update_equal : record.update (Key.equal, value) = (Operand.ofJson value).map
    fun operand parts => { parts with operand := some operand } := by
  rw [← Operand.ofNode_ofJson]
  rfl

theorem update_like : record.update (Key.like, value) = (Scalar.ofJson value).map
    fun pattern parts => { parts with pattern := some pattern } := by
  rw [← Scalar.ofNode_ofJson]
  rfl

/-- A lower bound is read, or left out if it is null. -/
theorem update_greater : record.update (Key.greater, value) = (boundOf value).map
    fun above parts => { parts with above } := by
  rw [← readOption_ofJson]
  rfl

/-- An upper bound is read, or left out if it is null. -/
theorem update_lesser : record.update (Key.lesser, value) = (boundOf value).map
    fun below parts => { parts with below } := by
  rw [← readOption_ofJson]
  rfl

end

/-- **What a key of a condition says.** -/
theorem update_eq_ok {key : String} {value : Json} {change : Parts → Parts} :
    record.update (key, value) = .ok change ↔
      (key = Key.equal ∧ ∃ operand, Operand.ofJson value = .ok operand
        ∧ (fun parts => { parts with operand := some operand }) = change)
      ∨ (key = Key.like ∧ ∃ pattern, Scalar.ofJson value = .ok pattern
        ∧ (fun parts => { parts with pattern := some pattern }) = change)
      ∨ (key = Key.greater ∧ ∃ above, boundOf value = .ok above
        ∧ (fun parts => { parts with above }) = change)
      ∨ (key = Key.lesser ∧ ∃ below, boundOf value = .ok below
        ∧ (fun parts => { parts with below }) = change)
      ∨ (key = Key.negation ∧ ∃ negated, value = .bool negated
        ∧ (fun parts => { parts with negated }) = change) := by
  constructor
  · intro h
    by_cases hkey : key ∈ keys
    · simp only [keys, List.mem_cons, List.not_mem_nil, or_false] at hkey
      rcases hkey with rfl | rfl | rfl | rfl | rfl
      · exact .inl ⟨rfl, Except.map_eq_ok.mp ((update_equal value).symm.trans h)⟩
      · exact .inr (.inl ⟨rfl, Except.map_eq_ok.mp ((update_like value).symm.trans h)⟩)
      · exact .inr (.inr (.inl ⟨rfl, Except.map_eq_ok.mp ((update_greater value).symm.trans h)⟩))
      · exact .inr (.inr (.inr (.inl
          ⟨rfl, Except.map_eq_ok.mp ((update_lesser value).symm.trans h)⟩)))
      · refine .inr (.inr (.inr (.inr ⟨rfl, ?_⟩)))
        cases value with
        | bool negated => exact ⟨negated, rfl, Except.ok.inj h⟩
        | _ => exact nomatch h
    · rw [update_of_not_mem hkey] at h
      exact nomatch h
  · rintro (⟨rfl, h⟩ | ⟨rfl, h⟩ | ⟨rfl, h⟩ | ⟨rfl, h⟩ | ⟨rfl, negated, rfl, rfl⟩)
    · exact (update_equal value).trans (Except.map_eq_ok.mpr h)
    · exact (update_like value).trans (Except.map_eq_ok.mpr h)
    · exact (update_greater value).trans (Except.map_eq_ok.mpr h)
    · exact (update_lesser value).trans (Except.map_eq_ok.mpr h)
    · rfl

/-- The negation that a value spells. -/
def negationOf : Json → Bool
  | .bool negated => negated
  | _ => false

/-- What the members of an object say together, wherever they stand, and `start` without them. -/
def Parts.ofMembers (start : Parts) (members : List (String × Json)) : Parts where
  operand := Record.said members Key.equal (fun value => (Operand.ofJson value).toOption)
    start.operand
  pattern := Record.said members Key.like (fun value => (Scalar.ofJson value).toOption)
    start.pattern
  above := Record.said members Key.greater (fun value => (boundOf value).toOption.join) start.above
  below := Record.said members Key.lesser (fun value => (boundOf value).toOption.join) start.below
  negated := Record.said members Key.negation negationOf start.negated

/-- Every key has a part of its own, so their order does not matter. -/
theorem applyAll_eq_ofMembers : ∀ {members : List (String × Json)} {updates : List (Parts → Parts)}
    (start : Parts), (Entries.names members).Nodup → members.mapM record.update = .ok updates →
      Record.applyAll updates start = Parts.ofMembers start members
  | [], _, _, _, h => by
      obtain rfl := Except.ok.inj h
      rfl
  | (key, value) :: rest, _, start, hnodup, h => by
      obtain ⟨hnew, hrest⟩ := List.nodup_cons.mp hnodup
      rw [Except.mapM_cons] at h
      obtain ⟨change, hchange, h⟩ := Except.bind_eq_ok.mp h
      obtain ⟨later, hlater, rfl⟩ := Except.map_eq_ok.mp h
      refine (applyAll_eq_ofMembers (change start) hrest hlater).trans ?_
      simp only [Parts.ofMembers, Record.said_cons hnew]
      rcases update_eq_ok.mp hchange with ⟨rfl, _, hread, rfl⟩ | ⟨rfl, _, hread, rfl⟩
        | ⟨rfl, _, hread, rfl⟩ | ⟨rfl, _, hread, rfl⟩ | ⟨rfl, _, hread, rfl⟩ <;>
      simp [hread, negationOf, Key.equal, Key.like, Key.greater, Key.lesser, Key.negation,
        Except.toOption]

/-- **A condition is read if its keys are**, and is the one that they make up. -/
theorem ofNode_eq_ok {source : Source} {members : List (String × Json)}
    (h : (Entries.names members).Nodup) {condition : Condition} :
    ofNode source (Node.ofJson (.obj members)) = .ok condition ↔
      (∀ member ∈ members, ∃ change, record.update member = .ok change)
        ∧ (Parts.ofMembers {} members).condition = .ok condition := by
  have hmissing : record.missing? (Entries.names members) = none := by
    simp [Record.missing?, record]
  rw [ofNode, Reader.read]
  change (record.read source {} (Node.ofJson (.obj members)) >>= Parts.condition) = _ ↔ _
  rw [record.read_ofJson source {} h, hmissing, ← Except.exists_mapM_eq_ok]
  constructor
  · intro hread
    obtain ⟨parts, hparts, hcondition⟩ := Except.bind_eq_ok.mp hread
    obtain ⟨updates, hupdates, hparts⟩ := Except.bind_eq_ok.mp hparts
    obtain rfl := Except.ok.inj hparts
    rw [applyAll_eq_ofMembers {} h hupdates] at hcondition
    exact ⟨⟨updates, hupdates⟩, hcondition⟩
  · rintro ⟨⟨updates, hupdates⟩, hcondition⟩
    rw [← applyAll_eq_ofMembers {} h hupdates] at hcondition
    rw [hupdates]
    exact hcondition

end Condition

/-! ## Marks -/

theorem Key.isIn_iff {α : Type} {key : String} {members : List (String × α)} :
    isIn key members = true ↔ key ∈ Entries.names members := by
  simp [isIn, Entries.names]

theorem Key.marksScalar_iff {α : Type} {members : List (String × α)} :
    marksScalar members = true
      ↔ date ∈ Entries.names members ∨ pending ∈ Entries.names members := by
  rw [marksScalar, Bool.or_eq_true, isIn_iff, isIn_iff]

/-- An object is read as a condition if one of its operators is there. -/
theorem Condition.isMarked_iff {α : Type} {members : List (String × α)} :
    isMarked members = true ↔ ∃ key ∈ [Key.equal, Key.like, Key.greater, Key.lesser],
      key ∈ Entries.names members := by
  rw [isMarked, List.any_eq_true]
  simp only [Key.isIn_iff]

/-! ## Groups of clauses -/

theorem Clause.ofNode_ofJson (value : Json) :
    Clause.ofNode (Node.ofJson value) = ofJson value.settle := by
  rw [Clause.ofNode, Reader.read]
  change (Node.faulty (Node.ofJson value).value).bind ofJson = _
  rw [Node.value_ofJson]
  rfl

/-- Members are read one after the other, as far as the first that is refused. -/
theorem Clause.ofMembers_eq_mapM (members : List (String × Json)) :
    Clause.ofMembers members
      = members.mapM fun member => (ofJson member.2).map (Prod.mk member.1) := by
  induction members with
  | nil => rfl
  | cons member rest ih =>
    rw [ofMembers, ih, Except.mapM_cons]
    cases ofJson member.2 with
    | error => rfl
    | ok clause =>
      cases rest.mapM fun member => (ofJson member.2).map (Prod.mk member.1) <;> rfl

/-- Members spell clauses, one each, under their own keys. -/
theorem Clause.ofMembers_eq_ok_iff {members : List (String × Json)} {entries : Entries Clause} :
    Clause.ofMembers members = .ok entries
      ↔ Entries.Related (fun json clause => ofJson json = .ok clause) members entries := by
  have hmember : ∀ (member : String × Json) (entry : String × Clause),
      (ofJson member.2).map (Prod.mk member.1) = .ok entry
        ↔ member.1 = entry.1 ∧ ofJson member.2 = .ok entry.2 := by
    intro member entry
    rw [Except.map_eq_ok]
    constructor
    · rintro ⟨clause, hclause, rfl⟩
      exact ⟨rfl, hclause⟩
    · rintro ⟨hname, hclause⟩
      exact ⟨entry.2, hclause, Prod.ext hname rfl⟩
  rw [ofMembers_eq_mapM, Except.mapM_eq_ok_iff]
  simp only [hmember]

/-- Clauses stand under the keys of their members. -/
theorem Clause.names_of_ofMembers {members : List (String × Json)} {entries : Entries Clause}
    (h : Clause.ofMembers members = .ok entries) : entries.names = Entries.names members :=
  (ofMembers_eq_ok_iff.mp h).names.symm

namespace Filter

/-- A clause may stand under a key: a boolean under `$_not`, and any clause under a key that is not
reserved. -/
def Admits (key : String) (clause : Clause) : Prop :=
  if key = Key.negation then ∃ negated, clause = .value (.bool negated)
  else Key.isReserved key = false

/-- An entry is taken exactly if its key admits what it holds. -/
theorem exists_addEntry_eq_ok {filter : Filter} {key : String} {clause : Clause} :
    (∃ next, filter.addEntry key clause = .ok next) ↔ Admits key clause := by
  unfold addEntry Admits
  split
  · split
    · rename_i negated
      exact ⟨fun _ => ⟨negated, rfl⟩, fun _ => ⟨_, rfl⟩⟩
    · rename_i hother
      exact ⟨nofun, fun ⟨negated, h⟩ => absurd h (hother negated)⟩
  · cases Key.isReserved key with
    | true => exact ⟨nofun, nofun⟩
    | false => exact ⟨fun _ => rfl, fun _ => ⟨_, rfl⟩⟩

/-- **A group is read if each of its clauses may stand under its key.** -/
theorem exists_ofEntries_eq_ok {entries : Entries Clause} :
    (∃ filter, ofEntries entries = .ok filter) ↔ ∀ entry ∈ entries, Admits entry.1 entry.2 := by
  have hfrom : ∀ start : Filter, (∃ filter,
      entries.foldlM (fun filter entry => filter.addEntry entry.1 entry.2) start = .ok filter)
        ↔ ∀ entry ∈ entries, Admits entry.1 entry.2 := by
    induction entries with
    | nil => exact fun start => ⟨fun _ => nofun, fun _ => ⟨start, rfl⟩⟩
    | cons entry rest ih =>
      intro start
      simp only [List.foldlM_cons, List.forall_mem_cons, Except.bind_eq_ok]
      constructor
      · rintro ⟨filter, next, hnext, hfilter⟩
        exact ⟨exists_addEntry_eq_ok.mp ⟨next, hnext⟩, (ih next).mp ⟨filter, hfilter⟩⟩
      · rintro ⟨hentry, hrest⟩
        obtain ⟨next, hnext⟩ := exists_addEntry_eq_ok.mpr hentry
        obtain ⟨filter, hfilter⟩ := (ih next).mpr hrest
        exact ⟨filter, next, hnext, hfilter⟩
  exact hfrom empty

/-- The members of an object spell a group if each of them spells a clause that may stand under its
key. -/
theorem exists_ofMembers_eq_ok {members : List (String × Json)} :
    (∃ filter, ofMembers members = .ok filter) ↔
      ∀ member ∈ members, ∃ clause, Clause.ofJson member.2 = .ok clause
        ∧ Admits member.1 clause := by
  simp only [ofMembers, Except.bind_eq_ok, Clause.ofMembers_eq_mapM]
  constructor
  · rintro ⟨filter, entries, hentries, hfilter⟩
    have hadmits := exists_ofEntries_eq_ok.mp ⟨filter, hfilter⟩
    rw [Except.mapM_eq_ok_iff] at hentries
    clear hfilter
    induction hentries with
    | nil => exact nofun
    | cons hentry _ ih =>
      obtain ⟨hfirst, hrest⟩ := List.forall_mem_cons.mp hadmits
      obtain ⟨clause, hclause, rfl⟩ := Except.map_eq_ok.mp hentry
      exact List.forall_mem_cons.mpr ⟨⟨clause, hclause, hfirst⟩, ih hrest⟩
  · intro h
    have hentries : ∃ entries,
        members.mapM (fun member => (Clause.ofJson member.2).map (Prod.mk member.1))
          = .ok entries ∧ ∀ entry ∈ entries, Admits entry.1 entry.2 := by
      induction members with
      | nil => exact ⟨[], rfl, nofun⟩
      | cons member rest ih =>
        obtain ⟨⟨clause, hclause, hfirst⟩, hrest⟩ := List.forall_mem_cons.mp h
        obtain ⟨entries, hentries, hadmits⟩ := ih hrest
        refine ⟨(member.1, clause) :: entries, ?_, List.forall_mem_cons.mpr ⟨hfirst, hadmits⟩⟩
        rw [Except.mapM_cons, hclause, hentries]
        rfl
    obtain ⟨entries, hentries, hadmits⟩ := hentries
    obtain ⟨filter, hfilter⟩ := exists_ofEntries_eq_ok.mpr hadmits
    exact ⟨filter, entries, hentries, hfilter⟩

/-- The filter that an object spells: its clauses are read with repeated keys merged inside them,
and then put one after the other. -/
theorem ofNode_ofJson (members : List (String × Json)) :
    ofNode (Node.ofJson (.obj members))
      = Clause.ofMembers (Json.settleMembers members) >>=
          fun clauses => ofEntries (Entries.ofList clauses) := by
  have hmembers : Clause.ofMembers (Json.settleMembers members)
      = members.mapM fun member => (Clause.ofJson member.2.settle).map (Prod.mk member.1) := by
    rw [Clause.ofMembers_eq_mapM, Json.settleMembers_eq_mapValues, Entries.mapValues,
      List.mapM_map]
    rfl
  rw [ofNode, Reader.read, hmembers]
  change ((Node.ofJson (.obj members)).readEntries Clause.ofNode >>= ofEntries) = _
  rw [Node.readEntries_ofJson]
  simp only [Clause.ofNode_ofJson]
  cases members.mapM fun member => (Clause.ofJson member.2.settle).map (Prod.mk member.1) <;> rfl

end Filter

/-- An object without a mark and without an operator spells a group. -/
theorem Clause.ofJson_group {members : List (String × Json)}
    (hscalar : ¬ Key.marksScalar members = true)
    (hcondition : ¬ Condition.isMarked members = true) :
    ofJson (.obj members) = (Filter.ofMembers members).map Filter.toClause := by
  rw [ofJson, if_neg hscalar, if_neg hcondition, Filter.ofMembers]
  cases ofMembers members with
  | error => rfl
  | ok entries =>
    change (Filter.ofEntries entries >>= _) = (Filter.ofEntries entries).map _
    cases Filter.ofEntries entries <;> rfl

end EntityQuery
