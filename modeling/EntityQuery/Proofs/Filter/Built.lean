import Mathlib.Data.Nat.Bits
import EntityQuery.Proofs.Filter.Marked
import EntityQuery.Proofs.Filter.Tidy
import EntityQuery.Proofs.Json.Printed

/-!
# Proofs/Filter/Built — filters that are built and filters that are read

    steps ──build──▸ filter ──tidy──▸ filter
      │                                 ‖
    spells ──▸ document ─────read───────┘

A program builds a filter in steps (`Builder.build`): it asks something of a field, or turns the
negation over.  A document spells the steps if it has their entries in the same order, and among
them `$_not` with the parity of the negations (`Builder.SpellsValue`).  Both put the same clauses
one after the other (`build_empty` for the one, `Marked.ofEntries` for the other), but a document
cannot tell a bound that is null from none: what is read is the filter that was built, tidied
(`Builder.read_of_spells`).
-/

namespace EntityQuery

/-! ## Building -/

namespace Builder

/-- A scalar that a program gives.  An instant is given by a text that is read as it. -/
inductive Constant where
  | null
  | bool (value : Bool)
  | int (value : Int64)
  | float (value : Binary64) (isFinite : value.isFinite = true)
  | text (value : String)
  | date (spelled : String) (value : Instant) (reads : Instant.read spelled = some value)
  | pending (reference : String)

namespace Constant

/-- The scalar. -/
def scalar : Constant → Scalar
  | .null => .null
  | .bool value => .bool value
  | .int value => .int value
  | .float value _ => .float value
  | .text value => .text value
  | .date _ value _ => .instant value
  | .pending reference => .pending reference

/-- How a document spells it. -/
def json : Constant → Json
  | .null => .null
  | .bool value => .bool value
  | .int value => .num (.integer value.toInt)
  | .float value _ => .num (.real value)
  | .text value => .str value
  | .date spelled _ _ => .obj [(Key.date, .str spelled)]
  | .pending reference => .obj [(Key.pending, .str reference)]

end Constant

/-- How a condition is made, before it is negated. -/
inductive Making where
  | equal (value : Constant)
  | oneOf (values : List Constant)
  | like (pattern : Constant)
  | range (above below : Option Constant)
  | greaterThan (above : Constant)
  | between (above below : Constant)
  | unspecified

/-- The condition that is made. -/
def Making.condition : Making → Condition
  | .equal value => .equal value.scalar
  | .oneOf values => .oneOf (values.map Constant.scalar)
  | .like pattern => .like pattern.scalar
  | .range above below => .range (above.map Constant.scalar) (below.map Constant.scalar)
  | .greaterThan above => .greaterThan above.scalar
  | .between above below => .between above.scalar below.scalar
  | .unspecified => .unspecified

mutual

/-- What a program asks of a field. -/
inductive Value where
  | scalar (value : Constant)
  | list (values : List Constant)
  /-- A condition, negated some number of times. -/
  | condition (making : Making) (times : Nat)
  /-- A filter that is built from the empty one. -/
  | nested (steps : List Step)

/-- A step of building a filter. -/
inductive Step where
  /-- Asks something of a field whose name is not reserved. -/
  | add (field : String) (isPlain : Key.isReserved field = false) (value : Value)
  | negate

end

mutual

/-- The clause that is made of a value. -/
def Value.clause : Value → Clause
  | .scalar value => .value value.scalar
  | .list values => .list (values.map Constant.scalar)
  | .condition making times => .condition (times.repeat Condition.negate making.condition)
  | .nested steps => (build steps .empty).toClause

/-- Takes a step. -/
def Step.take : Step → Filter → Filter
  | .add field _ value, filter => filter.add field value.clause
  | .negate, filter => filter.negate

/-- Takes steps one after the other. -/
def build : List Step → Filter → Filter
  | [], filter => filter
  | step :: rest, filter => build rest (step.take filter)

end

/-- The fields of some steps, with what is asked of them. -/
def pairs : List Step → List (String × Clause)
  | [] => []
  | .add field _ value :: rest => (field, value.clause) :: pairs rest
  | .negate :: rest => pairs rest

/-- How many steps negate. -/
def negations : List Step → Nat
  | [] => 0
  | .add _ _ _ :: rest => negations rest
  | .negate :: rest => negations rest + 1

/-- No step asks anything of a key that means something else. -/
theorem isReserved_of_mem_pairs {steps : List Step} :
    ∀ entry ∈ pairs steps, Key.isReserved entry.1 = false := by
  induction steps with
  | nil => exact nofun
  | cons step rest ih =>
    cases step with
    | negate => exact ih
    | add field isPlain value => exact List.forall_mem_cons.mpr ⟨isPlain, ih⟩

/-- **What is built**: the clauses put one after the other, and the parity of the negations. -/
theorem build_empty (steps : List Step) :
    build steps .empty = ⟨(negations steps).bodd, Entries.ofList (pairs steps)⟩ := by
  have hfrom : ∀ filter : Filter, build steps filter
      = ⟨xor (negations steps).bodd filter.negated,
          (pairs steps).foldl (fun entries pair => entries.put pair.1 pair.2) filter.clauses⟩ := by
    induction steps with
    | nil => exact fun filter => by simp [build, negations, pairs]
    | cons step rest ih =>
      intro filter
      rw [build, ih]
      cases step with
      | add => rfl
      | negate => simp [Step.take, Filter.negate, negations, pairs]
  rw [hfrom, Filter.empty, Bool.xor_false]
  rfl

/-- Negating flips as often as it is done. -/
theorem repeat_negate (condition : Condition) (n : Nat) :
    n.repeat Condition.negate condition = ⟨condition.test, xor n.bodd condition.negated⟩ := by
  induction n with
  | zero => simp [Nat.repeat]
  | succ n ih => simp [Nat.repeat, ih, Condition.negate]

/-! ## Spelling -/

/-- How a document spells a bound: one that is missing is null. -/
def boundJson : Option Constant → Json
  | none => .null
  | some bound => bound.json

/-- The operators that spell a condition.  One without an operator is spelled by a bound that is
null. -/
inductive SpellsMaking : Making → List (String × Json) → Prop
  | equal (value : Constant) : SpellsMaking (.equal value) [(Key.equal, value.json)]
  | oneOf (values : List Constant) :
      SpellsMaking (.oneOf values) [(Key.equal, .arr (values.map Constant.json))]
  | like (pattern : Constant) : SpellsMaking (.like pattern) [(Key.like, pattern.json)]
  | range (above below : Option Constant) : SpellsMaking (.range above below)
      [(Key.greater, boundJson above), (Key.lesser, boundJson below)]
  | greaterThan (above : Constant) :
      SpellsMaking (.greaterThan above) [(Key.greater, above.json), (Key.lesser, .null)]
  | between (above below : Constant) :
      SpellsMaking (.between above below) [(Key.greater, above.json), (Key.lesser, below.json)]
  | unspecified {key : String} (h : key = Key.greater ∨ key = Key.lesser) :
      SpellsMaking .unspecified [(key, .null)]

mutual

/-- A JSON value spells what is asked of a field. -/
inductive SpellsValue : Value → Json → Prop
  | scalar (value : Constant) : SpellsValue (.scalar value) value.json
  | list (values : List Constant) :
      SpellsValue (.list values) (.arr (values.map Constant.json))
  | condition {making times operators members} (spelled : SpellsMaking making operators)
      (marked : Marked Json.bool times.bodd operators members) :
      SpellsValue (.condition making times) (.obj members)
  | nested {steps entries members} (spelled : SpellsSteps steps entries)
      (marked : Marked Json.bool (negations steps).bodd entries members) :
      SpellsValue (.nested steps) (.obj members)

/-- Entries spell some steps: one entry for each field, in their order. -/
inductive SpellsSteps : List Step → List (String × Json) → Prop
  | nil : SpellsSteps [] []
  | negate {rest entries} (others : SpellsSteps rest entries) :
      SpellsSteps (.negate :: rest) entries
  | add {field isPlain value json rest entries} (first : SpellsValue value json)
      (others : SpellsSteps rest entries) :
      SpellsSteps (.add field isPlain value :: rest) ((field, json) :: entries)

end

/-! ### Scalars -/

theorem Constant.settle_json (value : Constant) : value.json.settle = value.json := by
  cases value <;> rfl

/-- A scalar is read off its spelling. -/
theorem Constant.ofJson_json (value : Constant) : Scalar.ofJson value.json = .ok value.scalar := by
  cases value with
  | int value =>
    have hfits : value.toInt < Number.signedLimit := value.toInt_lt
    rw [json, Scalar.ofJson, if_pos hfits, Int64.ofInt_toInt]
    rfl
  | date spelled value reads =>
    change Scalar.ofDateText spelled = _
    rw [Scalar.ofDateText, reads]
    rfl
  | _ => rfl

theorem Constant.settle_jsons (values : List Constant) :
    Json.settleItems (values.map json) = values.map json := by
  induction values with
  | nil => rfl
  | cons value rest ih => rw [List.map_cons, Json.settleItems, settle_json, ih]

theorem Constant.mapM_ofJson (values : List Constant) :
    (values.map json).mapM Scalar.ofJson = .ok (values.map scalar) :=
  Except.mapM_map_eq_ok ofJson_json values

/-- A scalar is read as an operand. -/
theorem Constant.operand_json (value : Constant) :
    Operand.ofJson value.json = .ok (.one value.scalar) := by
  have hread := value.ofJson_json
  cases value <;> simp only [Operand.ofJson, json] at hread ⊢ <;> rw [hread] <;> rfl

/-- Scalars in a list are read as one operand. -/
theorem Constant.operand_jsons (values : List Constant) :
    Operand.ofJson (.arr (values.map json)) = .ok (.oneOf (values.map scalar)) := by
  rw [Operand.ofJson, mapM_ofJson]
  rfl

/-- A bound is read unless it is null. -/
theorem boundOf_boundJson (bound : Option Constant) :
    Condition.boundOf (boundJson bound) = .ok (Scalar.present? (bound.map Constant.scalar)) := by
  cases bound with
  | none => rfl
  | some value =>
    have hread : (Scalar.ofJson (boundJson (some value))).map some = .ok (some value.scalar) := by
      rw [boundJson, value.ofJson_json]
      rfl
    cases value with
    | null => rfl
    | _ => exact (Condition.boundOf_of_ne_null (by exact nofun)).trans hread

/-- A scalar is read as the clause that asks for it. -/
theorem ofJson_scalar (value : Constant) :
    Clause.ofJson value.json.settle = .ok (Value.scalar value).clause.tidy := by
  have hread := value.ofJson_json
  rw [value.settle_json]
  cases value <;> simp only [Constant.json] at hread ⊢ <;>
    simp [Clause.ofJson, Key.marksScalar, Key.isIn, hread] <;> rfl

/-! ### Conditions -/

/-- Operators are read one by one, and together they are a test. -/
structure Reads (operators : List (String × Json)) (test : Test) : Prop where
  each : ∀ member ∈ operators, ∃ change, Condition.record.update member = .ok change
  all : ∀ negated, Condition.Parts.condition
    { Condition.Parts.ofMembers {} operators with negated } = .ok ⟨test, negated⟩

/-- What operators do one after the other is what they are read as. -/
theorem Reads.of_updates {operators : List (String × Json)} {test : Test}
    {updates : List (Condition.Parts → Condition.Parts)}
    (hnodup : (Entries.names operators).Nodup)
    (hupdates : operators.mapM Condition.record.update = .ok updates)
    (htest : ∀ negated, Condition.Parts.condition
      { Record.applyAll updates {} with negated } = .ok ⟨test, negated⟩) :
    Reads operators test where
  each := Except.exists_mapM_eq_ok.mp ⟨updates, hupdates⟩
  all := by
    rw [← Condition.applyAll_eq_ofMembers {} hnodup hupdates]
    exact htest

/-- An operand is read as an equality. -/
theorem reads_operand {value : Json} {operand : Operand} (h : Operand.ofJson value = .ok operand) :
    Reads [(Key.equal, value)] (.equal operand) := by
  have hupdates : [(Key.equal, value)].mapM Condition.record.update
      = .ok [fun parts => { parts with operand := some operand }] := by
    rw [Except.mapM_cons, Condition.update_equal, h]
    rfl
  exact .of_updates (by simp) hupdates fun _ => rfl

/-- A pattern is read as a likeness. -/
theorem reads_pattern {value : Json} {pattern : Scalar} (h : Scalar.ofJson value = .ok pattern) :
    Reads [(Key.like, value)] (.like pattern) := by
  have hupdates : [(Key.like, value)].mapM Condition.record.update
      = .ok [fun parts => { parts with pattern := some pattern }] := by
    rw [Except.mapM_cons, Condition.update_like, h]
    rfl
  exact .of_updates (by simp) hupdates fun _ => rfl

/-- Bounds are read as a range, or as no operator if both of them are null. -/
theorem reads_bounds (above below : Option Constant) :
    Reads [(Key.greater, boundJson above), (Key.lesser, boundJson below)]
      (.ofBounds (Scalar.present? (above.map Constant.scalar))
        (Scalar.present? (below.map Constant.scalar))) := by
  have hupdates : [(Key.greater, boundJson above), (Key.lesser, boundJson below)].mapM
      Condition.record.update = .ok [
        fun parts => { parts with above := Scalar.present? (above.map Constant.scalar) },
        fun parts => { parts with below := Scalar.present? (below.map Constant.scalar) }] := by
    rw [Except.mapM_cons, Except.mapM_cons, Condition.update_greater, Condition.update_lesser,
      boundOf_boundJson, boundOf_boundJson]
    rfl
  refine .of_updates (by simp [Key.greater, Key.lesser]) hupdates fun _ => ?_
  cases Scalar.present? (above.map Constant.scalar) <;>
  cases Scalar.present? (below.map Constant.scalar) <;> rfl

/-- A bound that is null is read as no operator. -/
theorem reads_null {key : String} (h : key = Key.greater ∨ key = Key.lesser) :
    Reads [(key, .null)] .unspecified := by
  rcases h with rfl | rfl <;> exact .of_updates (by simp) rfl fun _ => rfl

/-- **The operators of a condition are read as its test**, tidied. -/
theorem SpellsMaking.reads {making : Making} {operators : List (String × Json)}
    (h : SpellsMaking making operators) : Reads operators making.condition.test.tidy := by
  cases h with
  | equal value => exact reads_operand value.operand_json
  | oneOf values => exact reads_operand (Constant.operand_jsons values)
  | like pattern => exact reads_pattern pattern.ofJson_json
  | range above below => exact reads_bounds above below
  | greaterThan above => exact reads_bounds (some above) none
  | between above below => exact reads_bounds (some above) (some below)
  | unspecified hkey => exact reads_null hkey

/-- An operator is there, and it is neither a scalar's mark nor the flag. -/
theorem SpellsMaking.names {making : Making} {operators : List (String × Json)}
    (h : SpellsMaking making operators) :
    (∃ key ∈ [Key.equal, Key.like, Key.greater, Key.lesser], key ∈ Entries.names operators)
      ∧ Key.date ∉ Entries.names operators ∧ Key.pending ∉ Entries.names operators := by
  cases h with
  | unspecified hkey =>
    rcases hkey with rfl | rfl <;>
    simp [Key.equal, Key.like, Key.greater, Key.lesser, Key.date, Key.pending]
  | _ => simp [Key.equal, Key.like, Key.greater, Key.lesser, Key.date, Key.pending]

/-- Operators are not repeated. -/
theorem SpellsMaking.settled {making : Making} {operators : List (String × Json)}
    (h : SpellsMaking making operators) :
    Entries.ofList (Json.settleMembers operators) = operators := by
  have hbound : ∀ bound, (boundJson bound).settle = boundJson bound
    | none => rfl
    | some value => value.settle_json
  have hvalues : Json.settleMembers operators = operators := by
    cases h <;> simp [Json.settleMembers, Constant.settle_json, hbound, Json.settle,
      Constant.settle_jsons]
  rw [hvalues]
  refine Entries.ofList_of_nodup ?_
  cases h <;> simp [Key.greater, Key.lesser]

/-- What marked members say about the negation is the flag, given or not. -/
theorem said_negation {negated : Bool} {operators members : List (String × Json)}
    (hmarked : Marked Json.bool negated operators members)
    (hnodup : (Entries.names members).Nodup) :
    Record.said members Key.negation Condition.negationOf false = negated := by
  rw [Record.said]
  cases hget : Entries.get? members Key.negation with
  | some value =>
    rw [hmarked.flags value ((Entries.get?_eq_some hnodup).mp hget)]
    rfl
  | none =>
    cases negated with
    | false => rfl
    | true => exact absurd (hmarked.given rfl) (Entries.get?_eq_none.mp hget)

/-- Members that are marked are read as the test of their operators, with the flag. -/
theorem ofNode_of_marked {negated : Bool} {operators members : List (String × Json)} {test : Test}
    (hreads : Reads operators test) (hmarked : Marked Json.bool negated operators members)
    (hnodup : (Entries.names members).Nodup) :
    Condition.ofNode .value (Node.ofJson (.obj members)) = .ok ⟨test, negated⟩ := by
  rw [Condition.ofNode_eq_ok hnodup]
  constructor
  · intro member hmember
    rcases hmarked.mem hmember with hmember | rfl
    · exact hreads.each member hmember
    · exact ⟨_, rfl⟩
  · have hparts : Condition.Parts.ofMembers {} members
        = { Condition.Parts.ofMembers {} operators with negated } := by
      rw [Condition.Parts.ofMembers, said_negation hmarked hnodup]
      simp only [Condition.Parts.ofMembers, Record.said]
      rw [hmarked.get?_eq (by decide), hmarked.get?_eq (by decide), hmarked.get?_eq (by decide),
        hmarked.get?_eq (by decide)]
    rw [hparts]
    exact hreads.all negated

/-- **A condition is read off what spells it**, tidied. -/
theorem ofJson_condition {making : Making} {times : Nat} {operators members : List (String × Json)}
    (h : SpellsMaking making operators) (hmarked : Marked Json.bool times.bodd operators members) :
    Clause.ofJson (Json.obj members).settle = .ok (Value.condition making times).clause.tidy := by
  have hsettled := h.settled ▸ hmarked.settled
  have hnodup := Entries.nodup_names_ofList (Json.settleMembers members)
  obtain ⟨⟨key, hkey, hmem⟩, hdate, hpending⟩ := h.names
  have hscalar : ¬ Key.marksScalar (Entries.ofList (Json.settleMembers members)) = true := by
    rw [Key.marksScalar_iff, hsettled.mem_names (by decide), hsettled.mem_names (by decide)]
    exact not_or.mpr ⟨hdate, hpending⟩
  have hmark : Condition.isMarked (Entries.ofList (Json.settleMembers members)) = true := by
    refine Condition.isMarked_iff.mpr ⟨key, hkey, (hsettled.mem_names ?_).mpr hmem⟩
    rintro rfl
    exact absurd hkey (by decide)
  have hnegated : making.condition.negated = false := by cases making <;> rfl
  rw [Json.settle, Clause.ofJson, if_neg hscalar, if_pos hmark,
    ofNode_of_marked h.reads hsettled hnodup, Value.clause, repeat_negate, hnegated, Bool.xor_false]
  rfl

/-! ### Groups -/

/-- A JSON value is read as a clause. -/
def IsRead (json : Json) (clause : Clause) : Prop :=
  Clause.ofJson json.settle = .ok clause

/-- Members are read as clauses one by one, whatever is repeated being merged. -/
theorem ofMembers_of_isRead {members : List (String × Json)} {clauses : Entries Clause}
    (h : Entries.Related IsRead members clauses) :
    Clause.ofMembers (Json.settleMembers members) = .ok clauses := by
  rw [Clause.ofMembers_eq_ok_iff, Json.settleMembers_eq_mapValues, Entries.mapValues]
  exact List.forall₂_map_left_iff.mpr h

section

variable {steps : List Step} {entries members : List (String × Json)}
  (hentries : Entries.Related IsRead entries (Entries.mapValues Clause.tidy (pairs steps)))
  (hmarked : Marked Json.bool (negations steps).bodd entries members)

include hentries hmarked

/-- Members that spell steps are read as clauses, and these make the filter that is built. -/
theorem exists_clauses : ∃ all, Entries.Related IsRead members all
    ∧ Filter.ofEntries (Entries.ofList all) = .ok (build steps .empty).tidy := by
  have hflag : IsRead (.bool (negations steps).bodd) (Clause.flag (negations steps).bodd) := rfl
  obtain ⟨all, hrelated, hall⟩ := hmarked.exists_related hflag hentries
  refine ⟨all, hrelated, ?_⟩
  have hplain : ∀ entry ∈ Entries.ofList (Entries.mapValues Clause.tidy (pairs steps)),
      Key.isReserved entry.1 = false := by
    intro entry hentry
    obtain ⟨pair, hpair, rfl⟩ := List.mem_map.mp (Entries.mem_of_mem_ofList hentry)
    exact isReserved_of_mem_pairs pair hpair
  rw [hall.ofList.ofEntries hplain, build_empty, Filter.tidy, Entries.mapValues_ofList,
    Entries.ofList_of_nodup (Entries.nodup_names_ofList _)]

/-- An object that spells steps is read as the filter that they build, tidied. -/
theorem ofNode_group :
    Filter.ofNode (Node.ofJson (.obj members)) = .ok (build steps .empty).tidy := by
  obtain ⟨all, hrelated, hfilter⟩ := exists_clauses hentries hmarked
  rw [Filter.ofNode_ofJson, ofMembers_of_isRead hrelated]
  exact hfilter

theorem ofJson_group :
    Clause.ofJson (Json.obj members).settle = .ok (Value.nested steps).clause.tidy := by
  obtain ⟨all, hrelated, hfilter⟩ := exists_clauses hentries hmarked
  have hplain : ∀ {key}, key ≠ Key.negation → Key.isReserved key = true →
      key ∉ Entries.names (Entries.ofList (Json.settleMembers members)) := by
    intro key hkey hreserved hmem
    rw [Entries.mem_names_ofList, Json.settleMembers_eq_mapValues, Entries.names_mapValues,
      hmarked.mem_names hkey, hentries.names, Entries.names_mapValues] at hmem
    obtain ⟨pair, hpair, rfl⟩ := List.mem_map.mp hmem
    exact absurd hreserved (by rw [isReserved_of_mem_pairs pair hpair]; exact nofun)
  have hscalar : ¬ Key.marksScalar (Entries.ofList (Json.settleMembers members)) = true := by
    rw [Key.marksScalar_iff]
    exact not_or.mpr ⟨hplain (by decide) rfl, hplain (by decide) rfl⟩
  have hcondition : ¬ Condition.isMarked (Entries.ofList (Json.settleMembers members)) = true := by
    rw [Condition.isMarked_iff]
    simp only [List.mem_cons, List.not_mem_nil, or_false]
    rintro ⟨key, rfl | rfl | rfl | rfl, hmem⟩ <;> exact hplain (by decide) rfl hmem
  have hall := Clause.ofMembers_eq_ok_iff.mp (ofMembers_of_isRead hrelated)
  have hclauses : Clause.ofMembers (Entries.ofList (Json.settleMembers members))
      = .ok (Entries.ofList all) := Clause.ofMembers_eq_ok_iff.mpr hall.ofList
  rw [Json.settle, Clause.ofJson_group hscalar hcondition, Filter.ofMembers, hclauses]
  change (Filter.ofEntries (Entries.ofList all)).map Filter.toClause = _
  rw [hfilter, Value.clause, ← Filter.toClause_tidy]
  rfl

end

-- By recursion on the spelling: a nested filter is read once all of its entries are, whatever
-- stands between them in the document.
mutual

/-- **A value is read off what spells it**, tidied. -/
theorem ofJson_of_spells : ∀ {value : Value} {json : Json}, SpellsValue value json →
    IsRead json value.clause.tidy
  | _, _, .scalar value => ofJson_scalar value
  | _, _, .list values => by
      rw [IsRead, Json.settle, Constant.settle_jsons, Clause.ofJson, Constant.mapM_ofJson]
      rfl
  | _, _, .condition spelled marked => ofJson_condition spelled marked
  | _, _, .nested spelled marked => ofJson_group (related_of_spells spelled) marked

/-- Entries that spell steps are read as the clauses of the steps, tidied. -/
theorem related_of_spells : ∀ {steps : List Step} {entries : List (String × Json)},
    SpellsSteps steps entries →
      Entries.Related IsRead entries (Entries.mapValues Clause.tidy (pairs steps))
  | _, _, .nil => .nil
  | _, _, .negate others => by
      have hothers := related_of_spells others
      exact hothers
  | _, _, .add first others => .cons ⟨rfl, ofJson_of_spells first⟩ (related_of_spells others)

end

/-! ### Every value is spelled -/

theorem SpellsMaking.negation_not_mem {making : Making} {operators : List (String × Json)}
    (h : SpellsMaking making operators) : Key.negation ∉ Entries.names operators := by
  cases h with
  | unspecified hkey => rcases hkey with rfl | rfl <;> decide
  | _ => simp [Key.equal, Key.like, Key.greater, Key.lesser, Key.negation]

/-- Every condition that is made is spelled by some operators. -/
theorem exists_spellsMaking (making : Making) : ∃ operators, SpellsMaking making operators := by
  cases making with
  | equal value => exact ⟨_, .equal value⟩
  | oneOf values => exact ⟨_, .oneOf values⟩
  | like pattern => exact ⟨_, .like pattern⟩
  | range above below => exact ⟨_, .range above below⟩
  | greaterThan above => exact ⟨_, .greaterThan above⟩
  | between above below => exact ⟨_, .between above below⟩
  | unspecified => exact ⟨_, .unspecified (.inl rfl)⟩

/-- No entry has the key of the negation. -/
theorem SpellsSteps.negation_not_mem {steps : List Step} {entries : List (String × Json)}
    (h : SpellsSteps steps entries) : Key.negation ∉ Entries.names entries := by
  intro hmem
  rw [(related_of_spells h).names, Entries.names_mapValues] at hmem
  obtain ⟨pair, hpair, hkey⟩ := List.mem_map.mp hmem
  have hreserved := isReserved_of_mem_pairs pair hpair
  rw [hkey] at hreserved
  exact nomatch hreserved

mutual

/-- Whatever is asked of a field, there is a document that spells it. -/
theorem exists_spellsValue : ∀ value : Value, ∃ json, SpellsValue value json
  | .scalar value => ⟨_, .scalar value⟩
  | .list values => ⟨_, .list values⟩
  | .condition making times => by
      obtain ⟨operators, hoperators⟩ := exists_spellsMaking making
      exact ⟨_, .condition hoperators (.cons hoperators.negation_not_mem)⟩
  | .nested steps => by
      obtain ⟨entries, hentries⟩ := exists_spellsSteps steps
      exact ⟨_, .nested hentries (.cons hentries.negation_not_mem)⟩

theorem exists_spellsSteps : ∀ steps : List Step, ∃ entries, SpellsSteps steps entries
  | [] => ⟨[], .nil⟩
  | .negate :: rest => by
      obtain ⟨entries, hentries⟩ := exists_spellsSteps rest
      exact ⟨entries, .negate hentries⟩
  | .add field _ value :: rest => by
      obtain ⟨json, hjson⟩ := exists_spellsValue value
      obtain ⟨entries, hentries⟩ := exists_spellsSteps rest
      exact ⟨(field, json) :: entries, .add hjson hentries⟩

end

/-- **A document that spells the steps of building a filter is read as the filter**, tidied. -/
theorem read_of_spells {steps : List Step} {document : Json} {text : String}
    (hdocument : SpellsValue (.nested steps) document)
    (htext : Json.Grammar.Spells text document) (hdepth : document.nesting ≤ maxDepth) :
    (Document.ofText text).read Filter.reader = .ok (build steps .empty).tidy := by
  rw [Document.ofText_eq_ofJson htext hdepth]
  cases hdocument with
  | nested hsteps hmarked =>
    refine Document.read_eq_ok.mpr ?_
    exact ofNode_group (related_of_spells hsteps) hmarked

end Builder

end EntityQuery
