import EntityQuery.Graph.People
import EntityQuery.Proofs.Filter.Built
import EntityQuery.Proofs.Json.Reread

/-!
# Proofs/Filter/Agreement — a program and a document ask for one filter

    steps ──▸ document ◂─── text, its numbers rounded once
      ┊          ┊            ‖
    taken ──▸  value   ◂─── text, as it is read

A float is read off its text, and may come out as another one.  So a text that spells the document
of some steps is read as a value that need not be the document, but spells what `StepsAreReadAs`
says of the steps: the same ones, with floats that numerals nearest to theirs are read as
(`SpellsValue.exists_isReadAs`).  The filter that is read is the one that these build
(`built_filters_read_back`).
-/

namespace EntityQuery

open Json.Grammar (Spells SpellsAs held)

namespace Builder

/-! ## Steps with floats that are read -/

/-- A scalar that is read for another: itself, or a float for a float. -/
inductive Constant.IsReadAs : Constant → Constant → Prop
  | null : IsReadAs .null .null
  | bool (value : Bool) : IsReadAs (.bool value) (.bool value)
  | int (value : Int64) : IsReadAs (.int value) (.int value)
  | float {x y : Binary64} {isFinite isFinite'} (h : x.IsReadAs y) :
      IsReadAs (.float x isFinite) (.float y isFinite')
  | text (value : String) : IsReadAs (.text value) (.text value)
  | date {spelled value reads} : IsReadAs (.date spelled value reads) (.date spelled value reads)
  | pending (reference : String) : IsReadAs (.pending reference) (.pending reference)

/-- Conditions that are made alike of scalars that are read. -/
inductive Making.IsReadAs : Making → Making → Prop
  | equal {value read} (h : value.IsReadAs read) : IsReadAs (.equal value) (.equal read)
  | oneOf {values read} (h : List.Forall₂ Constant.IsReadAs values read) :
      IsReadAs (.oneOf values) (.oneOf read)
  | like {pattern read} (h : pattern.IsReadAs read) : IsReadAs (.like pattern) (.like read)
  | range {above below above' below'} (habove : Option.Rel Constant.IsReadAs above above')
      (hbelow : Option.Rel Constant.IsReadAs below below') :
      IsReadAs (.range above below) (.range above' below')
  | greaterThan {above read} (h : above.IsReadAs read) :
      IsReadAs (.greaterThan above) (.greaterThan read)
  | between {above below above' below'} (habove : above.IsReadAs above')
      (hbelow : below.IsReadAs below') : IsReadAs (.between above below) (.between above' below')
  | unspecified : IsReadAs .unspecified .unspecified

mutual

/-- The same is asked of a field, with scalars that are read. -/
inductive Value.IsReadAs : Value → Value → Prop
  | scalar {value read} (h : value.IsReadAs read) : Value.IsReadAs (.scalar value) (.scalar read)
  | list {values read} (h : List.Forall₂ Constant.IsReadAs values read) :
      Value.IsReadAs (.list values) (.list read)
  | condition {making read} (h : making.IsReadAs read) (times : Nat) :
      Value.IsReadAs (.condition making times) (.condition read times)
  | nested {steps read} (h : StepsAreReadAs steps read) :
      Value.IsReadAs (.nested steps) (.nested read)

/-- The same steps are taken, with scalars that are read. -/
inductive StepsAreReadAs : List Step → List Step → Prop
  | nil : StepsAreReadAs [] []
  | add {field isPlain value read rest others} (first : Value.IsReadAs value read)
      (next : StepsAreReadAs rest others) :
      StepsAreReadAs (.add field isPlain value :: rest) (.add field isPlain read :: others)
  | negate {rest others} (next : StepsAreReadAs rest others) :
      StepsAreReadAs (.negate :: rest) (.negate :: others)

end

/-- As many steps turn the negation over. -/
theorem StepsAreReadAs.negations_eq : ∀ {steps read : List Step}, StepsAreReadAs steps read →
    negations read = negations steps
  | _, _, .nil => rfl
  | _, _, .add _ next => next.negations_eq
  | _, _, .negate next => congrArg (· + 1) next.negations_eq

/-! ### What is read spells them -/

/-- A mark has no float in it. -/
theorem eq_of_isReadAs_mark {key text : String} {json : Json}
    (h : (Json.obj [(key, .str text)]).IsReadAs json) : json = .obj [(key, .str text)] := by
  cases h with
  | obj inner =>
    cases inner with
    | cons first rest =>
      cases first
      cases rest
      rfl

/-- What a scalar is read as is the spelling of one. -/
theorem Constant.exists_isReadAs {value : Constant} {json : Json} (h : value.json.IsReadAs json) :
    ∃ read, value.IsReadAs read ∧ json = read.json := by
  cases value with
  | null =>
    cases h
    exact ⟨.null, .null, rfl⟩
  | bool value =>
    cases h
    exact ⟨.bool value, .bool value, rfl⟩
  | int value =>
    cases h
    exact ⟨.int value, .int value, rfl⟩
  | float x isFinite =>
    cases h with
    | @real _ y hread =>
      obtain ⟨numeral, -, hvalue⟩ := id hread
      exact ⟨.float y (Numeral.isProper_of_value? hvalue), .float hread, rfl⟩
  | text value =>
    cases h
    exact ⟨.text value, .text value, rfl⟩
  | date spelled value reads =>
    exact ⟨.date spelled value reads, .date, eq_of_isReadAs_mark h⟩
  | pending reference => exact ⟨.pending reference, .pending reference, eq_of_isReadAs_mark h⟩

/-- What scalars are read as is the spelling of as many. -/
theorem Constant.exists_areReadAs {values : List Constant} {items : List Json}
    (h : Json.ItemsAreReadAs (values.map json) items) :
    ∃ read, List.Forall₂ Constant.IsReadAs values read ∧ items = read.map json := by
  induction values generalizing items with
  | nil =>
    cases h
    exact ⟨[], .nil, rfl⟩
  | cons value rest ih =>
    cases h with
    | cons first others =>
      obtain ⟨read, hread, rfl⟩ := exists_isReadAs first
      obtain ⟨last, hlast, rfl⟩ := ih others
      exact ⟨read :: last, .cons hread hlast, rfl⟩

theorem Constant.exists_isReadAs_arr {values : List Constant} {json : Json}
    (h : (Json.arr (values.map Constant.json)).IsReadAs json) :
    ∃ read, List.Forall₂ Constant.IsReadAs values read ∧ json = .arr (read.map Constant.json) := by
  cases h with
  | arr inner =>
    obtain ⟨read, hread, rfl⟩ := exists_areReadAs inner
    exact ⟨read, hread, rfl⟩

/-- What a bound is read as is the spelling of one, and null that of none. -/
theorem exists_isReadAs_boundJson {bound : Option Constant} {json : Json}
    (h : (boundJson bound).IsReadAs json) :
    ∃ read, Option.Rel Constant.IsReadAs bound read ∧ json = boundJson read := by
  cases bound with
  | none =>
    cases h
    exact ⟨none, .none, rfl⟩
  | some value =>
    obtain ⟨read, hread, rfl⟩ := Constant.exists_isReadAs h
    exact ⟨some read, .some hread, rfl⟩

theorem eq_of_isReadAs_bool {truth : Bool} (json : Json) (h : (Json.bool truth).IsReadAs json) :
    json = .bool truth := by
  cases h
  rfl

theorem exists_of_related_one {key : String} {value : Json} {others : List (String × Json)}
    (h : Entries.Related Json.IsReadAs [(key, value)] others) :
    ∃ read, others = [(key, read)] ∧ value.IsReadAs read := by
  obtain ⟨⟨_, read⟩, rest, ⟨rfl, hread⟩, hrest, rfl⟩ := List.forall₂_cons_left_iff.mp h
  obtain rfl := List.forall₂_nil_left_iff.mp hrest
  exact ⟨read, rfl, hread⟩

/-- Two members are read as two with the same keys. -/
theorem exists_of_related_two {first second : String} {above below : Json}
    {others : List (String × Json)}
    (h : Entries.Related Json.IsReadAs [(first, above), (second, below)] others) :
    ∃ above' below', others = [(first, above'), (second, below')] ∧ above.IsReadAs above'
      ∧ below.IsReadAs below' := by
  obtain ⟨⟨_, above'⟩, rest, ⟨rfl, habove⟩, hrest, rfl⟩ := List.forall₂_cons_left_iff.mp h
  obtain ⟨below', rfl, hbelow⟩ := exists_of_related_one hrest
  exact ⟨above', below', rfl, habove, hbelow⟩

/-- Operators that are read are those of a condition that is made alike. -/
theorem SpellsMaking.exists_isReadAs {making : Making} {operators others : List (String × Json)}
    (h : SpellsMaking making operators)
    (hothers : Entries.Related Json.IsReadAs operators others) :
    ∃ read, making.IsReadAs read ∧ SpellsMaking read others := by
  cases h with
  | equal value =>
    obtain ⟨_, rfl, hvalue⟩ := exists_of_related_one hothers
    obtain ⟨read, hread, rfl⟩ := Constant.exists_isReadAs hvalue
    exact ⟨_, .equal hread, .equal read⟩
  | oneOf values =>
    obtain ⟨_, rfl, hvalues⟩ := exists_of_related_one hothers
    obtain ⟨read, hread, rfl⟩ := Constant.exists_isReadAs_arr hvalues
    exact ⟨_, .oneOf hread, .oneOf read⟩
  | like pattern =>
    obtain ⟨_, rfl, hpattern⟩ := exists_of_related_one hothers
    obtain ⟨read, hread, rfl⟩ := Constant.exists_isReadAs hpattern
    exact ⟨_, .like hread, .like read⟩
  | range above below =>
    obtain ⟨_, _, rfl, habove, hbelow⟩ := exists_of_related_two hothers
    obtain ⟨above', habove', rfl⟩ := exists_isReadAs_boundJson habove
    obtain ⟨below', hbelow', rfl⟩ := exists_isReadAs_boundJson hbelow
    exact ⟨_, .range habove' hbelow', .range above' below'⟩
  | greaterThan above =>
    obtain ⟨_, _, rfl, habove, hnull⟩ := exists_of_related_two hothers
    obtain ⟨above', habove', rfl⟩ := Constant.exists_isReadAs habove
    cases hnull
    exact ⟨_, .greaterThan habove', .greaterThan above'⟩
  | between above below =>
    obtain ⟨_, _, rfl, habove, hbelow⟩ := exists_of_related_two hothers
    obtain ⟨above', habove', rfl⟩ := Constant.exists_isReadAs habove
    obtain ⟨below', hbelow', rfl⟩ := Constant.exists_isReadAs hbelow
    exact ⟨_, .between habove' hbelow', .between above' below'⟩
  | unspecified hkey =>
    obtain ⟨_, rfl, hnull⟩ := exists_of_related_one hothers
    cases hnull
    exact ⟨_, .unspecified, .unspecified hkey⟩

mutual

/-- **What is read spells what is asked, with scalars that are read.** -/
theorem SpellsValue.exists_isReadAs : ∀ {value : Value} {json read : Json},
    SpellsValue value json → json.IsReadAs read →
      ∃ taken, Value.IsReadAs value taken ∧ SpellsValue taken read
  | _, _, _, .scalar value, h => by
      obtain ⟨read, hread, rfl⟩ := Constant.exists_isReadAs h
      exact ⟨_, .scalar hread, .scalar read⟩
  | _, _, _, .list values, h => by
      obtain ⟨read, hread, rfl⟩ := Constant.exists_isReadAs_arr h
      exact ⟨_, .list hread, .list read⟩
  | _, _, _, .condition spelled marked, h => by
      cases h with
      | obj inner =>
        obtain ⟨hoperators, hmarked⟩ := marked.of_related eq_of_isReadAs_bool inner.related
        obtain ⟨read, hread, hspelled⟩ := spelled.exists_isReadAs hoperators
        exact ⟨_, .condition hread _, .condition hspelled hmarked⟩
  | _, _, _, .nested spelled marked, h => by
      cases h with
      | obj inner =>
        obtain ⟨hentries, hmarked⟩ := marked.of_related eq_of_isReadAs_bool inner.related
        obtain ⟨taken, htaken, hspelled⟩ := spelled.exists_areReadAs hentries
        rw [← htaken.negations_eq] at hmarked
        exact ⟨_, .nested htaken, .nested hspelled hmarked⟩

theorem SpellsSteps.exists_areReadAs : ∀ {steps : List Step} {entries others},
    SpellsSteps steps entries → Entries.Related Json.IsReadAs entries others →
      ∃ taken, StepsAreReadAs steps taken ∧ SpellsSteps taken others
  | _, _, _, .nil, .nil => ⟨[], .nil, .nil⟩
  | _, _, _, .negate next, h => by
      obtain ⟨taken, htaken, hspelled⟩ := next.exists_areReadAs h
      exact ⟨_, .negate htaken, .negate hspelled⟩
  | _, _, _, .add first next, h => by
      obtain ⟨⟨_, read⟩, rest, ⟨rfl, hentry⟩, hrest, rfl⟩ := List.forall₂_cons_left_iff.mp h
      obtain ⟨value, hvalue, hfirst⟩ := first.exists_isReadAs hentry
      obtain ⟨taken, htaken, hspelled⟩ := next.exists_areReadAs hrest
      exact ⟨_, .add hvalue htaken, .add hfirst hspelled⟩

end

/-! ### They are as tight -/

/-- Only null is read as null. -/
theorem Constant.IsReadAs.eq_null_iff {value read : Constant} (h : value.IsReadAs read) :
    read.scalar = .null ↔ value.scalar = .null := by
  cases h with
  | null => rfl
  | _ => exact iff_of_false nofun nofun

theorem isSome_iff_of_rel {bound read : Option Constant}
    (h : Option.Rel Constant.IsReadAs bound read) :
    (read.map Constant.scalar).isSome ↔ (bound.map Constant.scalar).isSome := by
  cases h <;> rfl

theorem ne_null_iff_of_rel {bound read : Option Constant}
    (h : Option.Rel Constant.IsReadAs bound read) :
    read.map Constant.scalar ≠ some .null ↔ bound.map Constant.scalar ≠ some .null := by
  cases h with
  | none => rfl
  | some h => simp [h.eq_null_iff]

/-- A condition is read with as many bounds, and as many of them null. -/
theorem Making.IsReadAs.isTight_iff {making read : Making} (h : making.IsReadAs read) :
    read.condition.test.IsTight ↔ making.condition.test.IsTight := by
  cases h with
  | range habove hbelow =>
    exact and_congr (or_congr (isSome_iff_of_rel habove) (isSome_iff_of_rel hbelow))
      (and_congr (ne_null_iff_of_rel habove) (ne_null_iff_of_rel hbelow))
  | greaterThan h =>
    exact and_congr Iff.rfl (and_congr (ne_null_iff_of_rel (.some h)) Iff.rfl)
  | between habove hbelow =>
    exact and_congr Iff.rfl
      (and_congr (ne_null_iff_of_rel (.some habove)) (ne_null_iff_of_rel (.some hbelow)))
  | _ => rfl

/-- One clause is as tight as another. -/
def AsTight (clause other : Clause) : Prop :=
  other.IsTight ↔ clause.IsTight

/-- Clauses that are as tight as others one by one are so together. -/
theorem areTight_iff_of_related {clauses others : Entries Clause}
    (h : Entries.Related AsTight clauses others) :
    Clause.AreTight others ↔ Clause.AreTight clauses := by
  induction h with
  | nil => rfl
  | cons hentry _ ih => exact and_congr hentry.2 ih

/-- Filters are as tight as the clauses that they are built of. -/
theorem areTight_build_iff {steps read : List Step}
    (h : Entries.Related AsTight (pairs steps) (pairs read)) :
    Clause.AreTight (build read .empty).clauses ↔ Clause.AreTight (build steps .empty).clauses := by
  rw [build_empty, build_empty]
  exact areTight_iff_of_related h.ofList

mutual

theorem Value.IsReadAs.isTight_iff : ∀ {value read : Value}, Value.IsReadAs value read →
    (read.clause.IsTight ↔ value.clause.IsTight)
  | _, _, .scalar _ | _, _, .list _ => Iff.rfl
  | _, _, .condition h times => by
      simp only [Value.clause, repeat_negate, Clause.IsTight]
      exact h.isTight_iff
  | _, _, .nested h => areTight_build_iff h.related_pairs

theorem StepsAreReadAs.related_pairs : ∀ {steps read : List Step}, StepsAreReadAs steps read →
    Entries.Related AsTight (pairs steps) (pairs read)
  | _, _, .nil => .nil
  | _, _, .add first next => .cons ⟨rfl, first.isTight_iff⟩ next.related_pairs
  | _, _, .negate next => next.related_pairs

end

/-! ### Documents fit -/

/-- All numbers fit that a scalar is spelled with. -/
theorem Constant.isProper_json (value : Constant) : value.json.IsProper := by
  cases value with
  | null => exact .null
  | bool value => exact .bool value
  | int value => exact .num (Number.isProper_toInt value)
  | float x isFinite => exact .num isFinite
  | text value => exact .str value
  | date | pending => exact .obj (List.forall_mem_singleton.mpr (.str _))

theorem Constant.isProper_arr (values : List Constant) :
    (Json.arr (values.map json)).IsProper :=
  .arr (List.forall_mem_map.mpr fun value _ => value.isProper_json)

theorem isProper_boundJson (bound : Option Constant) : (boundJson bound).IsProper := by
  cases bound with
  | none => exact .null
  | some value => exact value.isProper_json

theorem SpellsMaking.isProper {making : Making} {operators : List (String × Json)}
    (h : SpellsMaking making operators) : ∀ member ∈ operators, member.2.IsProper := by
  cases h <;> simp [Constant.isProper_json, Constant.isProper_arr, isProper_boundJson,
    Json.IsProper.null]

/-- All numbers of an object fit if those of its entries do: there is none in a mark. -/
theorem isProper_of_marked {negated : Bool} {entries members : List (String × Json)}
    (h : Marked Json.bool negated entries members)
    (hentries : ∀ entry ∈ entries, entry.2.IsProper) : (Json.obj members).IsProper := by
  refine .obj fun member hmember => ?_
  rcases h.mem hmember with hmember | rfl
  · exact hentries member hmember
  · exact .bool negated

mutual

theorem SpellsValue.isProper : ∀ {value : Value} {json : Json}, SpellsValue value json →
    json.IsProper
  | _, _, .scalar value => value.isProper_json
  | _, _, .list values => Constant.isProper_arr values
  | _, _, .condition spelled marked => isProper_of_marked marked spelled.isProper
  | _, _, .nested spelled marked => isProper_of_marked marked spelled.isProper

theorem SpellsSteps.isProper : ∀ {steps : List Step} {entries : List (String × Json)},
    SpellsSteps steps entries → ∀ entry ∈ entries, entry.2.IsProper
  | _, _, .nil => nofun
  | _, _, .negate next => next.isProper
  | _, _, .add first next => List.forall_mem_cons.mpr ⟨first.isProper, next.isProper⟩

end

end Builder

open Builder

/-- What is read stands for the filter that is built: it compiles to the same, whatever it is
compiled for, and it is that very filter if every condition in it has an operator, every range a
bound, and no bound is null. -/
structure Filter.StandsFor (filter built : Filter) : Prop where
  compile_eq : ∀ target entity, filter.compile target entity = built.compile target entity
  eq_of_areTight : Clause.AreTight built.clauses → filter = built

theorem Filter.standsFor_tidy (filter : Filter) : filter.tidy.StandsFor filter where
  compile_eq target entity := Filter.compile_tidy target entity filter
  eq_of_areTight := Filter.tidy_of_isTight

/-- **Filters that are built and filters that are read agree**, but for floats that are misread.
The steps of building a filter are spelled by some document, and a document within the limit by its
own text, among others.  Whatever text spells it, with no number that the reader cannot hold, is
read as a value that spells the same steps, each float of them taken for one that a numeral nearest
to it is read as, and the text is read as the filter that is built in these steps.  Where the text
is read as the document itself, so that no float is misread, it is the filter that is built. -/
theorem built_filters_read_back (steps : List Step) :
    (∃ document, SpellsValue (.nested steps) document)
    ∧ ∀ document, SpellsValue (.nested steps) document → document.nesting ≤ maxDepth →
      SpellsAs held document.compact document
      ∧ ∀ text, SpellsAs held text document → ∃ value taken filter,
        Spells text value
        ∧ SpellsValue (.nested taken) value
        ∧ StepsAreReadAs steps taken
        ∧ (Document.ofText text).read Filter.reader = .ok filter
        ∧ filter.StandsFor (build taken .empty)
        ∧ (Clause.AreTight (build taken .empty).clauses
          ↔ Clause.AreTight (build steps .empty).clauses)
        ∧ (Spells text document → filter.StandsFor (build steps .empty)) := by
  refine ⟨exists_spellsValue (.nested steps), fun document hdocument hdepth =>
    ⟨Json.spellsAs_held_compact hdocument.isProper, fun text htext => ?_⟩⟩
  obtain ⟨value, hspells, hread⟩ := Json.exists_spells_of_held htext
  obtain ⟨asked, htaken, hvalue⟩ := hdocument.exists_isReadAs hread
  cases htaken with
  | @nested _ taken htaken =>
    have hfilter := read_of_spells hvalue hspells (hread.nesting_eq ▸ hdepth)
    refine ⟨value, taken, _, hspells, hvalue, htaken, hfilter, Filter.standsFor_tidy _,
      areTight_build_iff htaken.related_pairs, fun hsame => ?_⟩
    have hbuilt := read_of_spells hdocument hsame hdepth
    rw [Except.ok.inj (hfilter.symm.trans hbuilt)]
    exact Filter.standsFor_tidy _

/-- A leap day, by its date. -/
def leapDate : Constant := .date "2020-02-29" ⟨1582934400, 0⟩ (by decide +kernel)

/-- None of this holds of strangers: a name without a `J` in front, put in the place of `Ann`, a
date after the leap day, a height, and a father. -/
def strangers : List Step := [
  .add "name" rfl (.scalar (.text "Ann")),
  .negate,
  .add "since" rfl (.condition (.greaterThan leapDate) 2),
  .add "name" rfl (.condition (.like (.text "J%")) 3),
  .add "height" rfl (.scalar (.float ⟨0x3ff8000000000000⟩ rfl)),
  .add "father" rfl (.nested [.negate])]

/-- A document that spells them. -/
def strangersDocument : Json := .obj [
  ("name", .str "Ann"),
  (Key.negation, .bool true),
  ("since", .obj [(Key.greater, leapDate.json), (Key.lesser, .null)]),
  ("name", .obj [(Key.like, .str "J%"), (Key.negation, .bool true)]),
  ("height", .num (.real ⟨0x3ff8000000000000⟩)),
  ("father", .obj [(Key.negation, .bool true)])]

/-- A condition that is negated twice has no mark, and one that is negated three times has one. -/
theorem spellsValue_strangers : SpellsValue (.nested strangers) strangersDocument := by
  have hsince : SpellsValue (.condition (.greaterThan leapDate) 2)
      (.obj [(Key.greater, leapDate.json), (Key.lesser, .null)]) :=
    .condition (.greaterThan leapDate)
      ⟨rfl, by simp [Key.greater, Key.lesser, Key.negation], fun h => absurd h (by decide)⟩
  have hname : SpellsValue (.condition (.like (.text "J%")) 3)
      (.obj [(Key.like, .str "J%"), (Key.negation, .bool true)]) :=
    .condition (.like _) ⟨rfl, by simp [Key.like, Key.negation], fun _ => by decide⟩
  have hfather : SpellsValue (.nested [.negate]) (.obj [(Key.negation, .bool true)]) :=
    .nested (.negate .nil) (.cons List.not_mem_nil)
  exact .nested (.add (.scalar _) (.negate (.add hsince (.add hname
      (.add (.scalar (.float _ _)) (.add hfather .nil))))))
    ⟨rfl, by simp [Key.negation, strangers, negations], fun _ => by decide⟩

/-- The filter that is built. -/
theorem build_strangers : build strangers .empty = ⟨true, [
    ("name", .condition ⟨.like (.text "J%"), true⟩),
    ("since", .condition ⟨.range (some leapDate.scalar) none, false⟩),
    ("height", .value (.float ⟨0x3ff8000000000000⟩)),
    ("father", .nested true [])]⟩ := rfl

/-- Their document is read as the filter itself. -/
theorem strangers_read_back : SpellsValue (.nested strangers) strangersDocument
    ∧ strangersDocument.nesting ≤ maxDepth
    ∧ SpellsAs held strangersDocument.compact strangersDocument
    ∧ Spells strangersDocument.compact strangersDocument
    ∧ (Document.ofText strangersDocument.compact).read Filter.reader
      = .ok (build strangers .empty) := by
  have hspells := spellsValue_strangers
  have hdepth : strangersDocument.nesting ≤ maxDepth := by decide
  have hself : strangersDocument.mapDoubles Binary64.reread = strangersDocument :=
    Json.mapDoubles_eq_self_iff.mpr (by decide +kernel)
  have htext := Json.spells_compact hspells.isProper
  rw [hself] at htext
  have htight : Clause.AreTight (build strangers .empty).clauses := by
    rw [build_strangers]
    simp [Clause.AreTight, Clause.IsTight, Test.IsTight, leapDate, Constant.scalar]
  obtain ⟨hheld, hread⟩ := (built_filters_read_back strangers).2 _ hspells hdepth
  obtain ⟨_, _, filter, -, -, -, hfilter, -, -, hbuilt⟩ := hread _ hheld
  rw [(hbuilt htext).eq_of_areTight htight] at hfilter
  exact ⟨hspells, hdepth, hheld, htext, hfilter⟩

/-- A float of which the text is read as the one before. -/
def misread : List Step :=
  [.add "age" rfl (.scalar (.float ⟨0x3a1890c78092b4d4⟩ rfl))]

/-- The filter that is built asks for it, and the one that is read asks for the one before. -/
theorem misread_compiles_apart :
    SpellsValue (.nested misread) (.obj [("age", .num (.real ⟨0x3a1890c78092b4d4⟩))])
      ∧ (Json.obj [("age", .num (.real ⟨0x3a1890c78092b4d4⟩))]).nesting ≤ maxDepth
      ∧ SpellsAs held "\x7b\"age\":7.751518962134485e-29\x7d"
        (.obj [("age", .num (.real ⟨0x3a1890c78092b4d4⟩))])
      ∧ ∃ filter, (Document.ofText "\x7b\"age\":7.751518962134485e-29\x7d").read Filter.reader
          = .ok filter
        ∧ filter.compile ⟨Graph.People.graph, .generic⟩ "person"
          ≠ (build misread .empty).compile ⟨Graph.People.graph, .generic⟩ "person" := by
  have hspells (x : Binary64) (isFinite : x.isFinite = true) :
      SpellsValue (.nested [.add "age" rfl (.scalar (.float x isFinite))])
        (.obj [("age", .num (.real x))]) :=
    .nested (.add (.scalar (.float x isFinite)) .nil)
      ⟨rfl, by simp [Key.negation], by simp [negations]⟩
  have hproper := (hspells ⟨0x3a1890c78092b4d4⟩ rfl).isProper
  have htext : (Json.obj [("age", .num (.real ⟨0x3a1890c78092b4d4⟩))]).compact
      = "\x7b\"age\":7.751518962134485e-29\x7d" := by decide +kernel
  have hread := htext ▸ Json.spells_missed "age"
  refine ⟨hspells _ rfl, by decide, htext ▸ Json.spellsAs_held_compact hproper, _,
    read_of_spells (hspells _ rfl) hread (by decide), ?_⟩
  decide +kernel

end EntityQuery
