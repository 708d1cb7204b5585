import EntityQuery.Proofs.Filter.Accepted
import EntityQuery.Proofs.Filter.Marked
import EntityQuery.Proofs.Filter.Refusal

/-!
# Proofs/Filter/Sites — the places of a document at which a filter is read as scalars

    { field: 1, other: { $_eq: [2, 3], $_gt: null }, link: { field: { $_lt: 4 } } }
             ^                  ^  ^                                        ^

`Json.filterSites` lists the values of a document that stand where a scalar may stand, and
`Filter.leaves` the scalars that a filter holds at every depth.  A filter that is read has the one
for the other, in order and one for one (`Filter.reads_sites`).

The recursion is that of the reader.  Two inputs: the members of a condition are looked up by key,
so their order does not matter (`Condition.reads_sites`), and a group keeps the clauses that do not
stand under `$_not` (`Filter.clauses_of_ofEntries`).
-/

namespace EntityQuery

/-! ## Sites -/

namespace Json

/-- The scalars of an operand: the items of an array, or the value itself. -/
def operandSites : Json → List Json
  | .arr items => items
  | value => [value]

/-- The scalar of a bound, unless it is left out. -/
def boundSites : Json → List Json
  | .null => []
  | value => [value]

/-- The scalars under the operators of a condition. -/
def conditionSites (members : List (String × Json)) : List Json :=
  Record.said members Key.equal operandSites [] ++ Record.said members Key.like ([·]) []
    ++ Record.said members Key.greater boundSites []
    ++ Record.said members Key.lesser boundSites []

mutual

/-- The scalars of what stands under a field. -/
def clauseSites : Json → List Json
  | .arr items => items
  | .obj members =>
      if Key.marksScalar members then [.obj members]
      else if Condition.isMarked members then conditionSites members
      else groupSites members
  | scalar => [scalar]

/-- The scalars of a group; its negation is none. -/
def groupSites : List (String × Json) → List Json
  | [] => []
  | (key, value) :: rest =>
      (if key = Key.negation then [] else clauseSites value) ++ groupSites rest

end

/-- The scalars that are written in a filter, those under repeated keys included. -/
def writtenClauses (members : List (String × Json)) : List Json :=
  (settleMembers members).flatMap fun member => member.2.clauseSites

/-- The scalars of a filter once its repeated keys are merged. -/
def filterSites (members : List (String × Json)) : List Json :=
  groupSites (Entries.ofList (settleMembers members))

/-- A site is read as a scalar. -/
def ReadsAs (site : Json) (scalar : Scalar) : Prop :=
  site.IsSettled ∧ Scalar.ofJson site = .ok scalar

theorem settledMembers_iff {members : List (String × Json)} :
    SettledMembers members ↔ ∀ member ∈ members, member.2.IsSettled := by
  induction members with
  | nil => exact ⟨fun _ => List.forall_mem_nil _, fun _ => trivial⟩
  | cons member rest ih => rw [List.forall_mem_cons, ← ih, SettledMembers]

end Json

open Json (ReadsAs)

/-! ## Leaves -/

mutual

/-- The scalars that a clause compares with, those of its filter included. -/
def Clause.leaves : Clause → List Scalar
  | .nested _ clauses => clauseLeaves clauses
  | clause => clause.held

/-- The scalars that clauses compare with. -/
def clauseLeaves : List (String × Clause) → List Scalar
  | [] => []
  | (_, clause) :: rest => clause.leaves ++ clauseLeaves rest

end

/-- The scalars that a filter compares with, at every depth. -/
def Filter.leaves (filter : Filter) : List Scalar :=
  clauseLeaves filter.clauses

/-! ## Conditions -/

theorem Scalar.reads_singleton {value : Json} {scalar : Scalar} (h : value.ReadsAs scalar) :
    List.Forall₂ ReadsAs [value] [scalar] :=
  .cons h .nil

theorem Scalar.reads_items {items : List Json} (hsettled : Json.SettledItems items)
    {scalars : List Scalar} (h : items.mapM ofJson = .ok scalars) :
    List.Forall₂ ReadsAs items scalars :=
  (List.forall₂_and_left items scalars).mpr
    ⟨Json.isSettled_of_mem_items hsettled, Except.mapM_eq_ok_iff.mp h⟩

theorem Operand.reads_sites {value : Json} (hsettled : value.IsSettled) {operand : Operand}
    (h : ofJson value = .ok operand) :
    List.Forall₂ ReadsAs value.operandSites (Test.equal operand).scalars := by
  simp only [ofJson, Except.mapError_eq_ok] at h
  cases value with
  | arr items =>
    obtain ⟨scalars, hread, rfl⟩ := Except.map_eq_ok.mp h
    exact Scalar.reads_items hsettled hread
  | _ =>
    obtain ⟨scalar, hread, rfl⟩ := Except.map_eq_ok.mp h
    exact Scalar.reads_singleton ⟨hsettled, hread⟩

namespace Condition

theorem reads_bound {value : Json} (hsettled : value.IsSettled) {bound : Option Scalar}
    (h : boundOf value = .ok bound) : List.Forall₂ ReadsAs value.boundSites bound.toList := by
  by_cases hnull : value = .null
  · subst hnull
    obtain rfl := Except.ok.inj h
    exact .nil
  · have hsites : value.boundSites = [value] := by
      cases value with
      | null => exact absurd rfl hnull
      | _ => rfl
    rw [boundOf_of_ne_null hnull] at h
    obtain ⟨scalar, hread, rfl⟩ := Except.map_eq_ok.mp h
    rw [hsites]
    exact Scalar.reads_singleton ⟨hsettled, hread⟩

/-- The scalars of an operand, if there is one. -/
def operandScalars : Option Operand → List Scalar
  | none => []
  | some operand => (Test.equal operand).scalars

/-- The scalars of the keys of a condition, operator by operator. -/
def Parts.scalars (parts : Parts) : List Scalar :=
  operandScalars parts.operand ++ parts.pattern.toList ++ parts.above.toList ++ parts.below.toList

/-- A condition has the scalars of its keys. -/
theorem Parts.scalars_of_condition {parts : Parts} {condition : Condition}
    (h : parts.condition = .ok condition) : condition.test.scalars = parts.scalars := by
  obtain ⟨operand, pattern, above, below, negated⟩ := parts
  rcases operand with _ | operand <;> rcases pattern with _ | pattern <;>
    rcases above with _ | above <;> rcases below with _ | below <;>
    cases h <;> simp [Parts.scalars, operandScalars, Test.scalars]

section

variable {members : List (String × Json)} (hsettled : Json.SettledMembers members)
  (hread : ∀ member ∈ members, ∃ change, record.update member = .ok change)

include hsettled hread

/-- The scalars under a key are those of what the key says. -/
theorem reads_key {α β : Type} {key : String} {sites : Json → List Json}
    {read : Json → Except Complaint α} {change : α → Parts → Parts}
    {scalars : Option β → List Scalar} (meaning : Except Complaint α → Option β)
    (hupdate : ∀ value, record.update (key, value) = (read value).map change)
    (hnone : scalars none = [])
    (hsites : ∀ {value a}, value.IsSettled → read value = .ok a →
      List.Forall₂ ReadsAs (sites value) (scalars (meaning (.ok a)))) :
    List.Forall₂ ReadsAs (Record.said members key sites [])
      (scalars (Record.said members key (fun value => meaning (read value)) none)) := by
  rw [Record.said, Record.said]
  rcases hget : Entries.get? members key with _ | value
  · rw [Option.map_none, Option.map_none, Option.getD_none, Option.getD_none, hnone]
    exact .nil
  · have hmem := Entries.mem_of_get? hget
    obtain ⟨a, ha⟩ := Except.exists_map_eq_ok.mp (hupdate value ▸ hread _ hmem)
    rw [Option.map_some, Option.map_some, Option.getD_some, Option.getD_some, ha]
    exact hsites (Json.isSettled_of_mem_members hsettled _ hmem) ha

/-- The keys of a condition hold what stands under them. -/
theorem reads_parts : List.Forall₂ ReadsAs (Json.conditionSites members)
    (Parts.ofMembers {} members).scalars := by
  have hequal : List.Forall₂ ReadsAs (Record.said members Key.equal Json.operandSites [])
      (operandScalars (Parts.ofMembers {} members).operand) :=
    reads_key hsettled hread Except.toOption update_equal rfl
      fun hvalue hoperand => Operand.reads_sites hvalue hoperand
  have hlike : List.Forall₂ ReadsAs (Record.said members Key.like ([·]) [])
      (Parts.ofMembers {} members).pattern.toList :=
    reads_key hsettled hread Except.toOption update_like rfl
      fun hvalue hpattern => Scalar.reads_singleton ⟨hvalue, hpattern⟩
  have habove : List.Forall₂ ReadsAs (Record.said members Key.greater Json.boundSites [])
      (Parts.ofMembers {} members).above.toList :=
    reads_key hsettled hread (·.toOption.join) update_greater rfl
      fun hvalue hbound => reads_bound hvalue hbound
  have hbelow : List.Forall₂ ReadsAs (Record.said members Key.lesser Json.boundSites [])
      (Parts.ofMembers {} members).below.toList :=
    reads_key hsettled hread (·.toOption.join) update_lesser rfl
      fun hvalue hbound => reads_bound hvalue hbound
  exact List.rel_append (List.rel_append (List.rel_append hequal hlike) habove) hbelow

end

/-- **A condition holds what stands under its operators.** -/
theorem reads_sites {source : Source} {members : List (String × Json)}
    (hnodup : (Entries.names members).Nodup) (hsettled : Json.SettledMembers members)
    {condition : Condition}
    (h : ofNode source (Node.ofJson (.obj members)) = .ok condition) :
    List.Forall₂ ReadsAs (Json.conditionSites members) condition.test.scalars := by
  obtain ⟨hread, hcondition⟩ := (ofNode_eq_ok hnodup).mp h
  rw [Parts.scalars_of_condition hcondition]
  exact reads_parts hsettled hread

end Condition

/-! ## Groups -/

namespace Filter

/-- Taking an entry in adds its clause, unless it is the negation. -/
theorem clauses_of_addEntry {filter next : Filter} {key : String} {clause : Clause}
    (h : filter.addEntry key clause = .ok next) :
    next.clauses
      = if key = Key.negation then filter.clauses else filter.clauses.put key clause := by
  unfold addEntry at h
  split at h
  · next hkey =>
    rw [if_pos hkey]
    cases clause with
    | value scalar =>
      cases scalar with
      | bool negated =>
        cases h
        rfl
      | _ => contradiction
    | _ => contradiction
  · next hkey =>
    rw [if_neg hkey]
    split at h
    · contradiction
    · rw [← Except.ok.inj h]
      rfl

/-- **A group has the clauses that do not stand under the negation**, put one after the other. -/
theorem clauses_of_ofEntries {entries : Entries Clause} {filter : Filter} :
    ofEntries entries = .ok filter → filter.clauses = Entries.ofList (unmarked entries) := by
  have hfrom (start : Filter)
      (h : entries.foldlM (fun filter entry => filter.addEntry entry.1 entry.2) start
        = .ok filter) :
      filter.clauses = (unmarked entries).foldl
        (fun entries pair => entries.put pair.1 pair.2) start.clauses := by
    induction entries generalizing start with
    | nil =>
      obtain rfl := Except.ok.inj h
      rfl
    | cons entry rest ih =>
      obtain ⟨key, clause⟩ := entry
      obtain ⟨next, hnext, hrest⟩ := Except.bind_eq_ok.mp (List.foldlM_cons.symm.trans h)
      rw [ih next hrest, clauses_of_addEntry hnext]
      by_cases hkey : key = Key.negation
      · subst hkey
        rw [if_pos rfl, unmarked_flag]
      · rw [if_neg hkey, unmarked_cons hkey, List.foldl_cons]
  exact hfrom empty

/-- Where no key stands twice, a group has its own clauses. -/
theorem clauses_of_nodup {entries : Entries Clause} (hnodup : entries.names.Nodup)
    {filter : Filter} (h : ofEntries entries = .ok filter) : filter.clauses = unmarked entries := by
  have hunmarked : (Entries.names (unmarked entries)).Nodup :=
    (List.filter_sublist.map Prod.fst).nodup hnodup
  rw [clauses_of_ofEntries h, Entries.ofList_of_nodup hunmarked]

end Filter

namespace Clause

/-- A value by itself is its own site. -/
theorem reads_value {json : Json} (hsites : json.clauseSites = [json]) (hsettled : json.IsSettled)
    {clause : Clause} (h : (Scalar.ofJson json).map Clause.value = .ok clause) :
    List.Forall₂ ReadsAs json.clauseSites clause.leaves := by
  obtain ⟨scalar, hread, rfl⟩ := Except.map_eq_ok.mp h
  rw [hsites]
  exact Scalar.reads_singleton ⟨hsettled, hread⟩

mutual

/-- A clause holds what stands at its sites. -/
theorem reads_sites : ∀ {json : Json}, json.IsSettled → ∀ {clause : Clause},
    ofJson json = .ok clause → List.Forall₂ ReadsAs json.clauseSites clause.leaves
  | .null, hsettled, _, h | .bool _, hsettled, _, h | .num _, hsettled, _, h
  | .str _, hsettled, _, h => reads_value rfl hsettled h
  | .arr items, hsettled, clause, h => by
      obtain ⟨scalars, hread, rfl⟩ := Except.map_eq_ok.mp h
      exact Scalar.reads_items hsettled hread
  | .obj members, hsettled, clause, h => by
      by_cases hscalar : Key.marksScalar members = true
      · have hsites : (Json.obj members).clauseSites = [.obj members] := by
          rw [Json.clauseSites, if_pos hscalar]
        rw [ofJson, if_pos hscalar] at h
        exact reads_value hsites hsettled h
      · rw [Json.clauseSites, if_neg hscalar]
        by_cases hcondition : Condition.isMarked members = true
        · rw [ofJson, if_neg hscalar, if_pos hcondition] at h
          obtain ⟨condition, hread, rfl⟩ := Except.map_eq_ok.mp h
          rw [if_pos hcondition]
          exact Condition.reads_sites hsettled.1 hsettled.2 hread
        · rw [ofJson_group hscalar hcondition] at h
          obtain ⟨filter, hfilter, rfl⟩ := Except.map_eq_ok.mp h
          obtain ⟨entries, hentries, hfilter⟩ := Except.bind_eq_ok.mp hfilter
          -- no key stands twice, so no clause is put in the place of another
          have hnodup : (Entries.names entries).Nodup := names_of_ofMembers hentries ▸ hsettled.1
          rw [if_neg hcondition, Filter.toClause, leaves, Filter.clauses_of_nodup hnodup hfilter]
          exact reads_groupSites hsettled.2 hentries

/-- Clauses hold what stands at the sites of their members. -/
theorem reads_groupSites : ∀ {members : List (String × Json)}, Json.SettledMembers members →
    ∀ {entries : List (String × Clause)}, ofMembers members = .ok entries →
      List.Forall₂ ReadsAs (Json.groupSites members) (clauseLeaves (unmarked entries))
  | [], _, entries, h => by
      obtain rfl := Except.ok.inj h
      exact .nil
  | (key, json) :: rest, hsettled, entries, h => by
      obtain ⟨clause, hclause, h⟩ := Except.bind_eq_ok.mp h
      obtain ⟨others, hothers, h⟩ := Except.bind_eq_ok.mp h
      obtain rfl := Except.ok.inj h
      have hfirst := reads_sites hsettled.1 hclause
      have hrest := reads_groupSites hsettled.2 hothers
      rw [Json.groupSites]
      by_cases hkey : key = Key.negation
      · subst hkey
        rw [if_pos rfl, unmarked_flag, List.nil_append]
        exact hrest
      · rw [if_neg hkey, unmarked_cons hkey, clauseLeaves]
        exact List.rel_append hfirst hrest

end

end Clause

/-! ## Filters -/

namespace Filter

/-- Merging the members of an object merges the clauses that they spell. -/
theorem ofMembers_merged {members : List (String × Json)} {clauses : Entries Clause}
    (h : Clause.ofMembers (Json.settleMembers members) = .ok clauses) :
    Clause.ofMembers (Entries.ofList (Json.settleMembers members))
      = .ok (Entries.ofList clauses) :=
  Clause.ofMembers_eq_ok_iff.mpr (Clause.ofMembers_eq_ok_iff.mp h).ofList

/-- **A filter that is read holds what stands at its sites**, in order and one for one. -/
theorem reads_sites {members : List (String × Json)}
    (hsettled : (Json.obj members).settle.IsSettled) {filter : Filter}
    (h : ofNode (Node.ofJson (.obj members)) = .ok filter) :
    List.Forall₂ ReadsAs (Json.filterSites members) filter.leaves := by
  rw [ofNode_ofJson] at h
  obtain ⟨clauses, hclauses, hfilter⟩ := Except.bind_eq_ok.mp h
  rw [leaves, clauses_of_nodup (Entries.nodup_names_ofList clauses) hfilter]
  exact Clause.reads_groupSites hsettled.2 (ofMembers_merged hclauses)

/-- What is merged away is read as well. -/
theorem reads_written {members : List (String × Json)}
    (hsettled : ∀ member ∈ Json.settleMembers members, member.2.IsSettled) {filter : Filter}
    (h : ofNode (Node.ofJson (.obj members)) = .ok filter) :
    ∃ scalars, List.Forall₂ ReadsAs (Json.writtenClauses members) scalars := by
  rw [ofNode_ofJson] at h
  obtain ⟨clauses, hclauses, -⟩ := Except.bind_eq_ok.mp h
  have hrelated := (List.forall₂_and_left (Json.settleMembers members) clauses).mpr
    ⟨hsettled, Clause.ofMembers_eq_ok_iff.mp hclauses⟩
  exact ⟨clauses.flatMap fun entry : String × Clause => entry.2.leaves, List.rel_flatMap hrelated
    fun _ _ hclause => Clause.reads_sites hclause.1 hclause.2.2⟩

/-- A filter is read off an object if every member spells a clause, one that is merged away as well,
and the others make up a group. -/
theorem exists_ofNode_eq_ok {members : List (String × Json)}
    (hsettled : ∀ member ∈ Json.settleMembers members, member.2.IsSettled) :
    (∃ filter, ofNode (Node.ofJson (.obj members)) = .ok filter)
      ↔ (∀ member ∈ Json.settleMembers members, Grammar.IsClause member.2)
        ∧ Grammar.IsGroup (Entries.ofList (Json.settleMembers members)) := by
  have hmerged : Json.SettledMembers (Entries.ofList (Json.settleMembers members)) :=
    Json.settledMembers_iff.mpr fun member hmember =>
      hsettled member (Entries.mem_of_mem_ofList hmember)
  have hclauses : (∃ clauses, Clause.ofMembers (Json.settleMembers members) = .ok clauses)
      ↔ ∀ member ∈ Json.settleMembers members, Grammar.IsClause member.2 := by
    rw [Clause.ofMembers_eq_mapM, Except.exists_mapM_eq_ok]
    exact forall₂_congr fun member hmember =>
      Except.exists_map_eq_ok.trans (Clause.exists_ofJson_eq_ok (hsettled member hmember))
  rw [ofNode_ofJson, ← hclauses, ← Clause.exists_ofMembers_eq_ok hmerged]
  constructor
  · rintro ⟨filter, h⟩
    obtain ⟨clauses, hclauses, hfilter⟩ := Except.bind_eq_ok.mp h
    exact ⟨⟨clauses, hclauses⟩, filter,
      Except.bind_eq_ok.mpr ⟨_, ofMembers_merged hclauses, hfilter⟩⟩
  · rintro ⟨⟨clauses, hclauses⟩, filter, h⟩
    obtain ⟨merged, hmerged, hfilter⟩ := Except.bind_eq_ok.mp h
    obtain rfl := Except.ok.inj ((ofMembers_merged hclauses).symm.trans hmerged)
    exact ⟨filter, Except.bind_eq_ok.mpr ⟨clauses, hclauses, hfilter⟩⟩

end Filter

end EntityQuery
