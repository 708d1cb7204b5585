import EntityQuery.Proofs.Json.Proper
import EntityQuery.Proofs.Request.Integers

/-!
# Proofs/Request/Finite — the doubles that are bound are finite

A tree whose numbers fit (`Node.IsProper`) has no double that is not finite, so neither have the
filters, requests and rows that are read off it (`Filter.isFinite_of_reader`,
`Request.isFinite_of_ofNode`, `Row.isFinite_of_readAll`), nor what they are compiled to
(`Filter.isFinite_params`, `Request.isFinite_params`, `Row.isFinite_params`).

Every scalar of a filter stands at a site of the document (`Clause.reads_sites`), and a site is part
of it (`Json.IsProper.clauseSites`).
-/

namespace EntityQuery

open Json (ReadsAs)

/-- A scalar that is a double is finite. -/
def Scalar.IsFinite : Scalar → Prop
  | .float value => value.isFinite = true
  | _ => True

/-- A parameter that is a double is finite. -/
def Sql.Value.IsFinite : Sql.Value → Prop
  | .float value => value.isFinite = true
  | _ => True

theorem Scalar.IsFinite.toValue {scalar : Scalar} (h : scalar.IsFinite) {dialect : Dialect}
    {value : Sql.Value} (hvalue : scalar.toValue dialect = .ok value) : value.IsFinite := by
  cases scalar with
  | float x =>
    obtain rfl := Except.ok.inj hvalue
    exact h
  | bool truth =>
    obtain rfl := Except.ok.inj hvalue
    cases dialect.booleans <;> trivial
  | pending reference => exact nomatch hvalue
  | _ =>
    obtain rfl := Except.ok.inj hvalue
    trivial

/-! ## Sites -/

namespace Json

/-- A proper value is settled once its repeated keys are merged. -/
theorem IsProper.isSettled {value : Json} (h : value.IsProper) : value.settle.IsSettled := by
  induction h with
  | null | bool _ | str _ => trivial
  | num proper =>
    rename_i number
    cases number with
    | integer n => exact proper
    | real x => trivial
  | arr _ ih =>
    rename_i items _
    rw [Json.settle]
    clear * - ih
    induction items with
    | nil => trivial
    | cons item rest ihrest =>
      obtain ⟨hitem, hrest⟩ := List.forall_mem_cons.mp ih
      exact ⟨hitem, ihrest hrest⟩
  | obj _ ih =>
    rw [Json.settle, settleMembers_eq_mapValues]
    refine ⟨Entries.nodup_names_ofList _, settledMembers_iff.mpr fun member hmember => ?_⟩
    obtain ⟨entry, hentry, rfl⟩ := List.mem_map.mp (Entries.mem_of_mem_ofList hmember)
    exact ih entry hentry

/-- What a key says is said of one of the members. -/
theorem exists_of_mem_said {members : List (String × Json)} {key : String}
    {sites : Json → List Json} {site : Json} (h : site ∈ Record.said members key sites []) :
    ∃ member ∈ members, site ∈ sites member.2 := by
  rw [Record.said] at h
  rcases hget : Entries.get? members key with _ | value
  · rw [hget] at h
    exact absurd h List.not_mem_nil
  · rw [hget] at h
    exact ⟨_, Entries.mem_of_get? hget, h⟩

section

variable {value : Json} (h : value.IsProper)

include h

theorem IsProper.operandSites : ∀ site ∈ value.operandSites, site.IsProper := by
  have hself : ∀ site ∈ [value], site.IsProper := List.forall_mem_singleton.mpr h
  cases h with
  | arr proper => exact proper
  | _ => exact hself

theorem IsProper.boundSites : ∀ site ∈ value.boundSites, site.IsProper := by
  have hself : ∀ site ∈ [value], site.IsProper := List.forall_mem_singleton.mpr h
  cases h with
  | null => exact nofun
  | _ => exact hself

theorem IsProper.cellSites : ∀ site ∈ value.cellSites, site.IsProper := by
  have hself : ∀ site ∈ [value], site.IsProper := List.forall_mem_singleton.mpr h
  cases h with
  | arr => exact List.forall_mem_nil _
  | obj =>
    rw [Json.cellSites]
    split
    · exact hself
    · exact List.forall_mem_nil _
  | _ => exact hself

end

/-- The sites of a condition are parts of its members. -/
theorem isProper_of_mem_conditionSites {members : List (String × Json)}
    (h : ∀ member ∈ members, member.2.IsProper) : ∀ site ∈ conditionSites members,
      site.IsProper := by
  intro site hsite
  rw [conditionSites, List.mem_append, List.mem_append, List.mem_append] at hsite
  rcases hsite with ((hsite | hsite) | hsite) | hsite
  all_goals obtain ⟨member, hmember, hsite⟩ := exists_of_mem_said hsite
  · exact (h member hmember).operandSites site hsite
  · obtain rfl := List.mem_singleton.mp hsite
    exact h member hmember
  · exact (h member hmember).boundSites site hsite
  · exact (h member hmember).boundSites site hsite

/-- A site of a group lies in one of its members. -/
theorem exists_of_mem_groupSites {members : List (String × Json)} {site : Json}
    (h : site ∈ groupSites members) : ∃ member ∈ members, site ∈ member.2.clauseSites := by
  induction members with
  | nil => exact nomatch h
  | cons member rest ih =>
    rw [groupSites, List.mem_append] at h
    rcases h with h | h
    · split at h
      · exact nomatch h
      · exact ⟨member, List.mem_cons_self, h⟩
    · obtain ⟨other, hother, hsite⟩ := ih h
      exact ⟨other, List.mem_cons_of_mem _ hother, hsite⟩

/-- **The sites of a proper value are proper.** -/
theorem IsProper.clauseSites {value : Json} (h : value.IsProper) :
    ∀ site ∈ value.clauseSites, site.IsProper := by
  induction h with
  | null => exact List.forall_mem_singleton.mpr .null
  | bool truth => exact List.forall_mem_singleton.mpr (.bool truth)
  | num proper => exact List.forall_mem_singleton.mpr (.num proper)
  | str text => exact List.forall_mem_singleton.mpr (.str text)
  | arr proper _ => exact proper
  | obj proper ih =>
    rw [Json.clauseSites]
    split
    · exact List.forall_mem_singleton.mpr (.obj proper)
    · split
      · exact isProper_of_mem_conditionSites proper
      · intro site hsite
        obtain ⟨member, hmember, hsite⟩ := exists_of_mem_groupSites hsite
        exact ih member hmember site hsite

/-- A scalar that is read off a proper value is finite. -/
theorem ReadsAs.isFinite {site : Json} {scalar : Scalar} (h : site.ReadsAs scalar)
    (hsite : site.IsProper) : scalar.IsFinite := by
  obtain ⟨-, hread⟩ := h
  cases hsite with
  | num proper =>
    rename_i number
    cases number with
    | real x =>
      obtain rfl := Except.ok.inj hread
      exact proper
    | integer n =>
      rw [Scalar.ofJson] at hread
      split at hread
      · obtain rfl := Except.ok.inj hread
        trivial
      · contradiction
  | arr => contradiction
  | obj =>
    rw [Scalar.ofJson] at hread
    split at hread
    · rw [Scalar.ofDateText] at hread
      split at hread
      · obtain rfl := Except.ok.inj hread
        trivial
      · contradiction
    · split at hread
      · obtain rfl := Except.ok.inj hread
        trivial
      · contradiction
  | _ =>
    obtain rfl := Except.ok.inj hread
    trivial

/-- What is read off proper sites is finite. -/
theorem isFinite_of_reads {sites : List Json} {scalars : List Scalar}
    (h : List.Forall₂ ReadsAs sites scalars) (hsites : ∀ site ∈ sites, site.IsProper) :
    ∀ scalar ∈ scalars, scalar.IsFinite := by
  induction h with
  | nil => exact nofun
  | cons hread _ ih =>
    obtain ⟨hsite, hrest⟩ := List.forall_mem_cons.mp hsites
    exact List.forall_mem_cons.mpr ⟨hread.isFinite hsite, ih hrest⟩

end Json

/-! ## Documents -/

namespace Node.IsProper

variable {α : Type} {node : Node} (h : node.IsProper)

include h

/-- Entries are read off proper values. -/
theorem exists_of_readEntries {read : Node → Except Complaint α} {entries : Entries α}
    (hread : node.readEntries read = .ok entries) :
    ∀ entry ∈ entries, ∃ value : Node, value.IsProper ∧ read value = .ok entry.2 := by
  cases h with
  | obj proper stop =>
    rename_i members
    obtain ⟨pairs, hpairs, hread⟩ := Except.bind_eq_ok.mp hread
    obtain ⟨-, -, hread⟩ := Except.bind_eq_ok.mp hread
    obtain rfl := Except.ok.inj hread
    intro entry hentry
    obtain ⟨member, hmember, hvalue⟩ :=
      Except.exists_of_mem_mapM hpairs entry (Entries.mem_of_mem_ofList hentry)
    obtain ⟨key, -, hvalue⟩ := Except.bind_eq_ok.mp hvalue
    obtain ⟨value, hread, heq⟩ := Except.bind_eq_ok.mp hvalue
    obtain rfl := Except.ok.inj heq
    exact ⟨member.2, proper member hmember, hread⟩
  | _ => exact nomatch hread

/-- Items are read off proper values. -/
theorem exists_of_readItems {read : Node → Except Complaint α} {values : List α}
    (hread : node.readItems read = .ok values) :
    ∀ value ∈ values, ∃ item : Node, item.IsProper ∧ read item = .ok value := by
  cases h with
  | arr proper stop =>
    obtain ⟨others, hothers, hread⟩ := Except.bind_eq_ok.mp hread
    obtain ⟨-, -, hread⟩ := Except.bind_eq_ok.mp hread
    obtain rfl := Except.ok.inj hread
    intro value hvalue
    obtain ⟨item, hitem, hvalue⟩ := Except.exists_of_mem_mapM hothers value hvalue
    exact ⟨item, proper item hitem, hvalue⟩
  | _ => exact nomatch hread

end Node.IsProper

/-- A leaf of a group is one of a clause in it. -/
theorem mem_clauseLeaves {clauses : List (String × Clause)} {scalar : Scalar} :
    scalar ∈ clauseLeaves clauses ↔ ∃ entry ∈ clauses, scalar ∈ entry.2.leaves := by
  induction clauses with
  | nil => exact ⟨nofun, nofun⟩
  | cons entry rest ih => rw [clauseLeaves, List.mem_append, ih, List.exists_mem_cons_iff]

/-- The scalars of a clause are finite that is read off a proper tree. -/
theorem Clause.isFinite_of_ofNode {node : Node} (h : node.IsProper) {clause : Clause}
    (hread : ofNode node = .ok clause) : ∀ scalar ∈ clause.leaves, scalar.IsFinite := by
  obtain ⟨value, hvalue, hclause⟩ := Except.bind_eq_ok.mp hread
  obtain ⟨content, hcontent, rfl⟩ := Except.map_eq_ok.mp (Except.mapError_eq_ok.mp hvalue)
  have hproper := h.content hcontent
  exact Json.isFinite_of_reads (reads_sites hproper.isSettled hclause) hproper.settle.clauseSites

/-- **The scalars of a filter that is read are finite.** -/
theorem Filter.isFinite_of_ofNode {node : Node} (h : node.IsProper) {filter : Filter}
    (hread : ofNode node = .ok filter) : ∀ scalar ∈ filter.leaves, scalar.IsFinite := by
  obtain ⟨entries, hentries, hfilter⟩ := Except.bind_eq_ok.mp hread
  intro scalar hscalar
  rw [leaves, clauses_of_ofEntries hfilter, mem_clauseLeaves] at hscalar
  obtain ⟨entry, hentry, hscalar⟩ := hscalar
  have hmem := List.mem_of_mem_filter (Entries.mem_of_mem_ofList hentry)
  obtain ⟨value, hproper, hclause⟩ := h.exists_of_readEntries hentries entry hmem
  exact Clause.isFinite_of_ofNode hproper hclause scalar hscalar

/-! ## Requests and rows -/

namespace Record

variable {σ : Type}

/-- Whatever proper value a field of the record reads, its update keeps a property of the state. -/
def Keeps (record : Record σ) (I : σ → Prop) : Prop :=
  ∀ field ∈ record.fields, ∀ node update, Node.IsProper node → field.read node = .ok update →
    ∀ state, I state → I (update state)

namespace Keeps

variable {record : Record σ} {I : σ → Prop} (h : record.Keeps I)

include h

/-- One member keeps what every field keeps. -/
theorem takeMember {member : Except Fault String × Node} (hmember : member.2.IsProper)
    {taken next : List String × σ} (htaken : I taken.2)
    (hnext : record.takeMember taken member = .ok next) : I next.2 := by
  obtain ⟨name, -, hnext⟩ := Except.bind_eq_ok.mp hnext
  split at hnext
  · next field hfield =>
    split at hnext
    · contradiction
    · obtain ⟨update, hupdate, rfl⟩ := Except.map_eq_ok.mp hnext
      exact h field (List.mem_of_find?_eq_some hfield) _ update hmember hupdate _ htaken
  · split at hnext
    · contradiction
    · obtain ⟨-, -, rfl⟩ := Except.map_eq_ok.mp hnext
      exact htaken

/-- Members that are read one after the other keep what every field keeps. -/
theorem readMembers {members : Members} (hmembers : ∀ member ∈ members, member.2.IsProper)
    {start taken : List String × σ} (hstart : I start.2)
    (htaken : members.foldlM record.takeMember start = .ok taken) : I taken.2 := by
  induction members generalizing start with
  | nil =>
    obtain rfl := Except.ok.inj htaken
    exact hstart
  | cons member rest ih =>
    obtain ⟨hmember, hrest⟩ := List.forall_mem_cons.mp hmembers
    rw [List.foldlM_cons] at htaken
    obtain ⟨next, hnext, htaken⟩ := Except.bind_eq_ok.mp htaken
    exact ih hrest (h.takeMember hmember hstart hnext) htaken

/-- Items that are read in the order of the fields keep what every field keeps. -/
theorem readItems {fields : List (RecordField σ)} (hfields : fields ⊆ record.fields)
    {items : List Node} (hitems : ∀ item ∈ items, item.IsProper) {source : Source}
    {length index : Nat} {stop : Option Fault} {start state : σ} (hstart : I start)
    (hread : record.readItems source length stop index start fields items = .ok state) :
    I state := by
  induction fields generalizing index start items with
  | nil =>
    cases items with
    | nil =>
      obtain ⟨-, -, hread⟩ := Except.bind_eq_ok.mp hread
      obtain rfl := Except.ok.inj hread
      exact hstart
    | cons item rest => cases source <;> exact nomatch hread
  | cons field fields ih =>
    obtain ⟨hfield, hfields⟩ := List.cons_subset.mp hfields
    cases items with
    | nil =>
      obtain ⟨-, -, hread⟩ := Except.bind_eq_ok.mp hread
      split at hread
      · contradiction
      · exact ih hfields hitems hstart hread
    | cons item rest =>
      obtain ⟨hitem, hrest⟩ := List.forall_mem_cons.mp hitems
      obtain ⟨update, hupdate, hread⟩ := Except.bind_eq_ok.mp hread
      exact ih hfields hrest (h field hfield item update hitem hupdate start hstart) hread

/-- **What every field keeps, reading a record keeps.** -/
theorem read {node : Node} (hnode : node.IsProper) {source : Source} {start state : σ}
    (hstart : I start) (hread : record.read source start node = .ok state) : I state := by
  cases hnode with
  | obj proper stop =>
    obtain ⟨taken, hmembers, hread⟩ := Except.bind_eq_ok.mp hread
    rw [record.readMembers_eq_foldlM] at hmembers
    obtain ⟨-, -, hread⟩ := Except.bind_eq_ok.mp hread
    split at hread
    · contradiction
    · obtain rfl := Except.ok.inj hread
      have hstart : I (([] : List String), start).2 := hstart
      exact h.readMembers proper hstart hmembers
  | arr proper stop => exact h.readItems (List.Subset.refl _) proper hstart hread
  | _ => exact nomatch hread

end Keeps

end Record

/-- **The scalars of a request that is read are finite.** -/
theorem Request.isFinite_of_ofNode {node : Node} (h : node.IsProper) {request : Request}
    (hread : ofNode node = .ok request) : ∀ scalar ∈ request.search.leaves, scalar.IsFinite := by
  have hempty : ∀ scalar ∈ ({} : Request).search.leaves, scalar.IsFinite := fun _ => nofun
  have hkeeps : record.Keeps fun request => ∀ scalar ∈ request.search.leaves, scalar.IsFinite := by
    intro field hfield node update hnode hupdate request hrequest
    simp only [record, List.mem_cons, List.not_mem_nil, or_false] at hfield
    rcases hfield with rfl | rfl | rfl | rfl | rfl
    all_goals
      obtain ⟨value, hvalue, hupdate⟩ := Except.bind_eq_ok.mp hupdate
      obtain rfl := Except.ok.inj hupdate
    case inr.inr.inr.inr => exact Filter.isFinite_of_ofNode hnode hvalue
    all_goals exact hrequest
  exact hkeeps.read h hempty hread

/-- **The cells of rows that are read are finite.** -/
theorem Row.isFinite_of_readAll {node : Node} (h : node.IsProper) {rows : List Row}
    (hread : readAll node = .ok rows) : ∀ row ∈ rows, ∀ scalar ∈ row.leaves, scalar.IsFinite := by
  intro row hrow scalar hscalar
  obtain ⟨item, hitem, hcells⟩ := h.exists_of_readItems hread row hrow
  obtain ⟨entry, hentry, hscalar⟩ := List.mem_flatMap.mp hscalar
  obtain ⟨member, hmember, hcell⟩ := hitem.exists_of_readEntries hcells entry hentry
  obtain ⟨value, hvalue, hcell⟩ := Except.bind_eq_ok.mp hcell
  obtain ⟨content, hcontent, rfl⟩ := Except.map_eq_ok.mp (Except.mapError_eq_ok.mp hvalue)
  have hproper := hmember.content hcontent
  exact Json.isFinite_of_reads (Cell.reads_sites hproper.isSettled hcell)
    hproper.settle.cellSites scalar hscalar

/-! ## Parameters -/

/-- What a condition asks with is among its scalars. -/
theorem Condition.operands_subset (asked : Condition) :
    (asked.criterion?.map Criterion.operands).getD [] ⊆ asked.test.scalars := by
  have hpresent (scalar : Option Scalar) : (Scalar.present? scalar).toList ⊆ scalar.toList := by
    intro present hmem
    rw [Option.mem_toList, Scalar.present?, Option.filter_eq_some_iff] at hmem
    exact Option.mem_toList.mpr hmem.1
  rcases asked with ⟨(scalar | ⟨_ | ⟨scalar, rest⟩⟩) | pattern | ⟨above, below⟩ | _, negated⟩
  · refine List.Subset.trans ?_ (hpresent scalar)
    rw [criterion?]
    rcases Scalar.present? scalar <;> exact List.Subset.refl _
  · exact List.Subset.refl _
  · exact List.Subset.refl _
  · refine List.Subset.trans ?_ (hpresent pattern)
    rw [criterion?]
    rcases Scalar.present? pattern <;> exact List.Subset.refl _
  · have hbounds := List.append_subset.mpr
      ⟨List.subset_append_of_subset_left below.toList (hpresent above),
        List.subset_append_of_subset_right above.toList (hpresent below)⟩
    refine List.Subset.trans ?_ hbounds
    rw [criterion?]
    rcases Scalar.present? above <;> rcases Scalar.present? below <;> exact List.Subset.refl _
  · exact List.Subset.refl _

/-- A clause compares with what it holds, and nothing else. -/
theorem Clause.operands_subset (clause : Clause) :
    (clause.criterion?.map Criterion.operands).getD [] ⊆ clause.held := by
  rcases clause with scalar | scalars | asked | ⟨negated, clauses⟩
  · exact (Condition.equal scalar).operands_subset
  · exact (Condition.oneOf scalars).operands_subset
  · exact asked.operands_subset
  · exact List.Subset.refl _

/-- What clauses bind is among their scalars. -/
theorem clauseScalars_subset (graph : Graph) (entity : Entity) (clauses : List (String × Clause)) :
    clauseScalars graph entity clauses ⊆ clauseLeaves clauses := by
  refine Clause.induction_on_clauses
    (R := fun clause => ∀ entity field, clause.scalars graph entity field ⊆ clause.leaves)
    (S := fun clauses => ∀ entity, clauseScalars graph entity clauses ⊆ clauseLeaves clauses)
    ?clause ?nil ?cons clauses entity
  case clause =>
    intro clause ih entity field
    cases clause with
    | nested negated inner =>
      rw [Clause.scalars, Clause.leaves]
      split
      · exact ih negated inner rfl _
      · exact List.nil_subset _
    | value scalar => exact (Clause.value scalar).operands_subset
    | list scalars => exact (Clause.list scalars).operands_subset
    | condition asked => exact (Clause.condition asked).operands_subset
  case nil => exact fun _ => List.Subset.refl _
  case cons =>
    intro field clause rest hclause hrest entity
    rw [clauseScalars, clauseLeaves]
    exact List.append_subset.mpr ⟨List.subset_append_of_subset_left _ (hclause entity field),
      List.subset_append_of_subset_right _ (hrest entity)⟩

/-- What is bound is finite if the scalars are. -/
theorem isFinite_of_mapM {scalars : List Scalar} (h : ∀ scalar ∈ scalars, scalar.IsFinite)
    {dialect : Dialect} {values : List Sql.Value}
    (hvalues : scalars.mapM (Scalar.toValue dialect) = .ok values) :
    ∀ value ∈ values, value.IsFinite := by
  intro value hvalue
  obtain ⟨scalar, hscalar, hbound⟩ := Except.exists_of_mem_mapM hvalues value hvalue
  exact (h scalar hscalar).toValue hbound

theorem Sql.Buffer.params_ofPieces (dialect : Dialect) (pieces : List Sql.Piece) :
    (ofPieces dialect pieces).params.toList = Sql.Piece.params pieces :=
  params_appendAll pieces _

section

variable {target : Target} {name : String} {buffer : Sql.Buffer}

/-- **The parameters of a filter are finite** if its scalars are. -/
theorem Filter.isFinite_params {filter : Filter} (h : ∀ scalar ∈ filter.leaves, scalar.IsFinite)
    (hcompile : filter.compile target name = .ok buffer) :
    ∀ value ∈ buffer.params.toList, value.IsFinite := by
  obtain ⟨entity, -, hcompile⟩ := Except.bind_eq_ok.mp hcompile
  obtain ⟨condition, hcondition, hcompile⟩ := Except.bind_eq_ok.mp hcompile
  obtain rfl := Except.ok.inj hcompile
  rw [Sql.Buffer.params_ofPieces, params_condition_getD]
  exact isFinite_of_mapM (fun scalar hscalar => h scalar (clauseScalars_subset _ _ _ hscalar))
    (filter.values_expr? target hcondition)

/-- **The parameters of a request are finite** if the scalars of its filter are. -/
theorem Request.isFinite_params {request : Request}
    (h : ∀ scalar ∈ request.search.leaves, scalar.IsFinite)
    (hcompile : request.compile target name = .ok buffer) :
    ∀ value ∈ buffer.params.toList, value.IsFinite := by
  obtain ⟨entity, -, hcompile⟩ := Except.bind_eq_ok.mp hcompile
  obtain ⟨select, hselect, hcompile⟩ := Except.bind_eq_ok.mp hcompile
  obtain ⟨condition, hcondition, hselect⟩ := Except.bind_eq_ok.mp hselect
  obtain rfl := Except.ok.inj hcompile
  obtain rfl := Except.ok.inj hselect
  rw [Sql.Buffer.params_ofPieces, Sql.Select.params_pieces]
  exact isFinite_of_mapM (fun scalar hscalar => h scalar (clauseScalars_subset _ _ _ hscalar))
    (Filter.values_expr? target hcondition)

/-- **The parameters of an insertion are finite** if the cells of its rows are. -/
theorem Row.isFinite_params {rows : List Row}
    (h : ∀ row ∈ rows, ∀ scalar ∈ row.leaves, scalar.IsFinite)
    (hcompile : compileAll target name rows = .ok buffer) :
    ∀ value ∈ buffer.params.toList, value.IsFinite := by
  obtain ⟨entity, -, hcompile⟩ := Except.bind_eq_ok.mp hcompile
  obtain ⟨insert, hinsert, hcompile⟩ := Except.bind_eq_ok.mp hcompile
  obtain rfl := Except.ok.inj hcompile
  rw [Sql.Buffer.params_ofPieces, Sql.Insert.params_pieces]
  refine isFinite_of_mapM (fun scalar hscalar => ?_) (values_of_insertion hinsert)
  obtain ⟨row, hrow, hscalar⟩ := List.mem_flatMap.mp hscalar
  obtain ⟨field, -, rfl⟩ := List.mem_map.mp hscalar
  rw [scalarAt]
  split
  · next scalar hcell =>
    exact h row hrow scalar
      (List.mem_flatMap.mpr ⟨_, Entries.mem_of_get? hcell, List.mem_singleton_self _⟩)
  · trivial

end

end EntityQuery
