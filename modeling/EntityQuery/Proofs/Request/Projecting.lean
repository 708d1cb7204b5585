import EntityQuery.Proofs.Filter.Reading
import EntityQuery.Proofs.Json.Bare
import EntityQuery.Proofs.Request.Assembly

/-!
# Proofs/Request/Projecting — a projection selects the fields that are marked `true`

    { name: false, father: true, age: "true", name: true, city: true }
      ──▸  SELECT person.name, person.city FROM person

Two inputs.  Entries that are put one after the other have each name where it was first met
(`Entries.names_ofList`), with the value that was put there last (`Entries.get?_ofList`), so the
select list can be read off the members of the document (`Projection.selectList_ofMembers`).  And
every object is read as a projection (`Projection.ofNode_ofJson`), so a member for the fields of a
request does nothing but set them: the other members do the same with and without it
(`Beside.takeMember`, `Beside.readMembers`), and `Request.ofNode_obj` follows.
-/

namespace EntityQuery

/-! ## Reading -/

namespace Request

/-- The request with other fields. -/
def setFields (request : Request) (fields : Projection) : Request :=
  { request with fields }

/-- Whether an update of a request leaves its fields alone. -/
def KeepsFields (update : Request → Request) : Prop :=
  ∀ request fields, update (request.setFields fields) = (update request).setFields fields

/-- Only one field of the record is about the fields. -/
theorem keepsFields_of_read {field : RecordField Request} (hfield : field ∈ record.fields)
    (hname : field.name ≠ "fields") {node : Node} {update : Request → Request}
    (h : field.read node = .ok update) : KeepsFields update := by
  simp only [record, List.mem_cons, List.not_mem_nil, or_false] at hfield
  rcases hfield with rfl | rfl | rfl | rfl | rfl
  case inr.inr.inr.inl => exact absurd rfl hname
  all_goals
    obtain ⟨value, -, hupdate⟩ := Except.bind_eq_ok.mp h
    obtain rfl := Except.ok.inj hupdate
    exact fun request fields => rfl

/-- Two requests are read alike so far, but for the fields that the second one has. -/
def Beside (fields : Projection) (first second : List String × Request) : Prop :=
  second.2 = first.2.setFields fields ∧ ∀ name ≠ "fields", name ∈ second.1 ↔ name ∈ first.1

/-- Another member does the same to both. -/
theorem Beside.takeMember {fields : Projection} {first second : List String × Request}
    (h : Beside fields first second) {member : Except Fault String × Node}
    (hmember : member.1 ≠ .ok "fields") :
    (∃ error, record.takeMember first member = .error error
        ∧ record.takeMember second member = .error error)
      ∨ ∃ next other, record.takeMember first member = .ok next
        ∧ record.takeMember second member = .ok other ∧ Beside fields next other := by
  obtain ⟨key, node⟩ := member
  rcases key with fault | name
  · exact .inl ⟨.fault fault, rfl, rfl⟩
  have hname : name ≠ "fields" := fun heq => hmember (congrArg _ heq)
  simp only [Record.takeMember, Node.faulty, Except.mapError, bind, Except.bind]
  rcases hfield : record.field? name with _ | field
  · dsimp only
    rcases node.skip with fault | done
    · exact .inl ⟨.fault fault, rfl, rfl⟩
    · exact .inr ⟨first, second, rfl, rfl, h⟩
  · dsimp only
    have hseen : second.1.contains name = first.1.contains name := by
      rw [Bool.eq_iff_iff, List.contains_iff_mem, List.contains_iff_mem]
      exact h.2 name hname
    rw [hseen]
    split
    · exact .inl ⟨_, rfl, rfl⟩
    rcases hread : field.read node with error | update
    · exact .inl ⟨error, rfl, rfl⟩
    have hkeeps : KeepsFields update := by
      have hfound : (field.name == name) = true := by
        rw [Record.field?] at hfield
        exact List.find?_some (p := fun field : RecordField Request => field.name == name) hfield
      refine keepsFields_of_read (List.mem_of_find?_eq_some hfield) ?_ hread
      rwa [beq_iff_eq.mp hfound]
    refine .inr ⟨_, _, rfl, rfl, ?_, fun other hother => ?_⟩
    · rw [h.1]
      exact hkeeps first.2 fields
    · rw [List.mem_cons, List.mem_cons, h.2 other hother]

/-- So do any number of other members. -/
theorem Beside.readMembers {fields : Projection} {members : Members}
    (hmembers : ∀ member ∈ members, member.1 ≠ .ok "fields") {first second : List String × Request}
    (h : Beside fields first second) :
    (record.readMembers second.1 second.2 members).map Prod.snd
      = (record.readMembers first.1 first.2 members).map fun taken => taken.2.setFields fields := by
  rw [record.readMembers_eq_foldlM, record.readMembers_eq_foldlM]
  induction members generalizing first second with
  | nil => exact congrArg _ h.1
  | cons member rest ih =>
    obtain ⟨hmember, hrest⟩ := List.forall_mem_cons.mp hmembers
    rw [List.foldlM_cons, List.foldlM_cons]
    rcases h.takeMember hmember with ⟨error, hfirst, hsecond⟩
      | ⟨next, other, hfirst, hsecond, hnext⟩
    · rw [hfirst, hsecond]
      rfl
    · rw [hfirst, hsecond]
      exact ih hrest hnext

/-- What was not there is not seen. -/
theorem fields_not_seen {members : Members}
    (hmembers : ∀ member ∈ members, member.1 ≠ .ok "fields") {start taken : List String × Request}
    (hstart : "fields" ∉ start.1) (h : members.foldlM record.takeMember start = .ok taken) :
    "fields" ∉ taken.1 := by
  induction members generalizing start with
  | nil =>
    obtain rfl := Except.ok.inj h
    exact hstart
  | cons member rest ih =>
    obtain ⟨hmember, hrest⟩ := List.forall_mem_cons.mp hmembers
    rw [List.foldlM_cons] at h
    obtain ⟨next, hnext, h⟩ := Except.bind_eq_ok.mp h
    refine ih hrest ?_ h
    obtain ⟨name, hname, hnext⟩ := Except.bind_eq_ok.mp hnext
    have hne : "fields" ≠ name := by
      rintro rfl
      exact hmember (Except.mapError_eq_ok.mp hname)
    split at hnext
    · split at hnext
      · contradiction
      · obtain ⟨update, -, rfl⟩ := Except.map_eq_ok.mp hnext
        exact fun hmem => (List.mem_cons.mp hmem).elim hne hstart
    · split at hnext
      · contradiction
      · obtain ⟨-, -, rfl⟩ := Except.map_eq_ok.mp hnext
        exact hstart

/-- A request has no required field. -/
theorem read_obj (members : Members) (stop : Option Fault) :
    ofNode (.obj members stop) = (record.readMembers [] {} members).map Prod.snd >>= fun request =>
      (Node.faulty (Node.close stop)).map fun _ => request := by
  have hmissing (seen : List String) : record.missing? seen = none := by
    simp [Record.missing?, record]
  rw [ofNode, Record.read]
  rcases record.readMembers [] {} members with error | ⟨seen, request⟩
  · rfl
  · change (Node.faulty (Node.close stop) >>= _) = _
    simp only [hmissing]
    rfl

/-- The field of the record that is about the fields takes a projection. -/
theorem exists_field {node : Node} {fields : Projection} (h : Projection.ofNode node = .ok fields) :
    ∃ field, record.field? "fields" = some field
      ∧ field.read node = .ok fun request => request.setFields fields := by
  refine ⟨_, rfl, ?_⟩
  change Projection.ofNode node >>= _ = _
  rw [h]
  rfl

/-- **A request with a member for its fields is read as without it, and has these fields.** -/
theorem ofNode_obj {node : Node} {fields : Projection} (h : Projection.ofNode node = .ok fields)
    {before after : Members} (hbefore : ∀ member ∈ before, member.1 ≠ .ok "fields")
    (hafter : ∀ member ∈ after, member.1 ≠ .ok "fields") (stop : Option Fault) :
    ofNode (.obj (before ++ (.ok "fields", node) :: after) stop)
      = (ofNode (.obj (before ++ after) stop)).map fun request => request.setFields fields := by
  obtain ⟨field, hfield, hread⟩ := exists_field h
  have hmembers : (record.readMembers [] {} (before ++ (.ok "fields", node) :: after)).map Prod.snd
      = (record.readMembers [] {} (before ++ after)).map
          fun taken => taken.2.setFields fields := by
    rw [record.readMembers_eq_foldlM, record.readMembers_eq_foldlM, List.foldlM_append,
      List.foldlM_append]
    rcases htaken : before.foldlM record.takeMember ([], ({} : Request)) with error | taken
    · rfl
    have hseen := fields_not_seen hbefore List.not_mem_nil htaken
    have hfields : record.takeMember taken (.ok "fields", node)
        = .ok ("fields" :: taken.1, taken.2.setFields fields) := by
      have hnew : taken.1.contains "fields" = false := by simpa using hseen
      simp only [Record.takeMember, Node.faulty, Except.mapError, bind, Except.bind, hfield, hnew]
      rw [if_neg Bool.false_ne_true, hread]
      rfl
    have hbeside : Beside fields taken ("fields" :: taken.1, taken.2.setFields fields) :=
      ⟨rfl, fun name hname => ⟨fun hmem => (List.mem_cons.mp hmem).resolve_left hname,
        List.mem_cons_of_mem _⟩⟩
    have hrest := hbeside.readMembers hafter
    rw [record.readMembers_eq_foldlM, record.readMembers_eq_foldlM] at hrest
    change ((record.takeMember taken (.ok "fields", node) >>= _).map Prod.snd) = _
    rw [hfields]
    exact hrest
  rw [read_obj, read_obj, hmembers]
  rcases record.readMembers [] {} (before ++ after) with error | taken
  · rfl
  · change Except.map _ (Node.faulty (Node.close stop))
      = Except.map _ (Except.map _ (Node.faulty (Node.close stop)))
    cases Node.faulty (Node.close stop) <;> rfl

/-- Items behind the one for the fields keep them. -/
theorem readItems_setFields (source : Source) (length : Nat) (stop : Option Fault)
    (fields : Projection) {others : List (RecordField Request)}
    (hothers : ∀ field ∈ others, field ∈ record.fields ∧ field.name ≠ "fields") (index : Nat)
    (request : Request) (items : List Node) :
    record.readItems source length stop index (request.setFields fields) others items
      = (record.readItems source length stop index request others items).map
          fun request => request.setFields fields := by
  induction others generalizing index request items with
  | nil =>
    cases items with
    | nil =>
      rw [Record.readItems, Record.readItems]
      cases Node.faulty (Node.close stop) <;> rfl
    | cons item items => cases source <;> rfl
  | cons field others ih =>
    obtain ⟨⟨hfield, hname⟩, hrest⟩ := List.forall_mem_cons.mp hothers
    cases items with
    | nil =>
      rw [Record.readItems, Record.readItems]
      simp only [bind]
      cases Node.faulty (Node.close stop) with
      | error => rfl
      | ok =>
        simp only [Except.bind]
        split
        · rfl
        · exact ih hrest _ _ _
    | cons item items =>
      rw [Record.readItems, Record.readItems]
      rcases hread : field.read item with error | update
      · rfl
      · change record.readItems source length stop _ (update (request.setFields fields)) _ _ = _
        rw [keepsFields_of_read hfield hname hread]
        exact ih hrest _ _ _

/-- So is one whose items are its page, page size, order and fields, in the place of the fields. -/
theorem ofNode_arr {node : Node} {fields : Projection} (h : Projection.ofNode node = .ok fields)
    (page pageSize order : Node) (rest : List Node) (stop : Option Fault) :
    ofNode (.arr (page :: pageSize :: order :: node :: rest) stop)
      = (ofNode (.arr (page :: pageSize :: order :: .obj [] none :: rest) stop)).map
          fun request => request.setFields fields := by
  have hbehind (request : Request) (length : Nat) :
      record.readItems .text length stop 4 (request.setFields fields) (record.fields.drop 4) rest
        = (record.readItems .text length stop 4 (request.setFields []) (record.fields.drop 4)
            rest).map fun request => request.setFields fields := by
    have hothers : ∀ field ∈ record.fields.drop 4,
        field ∈ record.fields ∧ field.name ≠ "fields" := by
      intro field hfield
      refine ⟨List.mem_of_mem_drop hfield, ?_⟩
      obtain rfl := List.mem_singleton.mp hfield
      decide
    rw [readItems_setFields .text length stop fields hothers,
      readItems_setFields .text length stop [] hothers]
    cases record.readItems .text length stop 4 request (record.fields.drop 4) rest <;> rfl
  have hempty : Projection.ofNode (.obj [] none) = .ok [] := rfl
  have hitems (node : Node) : ofNode (.arr (page :: pageSize :: order :: node :: rest) stop)
      = page.readUnsigned >>= fun page => Node.readOption Node.readUnsigned pageSize >>=
          fun pageSize => Order.ofNode order >>= fun order => Projection.ofNode node >>=
            fun fields => record.readItems .text (rest.length + 4) stop 4
              (setFields { page, pageSize, order } fields) (record.fields.drop 4) rest := by
    rw [ofNode, Record.read]
    simp only [record, Record.readItems, bind_assoc]
    rfl
  rw [hitems, hitems, h, hempty]
  rcases page.readUnsigned with error | page
  · rfl
  rcases Node.readOption Node.readUnsigned pageSize with error | pageSize
  · rfl
  rcases Order.ofNode order with error | order
  · rfl
  exact hbehind _ _

/-- What a change makes of a request that a text spells, the document makes of it too. -/
theorem read_of_spells {text : String} {value : Json} (htext : Json.Grammar.Spells text value)
    (hdepth : value.nesting ≤ maxDepth) {node : Node} {change : Request → Request}
    (h : ofNode (Node.ofJson value) = (ofNode node).map change) :
    (Document.ofText text).read (.ofNode ofNode)
      = (Document.read (.ofNode ofNode) ⟨node, none⟩).map change := by
  rw [Document.ofText_eq_ofJson htext hdepth, Document.read_ofNode, Document.read_ofNode, h]
  exact Except.mapError_map _ _ _

end Request

/-! ## Selecting -/

/-- Whether a value is literally `true`. -/
def Json.isTrue : Json → Bool
  | .bool value => value
  | _ => false

namespace Projection

/-- The projection that the members of an object spell. -/
def ofMembers (members : List (String × Json)) : Projection :=
  Entries.ofList (Entries.mapValues (fun value => Marker.ofJson value.settle) members)

/-- **Every object is read.** -/
theorem ofNode_ofJson (members : List (String × Json)) :
    ofNode (Node.ofJson (.obj members)) = .ok (ofMembers members) :=
  Node.readEntries_value Marker.ofJson members

/-- Only the literal `true` is a mark that selects. -/
theorem isIncluded_ofJson (value : Json) :
    (Marker.ofJson value.settle).isIncluded = value.isTrue := by
  cases value <;> rfl

end Projection

/-- The column that a field stands for: the one that it is mapped to, or the one of its name. -/
inductive Entity.StandsFor (entity : Entity) : String → Sql.Column → Prop
  | mapped {field column} (hfield : entity.field? field = some (.column column)) :
      StandsFor entity field ⟨entity.table, column⟩
  | own {field} (hfield : entity.field? field = none) :
      StandsFor entity field ⟨entity.table, field⟩

/-- The keys of which the last value is literally `true` and which are no links, in the order in
which they first stand. -/
def markedFields (entity : Entity) (members : List (String × Json)) : List String :=
  (Entries.names members).eraseDups.filter fun key =>
    (Entries.get? members.reverse key).any Json.isTrue && (entity.link? key).isNone

theorem link?_of_mem_markedFields {entity : Entity} {members : List (String × Json)}
    {field : String} (h : field ∈ markedFields entity members) : entity.link? field = none := by
  obtain ⟨-, hmarked⟩ := List.mem_filter.mp h
  exact Option.isNone_iff_eq_none.mp (Bool.and_eq_true_iff.mp hmarked).2

/-- The select list of some columns: without any it is the star of the table. -/
def Entity.listOf (entity : Entity) (columns : List Sql.Column) : Sql.SelectList :=
  if columns.isEmpty then .star entity.table else .columns columns

theorem Entity.listOf_ne_columns_nil (entity : Entity) (columns : List Sql.Column) :
    entity.listOf columns ≠ .columns [] := by
  unfold listOf
  split
  · exact Sql.SelectList.noConfusion
  · next hsome =>
    rintro heq
    obtain rfl := Sql.SelectList.columns.inj heq
    exact hsome rfl

namespace Projection

/-- The column that a field is selected as. -/
def column? (entity : Entity) (field : String) : Option Sql.Column :=
  (entity.columnOf? field).map fun column => ⟨entity.table, column⟩

theorem column?_of_link {entity : Entity} {field : String} {link : Link}
    (h : entity.link? field = some link) : column? entity field = none := by
  rw [column?, Entity.columnOf?, entity.field_of_link h]
  rfl

theorem column?_of_standsFor {entity : Entity} {field : String} {column : Sql.Column}
    (h : entity.StandsFor field column) : column? entity field = some column := by
  rw [column?, Entity.columnOf?]
  cases h with
  | mapped hfield => rw [hfield]; rfl
  | own hfield => rw [hfield]; rfl

/-- A field stands for one column at most. -/
theorem rightUnique_standsFor (entity : Entity) : Relator.RightUnique entity.StandsFor :=
  fun _ _ _ hfirst hsecond => Option.some.inj
    ((column?_of_standsFor hfirst).symm.trans (column?_of_standsFor hsecond))

/-- Any field but a link is selected as the column that it stands for. -/
theorem exists_column? {entity : Entity} {field : String} (h : entity.link? field = none) :
    ∃ column, column? entity field = some column ∧ entity.StandsFor field column := by
  rw [Entity.link?] at h
  rw [column?, Entity.columnOf?]
  rcases hfield : entity.field? field with _ | ⟨name⟩ | link
  · exact ⟨_, rfl, .own hfield⟩
  · exact ⟨_, rfl, .mapped hfield⟩
  · rw [hfield] at h
    contradiction

/-- Fields that are no links are selected one by one. -/
theorem forall₂_column? {entity : Entity} {fields : List String}
    (h : ∀ field ∈ fields, entity.link? field = none) :
    List.Forall₂ entity.StandsFor fields (fields.filterMap (column? entity)) := by
  induction fields with
  | nil => exact .nil
  | cons field rest ih =>
    obtain ⟨hfield, hrest⟩ := List.forall_mem_cons.mp h
    obtain ⟨column, hcolumn, hstands⟩ := exists_column? hfield
    rw [List.filterMap_cons_some hcolumn]
    exact .cons hstands (ih hrest)

/-- **The select list of an object has the columns of its marked fields.** -/
theorem selectList_ofMembers (entity : Entity) (members : List (String × Json)) :
    (ofMembers members).selectList entity
      = entity.listOf ((markedFields entity members).filterMap (column? entity)) := by
  have hfields : (ofMembers members).filterMap (fun entry =>
        if entry.2.isIncluded then column? entity entry.1 else none)
      = (markedFields entity members).filterMap (column? entity) := by
    have hlast (name : String) : (ofMembers members).get? name
        = (Entries.get? members.reverse name).map fun value => Marker.ofJson value.settle := by
      rw [ofMembers, Entries.get?_ofList, Entries.mapValues, ← List.map_reverse]
      exact Entries.get?_mapValues (fun value => Marker.ofJson value.settle) members.reverse name
    have hnames : (ofMembers members).names = (Entries.names members).eraseDups := by
      rw [ofMembers, Entries.names_ofList, Entries.names_mapValues]
    have hnodup : (ofMembers members).names.Nodup := Entries.nodup_names_ofList _
    rw [Entries.filterMap_eq_names hnodup
        (fun field (marker : Marker) => if marker.isIncluded then column? entity field else none),
      hnames, markedFields, List.filterMap_filter]
    refine List.filterMap_congr fun name _ => ?_
    rw [hlast]
    rcases Entries.get? members.reverse name with _ | value
    · rfl
    · simp only [Option.map_some, Option.bind_some, Option.any_some, isIncluded_ofJson]
      rcases hlink : entity.link? name with _ | link
      · simp
      · simp [column?_of_link hlink]
  rw [selectList, Entity.listOf, ← hfields]
  rfl

end Projection

namespace Request

variable {target : Target} {name : String} {entity : Entity} {request : Request}

/-- The select list is about the fields alone, and the rows are those of the entity. -/
theorem list_of_select {select : Sql.Select} (h : request.select target entity = .ok select) :
    select.list = request.fields.selectList entity ∧ select.table = entity.table := by
  obtain ⟨condition, -, h⟩ := Except.bind_eq_ok.mp h
  obtain rfl := Except.ok.inj h
  exact ⟨rfl, rfl⟩

variable (hentity : target.graph.entity? name = some entity)

include hentity

/-- The text begins with the select list. -/
theorem exists_text_of_compile {buffer : Sql.Buffer}
    (h : request.compile target name = .ok buffer) :
    ∃ clauses, buffer.text = "SELECT " ++ (request.fields.selectList entity).text ++ " FROM "
      ++ entity.table ++ clauses := by
  rw [request.compile_eq_map hentity] at h
  obtain ⟨condition, -, rfl⟩ := Except.map_eq_ok.mp h
  exact ⟨_, by rw [Request.text, String.append_assoc, String.append_assoc]⟩

/-- Without anything else the select list is all. -/
theorem compile_fields (fields : Projection) :
    Request.compile target name { fields }
      = .ok { Sql.Buffer.empty target.dialect.placeholder with
          text := "SELECT " ++ (fields.selectList entity).text ++ " FROM " ++ entity.table } := by
  have hsearch : Filter.empty.compile target name
      = .ok (.empty target.dialect.placeholder) := by
    rw [Filter.compile, Target.entity_eq_ok.mpr hentity]
    rfl
  have horder : Order.terms entity [] = [] := by simp [Order.terms]
  rw [Request.compile_eq_map hentity, hsearch, horder]
  simp [Except.map, Request.text, Sql.clauseText, pageText, Sql.Buffer.empty, Sql.orderPieces]

end Request

/-- **A projection selects the fields that are marked `true`.**  No object is refused as a
projection for what it holds.  One that has a value, as every object has that nests within the limit
and has no number that the reader cannot hold and no half of a surrogate pair, is read, by itself
and as the fields of a request, which is read as it would be without them.  The select list then has
the column of every key of which the last value is literally `true` and which is no link, in the
order in which they first stand, with the table of the entity; it is the star of the table if there
is none, and never empty.  Whatever else a request asks, its text begins with this list. -/
theorem projection_selects_marked (target : Target) {name : String} {entity : Entity}
    (hentity : target.graph.entity? name = some entity) (members : List (String × Json)) :
    (Reader.ofNode Projection.ofNode).TakesObjects
    ∧ ∃ (projection : Projection) (columns : List Sql.Column),
      List.Forall₂ entity.StandsFor (markedFields entity members) columns
      ∧ (∀ text, Json.Grammar.Spells text (.obj members) →
        (Json.obj members).nesting ≤ maxDepth →
          (Document.ofText text).read (.ofNode Projection.ofNode) = .ok projection)
      ∧ (∀ text before after, "fields" ∉ Entries.names before → "fields" ∉ Entries.names after →
        Json.Grammar.Spells text (.obj (before ++ ("fields", .obj members) :: after)) →
          (Json.obj (before ++ ("fields", .obj members) :: after)).nesting ≤ maxDepth →
            (Document.ofText text).read (.ofNode Request.ofNode)
              = (Document.read (.ofNode Request.ofNode)
                  ⟨Node.ofJson (.obj (before ++ after)), none⟩).map
                  fun request => request.setFields projection)
      ∧ (∀ text page pageSize order rest,
        Json.Grammar.Spells text (.arr (page :: pageSize :: order :: .obj members :: rest)) →
          (Json.arr (page :: pageSize :: order :: .obj members :: rest)).nesting ≤ maxDepth →
            (Document.ofText text).read (.ofNode Request.ofNode)
              = (Document.read (.ofNode Request.ofNode)
                  ⟨Node.ofJson (.arr (page :: pageSize :: order :: .obj [] :: rest)), none⟩).map
                  fun request => request.setFields projection)
      ∧ projection.selectList entity = entity.listOf columns
      ∧ projection.selectList entity ≠ .columns []
      ∧ (∀ request : Request, request.fields = projection →
        (∀ select, request.select target entity = .ok select →
          select.list = entity.listOf columns ∧ select.table = entity.table)
        ∧ ∀ buffer, request.compile target name = .ok buffer → ∃ clauses,
          buffer.text = "SELECT " ++ (entity.listOf columns).text ++ " FROM " ++ entity.table
            ++ clauses)
      ∧ Request.compile target name { fields := projection }
        = .ok { Sql.Buffer.empty target.dialect.placeholder with
            text := "SELECT " ++ (entity.listOf columns).text ++ " FROM " ++ entity.table } := by
  have hlist := Projection.selectList_ofMembers entity members
  have hlinks : ∀ field ∈ markedFields entity members, entity.link? field = none :=
    fun _ => link?_of_mem_markedFields
  refine ⟨Reader.takesObjects fun _ _ _ => Node.exists_fault_of_readEntries, .ofMembers members, _,
    Projection.forall₂_column? hlinks, ?_, ?_, ?_, hlist, hlist ▸ entity.listOf_ne_columns_nil _,
    ?_, ?_⟩
  · intro text htext hdepth
    rw [Document.ofText_eq_ofJson htext hdepth, Document.read_eq_ok, Reader.read_ofNode]
    exact Projection.ofNode_ofJson members
  · intro text before after hbefore hafter htext hdepth
    refine Request.read_of_spells htext hdepth ?_
    have hrequest := Request.ofNode_obj (Projection.ofNode_ofJson members)
      (Node.key_ne_of_not_mem hbefore) (Node.key_ne_of_not_mem hafter) none
    rw [Node.ofJson, Node.ofJsonMembers_append, Node.ofJsonMembers, hrequest, Node.ofJson,
      Node.ofJsonMembers_append]
  · intro text page pageSize order rest htext hdepth
    exact Request.read_of_spells htext hdepth
      (Request.ofNode_arr (Projection.ofNode_ofJson members) _ _ _ _ none)
  · intro request hfields
    rw [← hlist, ← hfields]
    exact ⟨fun _ => Request.list_of_select, fun _ => Request.exists_text_of_compile hentity⟩
  · rw [← hlist]
    exact Request.compile_fields hentity _

/-- A name that is not marked at last, an age that is not `true`, a height and a father, both marked
in the end. -/
def marks : List (String × Json) :=
  [("nickname", .bool false), ("father", .bool true), ("age", .str "true"), ("name", .bool true),
    ("mother", .obj [("name", .bool true)]), ("nickname", .bool true), ("id", .bool true),
    ("id", .null)]

/-- The nickname stands first, since it was first met there; a father has no column. -/
theorem select_of_marks : ∃ projection : Projection,
    (Document.ofText (Json.obj marks).prettyLines).read (.ofNode Projection.ofNode)
        = .ok projection
      ∧ Request.compile ⟨Graph.People.graph, .generic⟩ "person" { fields := projection }
        = .ok ⟨.questionMark, "SELECT person.nickname, person.name FROM person", #[], 0⟩ := by
  have hperson : Graph.People.graph.entity? "person" = some Graph.People.person := rfl
  obtain ⟨-, projection, columns, hcolumns, hread, -, -, -, -, -, hselect⟩ :=
    projection_selects_marked ⟨Graph.People.graph, .generic⟩ hperson marks
  have hmarked : markedFields Graph.People.person marks = ["nickname", "name"] := by decide +kernel
  rw [hmarked] at hcolumns
  obtain rfl : columns = [⟨"person", "nickname"⟩, ⟨"person", "name"⟩] :=
    (Projection.rightUnique_standsFor _).forall₂ hcolumns
      (.cons (.own rfl) (.cons (.mapped rfl) .nil))
  refine ⟨projection, hread _ (Json.spells_prettyLines ?_) (by decide), ?_⟩
  · simp [marks, Json.NumbersReadBack, Json.EveryNumber, Json.EveryNumberMembers]
  · rw [hselect]
    decide +kernel

/-- Fields with a member that has no value are not read, although they are an object. -/
theorem bareFields_not_read :
    Numeral.scan "1e999".toList = .read hugeNumeral []
    ∧ ∀ text ∈ ["\x7b\"x\":1e999\x7d", "\x7b\"x\":\"\\ud800\"\x7d"],
      HasBareMember text ∧ ∃ fault,
        (Document.ofText text).read (.ofNode Projection.ofNode)
          = .error (.atPlace (.fault fault)) := by
  refine ⟨rfl, fun text hmem => ?_⟩
  obtain ⟨fault, hroot⟩ := hasBareMember_of_mem hmem
  refine ⟨⟨fault, hroot⟩, fault, ?_⟩
  rw [hroot]
  rfl

end EntityQuery
