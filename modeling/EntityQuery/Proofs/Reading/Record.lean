import EntityQuery.Proofs.Entries
import EntityQuery.Proofs.Json.Grammar
import EntityQuery.Reading.Reader

/-!
# Proofs/Reading/Record — records and entries read off values

Nothing stops a reader half way through a value without faults, so what it makes of an object can be
said member by member.  Entries and items are read one by one (`Node.readEntries_ofJson`,
`Node.readItems_ofJson`), and what was written value by value is read back
(`Node.readEntries_mapValues`).  A record in which no key stands twice asks every member for what it
does to the state, looks for the required fields, and does it all in order (`Record.read_ofJson`).
-/

namespace EntityQuery

/-! ## Documents -/

/-- A document that ends after its value is read exactly if its value is. -/
theorem Document.read_eq_ok {α : Type} {reader : Reader α} {node : Node} {value : α} :
    (⟨node, none⟩ : Document).read reader = .ok value ↔ reader.read node = .ok value := by
  rw [Document.read, Reader.read]
  cases reader.take node with
  | error => constructor <;> intro h <;> cases h
  | ok taken =>
    change (Except.mapError _ (reader.make taken) >>= _) = _ ↔ reader.make taken = _
    cases reader.make taken with
    | error => constructor <;> intro h <;> cases h
    | ok made =>
      exact ⟨fun h => congrArg _ (Except.ok.inj h), fun h => congrArg _ (Except.ok.inj h)⟩

/-- What is read of a document is read of its tree, whatever follows it. -/
theorem Document.root_of_read {α : Type} {reader : Reader α} {document : Document} {value : α}
    (h : document.read reader = .ok value) : reader.read document.root = .ok value := by
  obtain ⟨taken, htaken, h⟩ := Except.bind_eq_ok.mp h
  obtain ⟨made, hmade, h⟩ := Except.bind_eq_ok.mp h
  obtain ⟨-, -, h⟩ := Except.bind_eq_ok.mp h
  obtain rfl := Except.ok.inj h
  exact Except.bind_eq_ok.mpr
    ⟨taken, Except.mapError_eq_ok.mp htaken, Except.mapError_eq_ok.mp hmade⟩

/-- A document that ends after its value is read in one step as its tree is. -/
theorem Document.read_ofNode {α : Type} (read : Node → Except Complaint α) (node : Node) :
    (⟨node, none⟩ : Document).read (.ofNode read) = (read node).mapError .atPlace := by
  rw [Document.read]
  change (Except.mapError _ (read node) >>= _) = _
  rcases read node with complaint | value <;> rfl

/-- An object in a text is refused for the text alone, if at all, and never for its shape. -/
def Reader.TakesObjects {α : Type} (reader : Reader α) : Prop :=
  ∀ (text : String) (members : Members) (stop trailing : Option Fault) (refusal : Refusal),
    Document.ofText text = ⟨.obj members stop, trailing⟩ →
      (Document.ofText text).read reader = .error refusal → refusal.complaint.category ≠ .shape

/-- A fault of the text is no complaint about its shape. -/
theorem Complaint.category_fault (fault : Fault) : (Complaint.fault fault).category ≠ .shape := by
  obtain ⟨kind, place⟩ := fault
  cases kind <;> exact nofun

/-- What has no fault but in the text is refused for the text. -/
theorem Node.exists_fault_of_faulty {α : Type} {result : Except Fault α} {complaint : Complaint}
    (h : faulty result = .error complaint) : ∃ fault, complaint = .fault fault := by
  obtain ⟨fault, -, rfl⟩ := Except.mapError_eq_error.mp h
  exact ⟨fault, rfl⟩

/-- A reader that refuses objects for faults alone never refuses one for its shape. -/
theorem Reader.takesObjects {α : Type} {read : Node → Except Complaint α}
    (h : ∀ members stop complaint, read (.obj members stop) = .error complaint →
      ∃ fault, complaint = .fault fault) : (Reader.ofNode read).TakesObjects := by
  intro text members stop trailing refusal htext hrefused
  have hcomplaint := Document.complaint_read (.ofNode read) (Document.ofText text)
  rw [hrefused, htext, Reader.read_ofNode] at hcomplaint
  obtain ⟨fault, hfault⟩ : ∃ fault, refusal.complaint = .fault fault := by
    rcases Except.bind_eq_error.mp hcomplaint.symm with hread | ⟨value, -, hafter⟩
    · exact h members stop _ hread
    · rcases Except.bind_eq_error.mp hafter with hclose | ⟨_, -, hend⟩
      · exact Node.exists_fault_of_faulty hclose
      · exact nomatch hend
  rw [hfault]
  exact Complaint.category_fault fault

/-! ## Entries -/

namespace Node

mutual

/-- Who passes over a value without faults meets none. -/
@[simp] theorem skipFault_ofJson : ∀ value : Json, (ofJson value).skipFault = none
  | .null | .bool _ | .num _ | .str _ => rfl
  | .arr items => by rw [ofJson, skipFault, skipFaultItems_ofJsonItems, Option.or_none]
  | .obj members => by rw [ofJson, skipFault, skipFaultMembers_ofJsonMembers, Option.or_none]

theorem skipFaultItems_ofJsonItems :
    ∀ items : List Json, skipFaultItems (ofJsonItems items) = none
  | [] => rfl
  | item :: rest => by
      rw [ofJsonItems, skipFaultItems, skipFault_ofJson item, skipFaultItems_ofJsonItems rest]
      rfl

theorem skipFaultMembers_ofJsonMembers :
    ∀ members : List (String × Json), skipFaultMembers (ofJsonMembers members) = none
  | [] => rfl
  | (_, value) :: rest => by
      rw [ofJsonMembers, skipFaultMembers, skipFault_ofJson value,
        skipFaultMembers_ofJsonMembers rest]
      rfl

end

variable {α : Type}

/-- Entries are read member by member. -/
theorem readEntries_ofJson (read : Node → Except Complaint α) (members : List (String × Json)) :
    (ofJson (.obj members)).readEntries read
      = (members.mapM fun member => (read (ofJson member.2)).map (Prod.mk member.1)).map
          Entries.ofList := by
  have hpairs : (ofJsonMembers members).mapM (fun member => do
        let key ← faulty member.1
        let value ← read member.2
        .ok (key, value))
      = members.mapM fun member => (read (ofJson member.2)).map (Prod.mk member.1) := by
    induction members with
    | nil => rfl
    | cons member rest ih =>
      rw [ofJsonMembers, Except.mapM_cons, Except.mapM_cons, ih]
      congr 1
  rw [ofJson, readEntries]
  change ((ofJsonMembers members).mapM (fun member => do
    let key ← faulty member.1
    let value ← read member.2
    .ok (key, value)) >>= _) = _
  rw [hpairs]
  cases members.mapM fun member => (read (ofJson member.2)).map (Prod.mk member.1) <;> rfl

theorem ofJsonItems_eq_map (items : List Json) : ofJsonItems items = items.map ofJson := by
  induction items with
  | nil => rfl
  | cons item rest ih => rw [ofJsonItems, ih, List.map_cons]

/-- Items are read one by one. -/
theorem readItems_ofJson (read : Node → Except Complaint α) (items : List Json) :
    (ofJson (.arr items)).readItems read = items.mapM fun item => read (ofJson item) := by
  rw [ofJson, readItems, ofJsonItems_eq_map, List.mapM_map]
  change (items.mapM (fun item => read (ofJson item)) >>= _) = _
  cases items.mapM fun item => read (ofJson item) <;> rfl

/-- Entries whose values are read back are read back. -/
theorem readEntries_mapValues {read : Node → Except Complaint α} {toJson : α → Json}
    (h : ∀ value, read (ofJson (toJson value)) = .ok value) (entries : Entries α) :
    (ofJson (.obj (entries.mapValues toJson))).readEntries read
      = .ok (Entries.ofList entries) := by
  have hentries : (entries.mapValues toJson).mapM
      (fun member => (read (ofJson member.2)).map (Prod.mk member.1)) = .ok entries := by
    induction entries with
    | nil => rfl
    | cons entry rest ih =>
      rw [Entries.mapValues] at ih
      rw [Entries.mapValues, List.map_cons, Except.mapM_cons, ih, h]
      rfl
  rw [readEntries_ofJson, hentries]
  rfl

/-- Entries that are made of any value are read off every object. -/
theorem readEntries_value (make : Json → α) (members : List (String × Json)) :
    (ofJson (.obj members)).readEntries (fun node => (faulty node.value).map make)
      = .ok (Entries.ofList (Entries.mapValues (fun value => make value.settle) members)) := by
  have hmembers : (members.mapM fun member =>
        ((faulty (ofJson member.2).value).map make).map (Prod.mk member.1))
      = .ok (Entries.mapValues (fun value => make value.settle) members) := by
    refine Except.mapM_eq_ok_iff.mpr (List.forall₂_map_right_iff.mpr ?_)
    refine List.forall₂_same.mpr fun member _ => ?_
    rw [Node.value_ofJson]
    rfl
  rw [readEntries_ofJson, hmembers]
  rfl

/-- They are refused for a fault of the text alone. -/
theorem exists_fault_of_readEntries {make : Json → α} {members : Members} {stop : Option Fault}
    {complaint : Complaint} (h : (obj members stop).readEntries
      (fun node => (faulty node.value).map make) = .error complaint) :
    ∃ fault, complaint = .fault fault := by
  rcases Except.bind_eq_error.mp h with h | ⟨pairs, -, h⟩
  · obtain ⟨-, ⟨key, node⟩, -, -, hmember, -⟩ := Except.mapM_eq_error.mp h
    rcases Except.bind_eq_error.mp hmember with hkey | ⟨name, -, hmember⟩
    · exact exists_fault_of_faulty hkey
    · rcases Except.bind_eq_error.mp hmember with hvalue | ⟨value, -, hend⟩
      · exact exists_fault_of_faulty (Except.map_eq_error.mp hvalue)
      · exact nomatch hend
  · rcases Except.bind_eq_error.mp h with hclose | ⟨_, -, hend⟩
    · exact exists_fault_of_faulty hclose
    · exact nomatch hend

theorem ofJsonMembers_append (first second : List (String × Json)) :
    ofJsonMembers (first ++ second) = ofJsonMembers first ++ ofJsonMembers second := by
  induction first with
  | nil => rfl
  | cons member rest ih => rw [List.cons_append, ofJsonMembers, ofJsonMembers, ih, List.cons_append]

theorem key_ne_of_not_mem {members : List (String × Json)} {key : String}
    (h : key ∉ Entries.names members) :
    ∀ member ∈ ofJsonMembers members, member.1 ≠ .ok key := by
  induction members with
  | nil => exact nofun
  | cons member rest ih =>
    obtain ⟨hmember, hrest⟩ := not_or.mp (mt List.mem_cons.mpr h)
    exact List.forall_mem_cons.mpr ⟨fun heq => hmember (Except.ok.inj heq).symm, ih hrest⟩

end Node

/-! ## Records -/

namespace Record

variable {σ : Type} (record : Record σ)

/-- Takes one member, after the fields that were seen. -/
def takeMember (taken : List String × σ) (member : Except Fault String × Node) :
    Except Complaint (List String × σ) := do
  let name ← Node.faulty member.1
  match record.field? name with
  | some field =>
      if taken.1.contains name then .error (.duplicateField name)
      else (field.read member.2).map fun update => (name :: taken.1, update taken.2)
  | none =>
      if record.closed then .error (.unknownField name (record.fields.map RecordField.name))
      else (Node.faulty member.2.skip).map fun _ => taken

/-- Members are taken one after the other. -/
theorem readMembers_eq_foldlM (members : Members) (seen : List String) (state : σ) :
    record.readMembers seen state members = members.foldlM record.takeMember (seen, state) := by
  induction members generalizing seen state with
  | nil => rfl
  | cons member rest ih =>
    obtain ⟨key, node⟩ := member
    rw [readMembers, List.foldlM_cons, takeMember]
    simp only [bind]
    cases Node.faulty key with
    | error => rfl
    | ok name =>
      simp only [Except.bind]
      cases record.field? name with
      | some field =>
        dsimp only
        split
        · rfl
        · cases field.read node with
          | error => rfl
          | ok update => exact ih _ _
      | none =>
        dsimp only
        split
        · rfl
        · cases Node.faulty node.skip with
          | error => rfl
          | ok => exact ih _ _

/-- What a member does to the state: a field reads it, and any other key changes nothing, unless the
record is closed. -/
def update (member : String × Json) : Except Complaint (σ → σ) :=
  match record.field? member.1 with
  | some field => field.read (Node.ofJson member.2)
  | none =>
      if record.closed then .error (.unknownField member.1 (record.fields.map RecordField.name))
      else .ok id

/-- Does one thing after another to a state. -/
def applyAll (updates : List (σ → σ)) (state : σ) : σ :=
  updates.foldl (fun state update => update state) state

theorem applyAll_append (first second : List (σ → σ)) (state : σ) :
    applyAll (first ++ second) state = applyAll second (applyAll first state) :=
  List.foldl_append

/-- What the member of a key says, or what holds without it. -/
def said {α : Type} (members : List (String × Json)) (key : String) (meaning : Json → α)
    (otherwise : α) : α :=
  ((Entries.get? members key).map meaning).getD otherwise

/-- A member in front says what holds without the rest. -/
theorem said_cons {α : Type} {key : String} {rest : List (String × Json)}
    (h : key ∉ Entries.names rest) (value : Json) (wanted : String) (meaning : Json → α)
    (otherwise : α) :
    said ((key, value) :: rest) wanted meaning otherwise
      = said rest wanted meaning (if key = wanted then meaning value else otherwise) := by
  rw [said, Entries.get?_cons, said]
  by_cases hkey : key = wanted
  · subst hkey
    rw [if_pos rfl, if_pos rfl, Entries.get?_eq_none.mpr h]
    rfl
  · rw [if_neg hkey, if_neg hkey]

/-- The keys that are fields of the record. -/
def known (members : List (String × Json)) : List String :=
  (Entries.names members).filter fun name => (record.field? name).isSome

/-- A field that stands for the first time is read. -/
theorem readMembers_field {key : String} {field : RecordField σ}
    (h : record.field? key = some field) {seen : List String} (hseen : key ∉ seen) (state : σ)
    (node : Node) (rest : Members) :
    record.readMembers seen state ((.ok key, node) :: rest)
      = field.read node >>= fun change =>
          record.readMembers (key :: seen) (change state) rest := by
  rw [readMembers, Node.faulty]
  simp only [Except.mapError, bind, Except.bind, h, List.contains_iff_mem, hseen, if_false]

/-- A key that is no field is refused or passed over. -/
theorem readMembers_other {key : String} (h : record.field? key = none) (seen : List String)
    (state : σ) (value : Json) (rest : Members) :
    record.readMembers seen state ((.ok key, Node.ofJson value) :: rest)
      = record.update (key, value) >>= fun _ => record.readMembers seen state rest := by
  rw [readMembers, Node.faulty, update, Node.skip, Node.skipFault_ofJson]
  simp only [Except.mapError, bind, Except.bind, h]
  cases record.closed <;> rfl

/-- **Members whose keys differ are read one by one**, and do one after the other what they ask. -/
theorem readMembers_ofJsonMembers : ∀ (members : List (String × Json)) (seen : List String)
    (state : σ), (Entries.names members).Nodup → (∀ name ∈ Entries.names members, name ∉ seen) →
      record.readMembers seen state (Node.ofJsonMembers members)
        = (members.mapM record.update).map fun updates =>
            ((record.known members).reverse ++ seen, applyAll updates state)
  | [], _, _, _, _ => rfl
  | (key, value) :: rest, seen, state, hnodup, hseen => by
      obtain ⟨hkey, hrest⟩ := List.nodup_cons.mp hnodup
      have hlater : ∀ name ∈ Entries.names rest, name ∉ seen := fun name hname =>
        hseen name (List.mem_cons_of_mem _ hname)
      rw [Node.ofJsonMembers, Except.mapM_cons]
      cases hfield : record.field? key with
      | some field =>
        have hlater' : ∀ name ∈ Entries.names rest, name ∉ key :: seen := fun name hname hmem =>
          (List.mem_cons.mp hmem).elim (fun heq => hkey (heq ▸ hname)) (hlater name hname)
        have hknown : (record.known ((key, value) :: rest)).reverse ++ seen
            = (record.known rest).reverse ++ key :: seen := by
          simp [known, hfield]
        have hupdate : record.update (key, value) = field.read (Node.ofJson value) := by
          simp only [update, hfield]
        rw [record.readMembers_field hfield (hseen key List.mem_cons_self), hupdate, hknown]
        cases field.read (Node.ofJson value) with
        | error => rfl
        | ok change =>
          refine (readMembers_ofJsonMembers rest (key :: seen) (change state) hrest
            hlater').trans ?_
          cases rest.mapM record.update <;> rfl
      | none =>
        have hknown : record.known ((key, value) :: rest) = record.known rest := by
          simp [known, hfield]
        rw [record.readMembers_other hfield, hknown]
        cases hupdate : record.update (key, value) with
        | error => rfl
        | ok change =>
          obtain rfl : id = change := by
            simp only [update, hfield] at hupdate
            split at hupdate
            · exact nomatch hupdate
            · exact Except.ok.inj hupdate
          refine (readMembers_ofJsonMembers rest seen state hrest hlater).trans ?_
          cases rest.mapM record.update <;> rfl

/-- Members that a record does not know are no help where one is missing. -/
theorem missing?_known (members : List (String × Json)) :
    record.missing? (record.known members).reverse = record.missing? (Entries.names members) := by
  rw [missing?, missing?, ← List.head?_filter, ← List.head?_filter]
  congr 1
  refine List.filter_congr fun field hfield => ?_
  have hsome : (record.field? field.name).isSome = true := by
    rw [field?, List.find?_isSome]
    exact ⟨field, hfield, beq_self_eq_true _⟩
  simp [known, hsome]

/-- **An object in which no key stands twice is read member by member**: each one says what it does
to the state, and then a required field must not be missing. -/
theorem read_ofJson (source : Source) (start : σ) {members : List (String × Json)}
    (h : (Entries.names members).Nodup) :
    record.read source start (Node.ofJson (.obj members))
      = members.mapM record.update >>= fun updates =>
          match record.missing? (Entries.names members) with
          | some field => .error (.missingField field.name)
          | none => .ok (applyAll updates start) := by
  rw [Node.ofJson, read, record.readMembers_ofJsonMembers members [] start h nofun]
  cases members.mapM record.update with
  | error => rfl
  | ok updates =>
    simp only [Except.map, bind, Except.bind, List.append_nil, missing?_known]
    rfl

end Record

end EntityQuery
