import EntityQuery.Proofs.Reading.Record

/-!
# Proofs/Reading/Known — the members that a record looks at

A record asks for some keys.  An open record reads an object as it reads the members of these keys
alone (`Record.read_filter`), and a key that it knows must not stand twice
(`Record.nodup_known_of_read`).  Where no key stands twice, an object is read if each field that is
there can be read and each required one is there (`Record.exists_read_ofJson`).
-/

namespace EntityQuery.Record

variable {σ : Type} {record : Record σ}

/-- The keys of a record are those of its fields. -/
theorem isSome_field? (name : String) :
    (record.field? name).isSome = (record.fields.map RecordField.name).contains name := by
  rw [Bool.eq_iff_iff, field?, List.find?_isSome, List.contains_iff_mem, List.mem_map]
  simp only [beq_iff_eq]

/-! ## Open records -/

/-- An open record passes over a key that it does not know. -/
theorem takeMember_other (hopen : record.closed = false) {member : String × Json}
    (h : record.field? member.1 = none) (taken : List String × σ) :
    record.takeMember taken (.ok member.1, Node.ofJson member.2) = .ok taken := by
  rw [takeMember, Node.faulty, Node.skip, Node.skipFault_ofJson]
  simp only [Except.mapError, bind, Except.bind, h, hopen]
  rfl

theorem readMembers_filter (hopen : record.closed = false) (members : List (String × Json))
    (seen : List String) (state : σ) :
    record.readMembers seen state (Node.ofJsonMembers members)
      = record.readMembers seen state
          (Node.ofJsonMembers (members.filter fun member => (record.field? member.1).isSome)) := by
  rw [readMembers_eq_foldlM, readMembers_eq_foldlM]
  generalize (seen, state) = taken
  induction members generalizing taken with
  | nil => rfl
  | cons member rest ih =>
    rw [Node.ofJsonMembers, List.foldlM_cons, List.filter_cons]
    split
    · rw [Node.ofJsonMembers, List.foldlM_cons]
      exact congrArg _ (funext ih)
    · rename_i hother
      rw [takeMember_other hopen (Option.not_isSome_iff_eq_none.mp hother)]
      exact ih taken

/-- **An open record reads the members of its own keys** and no others. -/
theorem read_filter (hopen : record.closed = false) (source : Source) (start : σ)
    (members : List (String × Json)) :
    record.read source start (Node.ofJson (.obj members))
      = record.read source start (Node.ofJson
          (.obj (members.filter fun member => (record.field? member.1).isSome))) := by
  rw [Node.ofJson, Node.ofJson, read, read, readMembers_filter hopen]

/-! ## Repeated keys -/

/-- Members that are read have known keys that are new and differ. -/
theorem nodup_known_of_readMembers {members : List (String × Json)} {seen : List String}
    {state : σ} {result : List String × σ}
    (h : record.readMembers seen state (Node.ofJsonMembers members) = .ok result) :
    (record.known members).Nodup ∧ ∀ name ∈ record.known members, name ∉ seen := by
  induction members generalizing seen state with
  | nil => exact ⟨List.nodup_nil, nofun⟩
  | cons member rest ih =>
    obtain ⟨key, value⟩ := member
    rw [Node.ofJsonMembers] at h
    cases hfield : record.field? key with
    | none =>
      rw [record.readMembers_other hfield] at h
      obtain ⟨-, -, h⟩ := Except.bind_eq_ok.mp h
      simpa [known, hfield] using ih h
    | some field =>
      have hnew : key ∉ seen := by
        intro hseen
        rw [readMembers, Node.faulty] at h
        simp [Except.mapError, bind, Except.bind, hfield, hseen] at h
      rw [record.readMembers_field hfield hnew] at h
      obtain ⟨change, -, h⟩ := Except.bind_eq_ok.mp h
      obtain ⟨hnodup, hothers⟩ := ih h
      have hknown : record.known ((key, value) :: rest) = key :: record.known rest := by
        simp [known, hfield]
      rw [hknown]
      refine ⟨List.nodup_cons.mpr ⟨fun hmem => hothers key hmem List.mem_cons_self, hnodup⟩, ?_⟩
      exact List.forall_mem_cons.mpr
        ⟨hnew, fun name hname hseen => hothers name hname (List.mem_cons_of_mem key hseen)⟩

/-- **A known key does not stand twice** in an object that is read. -/
theorem nodup_known_of_read {source : Source} {start state : σ} {members : List (String × Json)}
    (h : record.read source start (Node.ofJson (.obj members)) = .ok state) :
    (record.known members).Nodup := by
  rw [Node.ofJson, read] at h
  obtain ⟨result, hresult, -⟩ := Except.bind_eq_ok.mp h
  exact (nodup_known_of_readMembers hresult).1

/-! ## Objects that are read -/

theorem exists_update {member : String × Json}
    (hread : ∀ field ∈ record.fields, field.name = member.1 →
      ∃ change, field.read (Node.ofJson member.2) = .ok change)
    (hknown : record.closed = true → ∃ field ∈ record.fields, field.name = member.1) :
    ∃ change, record.update member = .ok change := by
  rw [update]
  cases hfield : record.field? member.1 with
  | some field =>
    rw [field?] at hfield
    have hname := List.find?_some hfield
    exact hread field (List.mem_of_find?_eq_some hfield) (eq_of_beq hname)
  | none =>
    cases hclosed : record.closed with
    | false => exact ⟨id, rfl⟩
    | true =>
      obtain ⟨field, hmem, hname⟩ := hknown hclosed
      exact absurd (beq_iff_eq.mpr hname) (List.find?_eq_none.mp hfield field hmem)

/-- **An object in which no key stands twice is read** if the fields that are there can be read, the
record knows the keys if it is closed, and no required field is left out. -/
theorem exists_read_ofJson (source : Source) (start : σ) {members : List (String × Json)}
    (hnodup : (Entries.names members).Nodup)
    (hread : ∀ member ∈ members, ∀ field ∈ record.fields, field.name = member.1 →
      ∃ change, field.read (Node.ofJson member.2) = .ok change)
    (hknown : record.closed = true →
      ∀ member ∈ members, ∃ field ∈ record.fields, field.name = member.1)
    (hrequired : ∀ field ∈ record.fields, field.required = true →
      field.name ∈ Entries.names members) :
    ∃ state, record.read source start (Node.ofJson (.obj members)) = .ok state := by
  obtain ⟨updates, hupdates⟩ := Except.exists_mapM_eq_ok.mpr fun member hmember =>
    exists_update (hread member hmember) fun hclosed => hknown hclosed member hmember
  have hmissing : record.missing? (Entries.names members) = none := by
    refine List.find?_eq_none.mpr fun field hfield => ?_
    have := hrequired field hfield
    simpa using this
  rw [record.read_ofJson source start hnodup, hupdates, hmissing]
  exact ⟨_, rfl⟩

end EntityQuery.Record
