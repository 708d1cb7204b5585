import EntityQuery.FileTree
import EntityQuery.Proofs.Except
import Mathlib.Data.List.Induction

/-!
# Proofs/FileTree — files read after they were written

A file that is written is read back (`read_of_write`), and writing it leaves a file at another place
as it is (`read_of_write_ne`).  Where a path leads depends on the directories alone, and more of
them change nothing about it (`locate_mono`), so writing files moves none.
-/

namespace EntityQuery.FileTree

/-! ## Where paths lead -/

variable {tree other : FileTree}

theorem isDirectory_congr (h : tree.directories = other.directories) (place : List String) :
    tree.isDirectory place = other.isDirectory place := by
  rw [isDirectory, isDirectory, h]

/-- A step from a directory: it stays, goes back, or goes forward by a name. -/
inductive Step (tree : FileTree) : List String → String → List String → Prop where
  | stay {place : List String} {step : String} (hplace : tree.isDirectory place = true)
      (hstays : staysInPlace step = true) : Step tree place step place
  | back {place : List String} (hplace : tree.isDirectory place = true) :
      Step tree place ".." place.dropLast
  | forward {place : List String} {name : String} (hplace : tree.isDirectory place = true)
      (hmoves : staysInPlace name = false) (hforward : name ≠ "..")
      (hshort : name.utf8ByteSize ≤ longestName) : Step tree place name (place ++ [name])

/-- What a step does. -/
theorem takeStep_eq_ok {place next : List String} {step : String} :
    tree.takeStep place step = .ok next ↔ tree.Step place step next := by
  constructor
  · intro h
    unfold takeStep at h
    split at h
    · rename_i hplace
      split at h
      · obtain rfl := Except.ok.inj h
        exact .stay hplace ‹_›
      split at h
      · rename_i hback
        obtain rfl := Except.ok.inj h
        exact hback ▸ .back hplace
      split at h
      · exact nomatch h
      · obtain rfl := Except.ok.inj h
        exact .forward hplace (Bool.not_eq_true _ ▸ ‹_›) ‹_› (Nat.not_lt.mp ‹_›)
    · split at h <;> exact nomatch h
  · rintro (⟨hplace, hstays⟩ | hplace | ⟨hplace, hmoves, hforward, hshort⟩)
    · rw [takeStep, if_pos hplace, if_pos hstays]
    · rw [takeStep, if_pos hplace]
      rfl
    · rw [takeStep, if_pos hplace, hmoves, if_neg Bool.false_ne_true, if_neg hforward,
        if_neg (Nat.not_lt.mpr hshort)]

theorem Step.isDirectory {place next : List String} {step : String}
    (h : tree.Step place step next) : tree.isDirectory place = true := by
  cases h <;> assumption

/-- A step that is taken in a tree is taken in every tree with its directories. -/
theorem Step.mono (h : ∀ place, tree.isDirectory place = true → other.isDirectory place = true)
    {place next : List String} {step : String} (hstep : tree.Step place step next) :
    other.Step place step next := by
  cases hstep with
  | stay hplace hstays => exact .stay (h _ hplace) hstays
  | back hplace => exact .back (h _ hplace)
  | forward hplace hmoves hforward hshort => exact .forward (h _ hplace) hmoves hforward hshort

/-- A walk with one more step. -/
theorem walk_concat_eq_ok {steps place : List String} {step : String} :
    tree.walk (steps ++ [step]) = .ok place
      ↔ ∃ before, tree.walk steps = .ok before ∧ tree.Step before step place := by
  rw [walk_append]
  change (tree.walk steps >>= _) = _ ↔ _
  simp only [Except.bind_eq_ok, List.foldlM_cons, List.foldlM_nil, bind_pure, takeStep_eq_ok]

/-- A walk leads to the same place in every tree with the directories of a tree. -/
theorem walk_mono (h : ∀ place, tree.isDirectory place = true → other.isDirectory place = true)
    {steps place : List String} (hwalk : tree.walk steps = .ok place) :
    other.walk steps = .ok place := by
  induction steps using List.reverseRecOn generalizing place with
  | nil => exact hwalk
  | append_singleton steps step ih =>
    obtain ⟨before, hbefore, hstep⟩ := walk_concat_eq_ok.mp hwalk
    exact walk_concat_eq_ok.mpr ⟨before, ih hbefore, hstep.mono h⟩

/-- A walk leads to the same place in trees with the same directories. -/
theorem walk_congr (h : tree.directories = other.directories) {steps place : List String}
    (hwalk : tree.walk steps = .ok place) : other.walk steps = .ok place :=
  walk_mono (fun place hplace => isDirectory_congr h place ▸ hplace) hwalk

/-- Where a path leads: it can be a path, and its steps lead there. -/
theorem locate_eq_ok {path : String} {place : List String} :
    tree.locate path = .ok place ↔ (path.isEmpty = false ∧ usableSteps path = .ok (pathSteps path))
      ∧ tree.walk (pathSteps path) = .ok place := by
  have husable {steps : List String} (h : usableSteps path = .ok steps) :
      pathSteps path = steps := by
    unfold usableSteps at h
    split at h
    · exact nomatch h
    split at h
    · exact nomatch h
    · exact Except.ok.inj h
  unfold locate
  constructor
  · intro h
    split at h
    · exact nomatch h
    · rename_i hempty
      obtain ⟨steps, hsteps, hwalk⟩ := Except.bind_eq_ok.mp h
      obtain rfl := husable hsteps
      exact ⟨⟨Bool.not_eq_true _ ▸ hempty, hsteps⟩, hwalk⟩
  · rintro ⟨⟨hempty, hsteps⟩, hwalk⟩
    rw [hempty, if_neg Bool.false_ne_true, hsteps]
    exact hwalk

/-- A path leads to the same place in every tree with the directories of a tree. -/
theorem locate_mono (h : ∀ place, tree.isDirectory place = true → other.isDirectory place = true)
    {path : String} {place : List String} (hlocate : tree.locate path = .ok place) :
    other.locate path = .ok place := by
  obtain ⟨hpath, hwalk⟩ := locate_eq_ok.mp hlocate
  exact locate_eq_ok.mpr ⟨hpath, walk_mono h hwalk⟩

/-- A path leads to the same place in trees with the same directories. -/
theorem locate_congr (h : tree.directories = other.directories) {path : String}
    {place : List String} (hlocate : tree.locate path = .ok place) :
    other.locate path = .ok place :=
  locate_mono (fun place hplace => isDirectory_congr h place ▸ hplace) hlocate

/-- A name joined to a directory leads to its place in the directory. -/
theorem locate_joinPath {directory name : String} (hname : IsPlainName name)
    {place : List String} (h : tree.locate (joinPath directory name) = .ok place) :
    ∃ above, tree.walk (pathSteps directory) = .ok above ∧ tree.Step above name place
      ∧ place = above ++ [name] := by
  obtain ⟨-, hwalk⟩ := locate_eq_ok.mp h
  rw [walk_joinPath tree directory hname] at hwalk
  obtain ⟨above, habove, hstep⟩ := Except.bind_eq_ok.mp hwalk
  have htaken := takeStep_eq_ok.mp hstep
  refine ⟨above, habove, htaken, ?_⟩
  cases htaken with
  | stay _ hstays => exact absurd hstays (hname.moves ▸ Bool.false_ne_true)
  | back => exact absurd rfl hname.forward
  | forward => rfl

/-! ## Writing and reading -/

theorem lookup_cons (file : List String × String) (rest : List (List String × String))
    (wanted : List String) :
    (file :: rest).lookup wanted = if wanted = file.1 then some file.2 else rest.lookup wanted := by
  rw [List.lookup_cons]
  by_cases h : wanted = file.1
  · rw [if_pos h, beq_iff_eq.mpr h]
  · rw [if_neg h, beq_false_of_ne h]

theorem lookup_put (place : List String) (text : String) (wanted : List String)
    (files : List (List String × String)) :
    (put place text files).lookup wanted
      = if wanted = place then some text else files.lookup wanted := by
  induction files with
  | nil => exact lookup_cons (place, text) [] wanted
  | cons file rest ih =>
    rw [put]
    split
    · rename_i hfile
      rw [lookup_cons, lookup_cons, hfile]
      by_cases h : wanted = place <;> simp only [h, if_true, if_false]
    · rename_i hfile
      rw [lookup_cons, lookup_cons, ih]
      by_cases h : wanted = place
      · rw [if_pos h, if_pos h, if_neg fun heq => hfile (heq.symm.trans h)]
      · rw [if_neg h, if_neg h]

variable {written : FileTree} {path text : String}

/-- What writing a file does: the place is no directory, and its text is put there. -/
theorem write_eq_ok : tree.write path text = .ok written ↔
    ∃ place, tree.locate path = .ok place ∧ tree.isDirectory place = false
      ∧ written = { tree with files := put place text tree.files } := by
  constructor
  · intro h
    obtain ⟨place, hplace, hwrite⟩ := Except.bind_eq_ok.mp h
    unfold writeAt at hwrite
    split at hwrite
    · exact nomatch hwrite
    · exact ⟨place, hplace, Bool.not_eq_true _ ▸ ‹_›, (Except.ok.inj hwrite).symm⟩
  · rintro ⟨place, hplace, hdirectory, rfl⟩
    rw [write, hplace]
    change tree.writeAt text place = _
    rw [writeAt, hdirectory, if_neg Bool.false_ne_true]

theorem directories_write (h : tree.write path text = .ok written) :
    tree.directories = written.directories := by
  obtain ⟨place, -, -, rfl⟩ := write_eq_ok.mp h
  rfl

/-- What reading a file finds. -/
theorem read_eq_ok : tree.read path = .ok text ↔
    ∃ place, tree.locate path = .ok place ∧ tree.isDirectory place = false
      ∧ tree.files.lookup place = some text := by
  constructor
  · intro h
    obtain ⟨place, hplace, hread⟩ := Except.bind_eq_ok.mp h
    unfold textAt at hread
    split at hread
    · exact nomatch hread
    · split at hread
      · rename_i hdirectory _ found hfound
        obtain rfl := Except.ok.inj hread
        exact ⟨place, hplace, Bool.not_eq_true _ ▸ hdirectory, hfound⟩
      · exact nomatch hread
  · rintro ⟨place, hplace, hdirectory, hfound⟩
    rw [read, hplace]
    change tree.textAt place = _
    rw [textAt, hdirectory, if_neg Bool.false_ne_true, hfound]

/-- **A file that is written is read back.** -/
theorem read_of_write (h : tree.write path text = .ok written) : written.read path = .ok text := by
  obtain ⟨place, hplace, hdirectory, rfl⟩ := write_eq_ok.mp h
  refine read_eq_ok.mpr ⟨place, locate_congr (directories_write h) hplace, hdirectory, ?_⟩
  rw [lookup_put, if_pos rfl]

/-- **Writing a file leaves those at other places alone.** -/
theorem read_of_write_ne (h : tree.write path text = .ok written) {kept : String}
    {place other : List String} (hplace : tree.locate path = .ok place)
    (hother : tree.locate kept = .ok other) (hne : other ≠ place) {found : String}
    (hfound : tree.read kept = .ok found) : written.read kept = .ok found := by
  obtain ⟨_, hplace', -, rfl⟩ := write_eq_ok.mp h
  obtain rfl := Except.ok.inj (hplace.symm.trans hplace')
  obtain ⟨_, hother', hdirectory, hlookup⟩ := read_eq_ok.mp hfound
  obtain rfl := Except.ok.inj (hother.symm.trans hother')
  refine read_eq_ok.mpr ⟨other, locate_congr (directories_write h) hother, hdirectory, ?_⟩
  rw [lookup_put, if_neg hne]
  exact hlookup

end EntityQuery.FileTree
