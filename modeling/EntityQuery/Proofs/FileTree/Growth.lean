import EntityQuery.Proofs.FileTree

/-!
# Proofs/FileTree/Growth — what can be reached after directories are made

    steps    x   ..   conf          before:  x is missing, the walk fails
                                    after:   x was made, the walk leads to conf

Making directories lets a tree grow (`FileTree.Grows`): they come where nothing was, so whatever was
read before is read after.  But there are more walks in a tree that has grown, and some of them come
back from the new directories to the old ones.  Steps that go back only from directories that are
there (`FileTree.IsGrounded`) do not: if they lead among the old directories after, they led there
before (`walk_of_grows`).
-/

namespace EntityQuery.FileTree

variable {tree made : FileTree} {path text : String} {steps place : List String}

/-! ## Growth -/

/-- A tree grows: directories come where no file is, and files stay as they are. -/
structure Grows (tree made : FileTree) : Prop where
  files : made.files = tree.files
  keeps : ∀ place, tree.isDirectory place = true → made.isDirectory place = true
  fresh : ∀ place, made.isDirectory place = true →
    tree.isDirectory place = true ∨ tree.files.lookup place = none

theorem Grows.refl (tree : FileTree) : tree.Grows tree :=
  ⟨rfl, fun _ => id, fun _ => .inl⟩

theorem Grows.trans {last : FileTree} (h : tree.Grows made) (hlast : made.Grows last) :
    tree.Grows last where
  files := hlast.files.trans h.files
  keeps place hplace := hlast.keeps place (h.keeps place hplace)
  fresh place hplace := (hlast.fresh place hplace).elim (h.fresh place)
    fun hnone => .inr (h.files ▸ hnone)

theorem grows_makeDirectoryAt (h : tree.makeDirectoryAt place = .ok made) : tree.Grows made := by
  unfold makeDirectoryAt at h
  split at h
  · exact nomatch h
  · rename_i hfree
    obtain rfl := Except.ok.inj h
    have hnone : tree.files.lookup place = none := by
      rw [occupied, Bool.or_eq_true, not_or] at hfree
      exact Option.not_isSome_iff_eq_none.mp hfree.2
    refine ⟨rfl, fun other hother => ?_, fun other hother => ?_⟩
    · simp only [isDirectory, Bool.or_eq_true, List.contains_iff_mem, List.mem_append] at *
      exact hother.imp_right .inl
    · simp only [isDirectory, Bool.or_eq_true, List.contains_iff_mem, List.mem_append,
        List.mem_singleton] at *
      rcases hother with hroot | hold | rfl
      · exact .inl (.inl hroot)
      · exact .inl (.inr hold)
      · exact .inr hnone

theorem grows_ensureDirectory (h : tree.ensureDirectory steps = .ok made) : tree.Grows made := by
  unfold ensureDirectory at h
  split at h
  · rename_i hmade
    obtain rfl := Except.ok.inj h
    obtain ⟨place, -, hmade⟩ := Except.bind_eq_ok.mp hmade
    exact grows_makeDirectoryAt hmade
  · split at h
    · obtain rfl := Except.ok.inj h
      exact .refl tree
    · cases h

/-- **Making directories lets a tree grow**, also where it fails. -/
theorem grows_makeDirectories (tree : FileTree) (steps : List String) :
    tree.Grows (tree.makeDirectories steps).1 := by
  fun_induction makeDirectories tree steps with
  | case1 steps made hmade => exact grows_ensureDirectory hmade
  | case2 steps fault hfault h hlt above fault' habove ih => rw [habove] at ih; exact ih
  | case3 steps fault hfault h hlt above habove made hmade ih =>
    rw [habove] at ih
    exact ih.trans (grows_ensureDirectory hmade)
  | case4 steps fault hfault h hlt above habove fault' hfault' ih => rw [habove] at ih; exact ih
  | case5 => exact .refl _

/-- A directory that can be made is made. -/
theorem makeDirectories_of_ensure (h : tree.ensureDirectory steps = .ok made) :
    tree.makeDirectories steps = (made, .ok ()) := by
  rw [makeDirectories, h]

/-- A directory whose parent is missing is made after it. -/
theorem makeDirectories_of_missing {last : FileTree}
    (h : tree.ensureDirectory steps = .error .missing) (hsteps : steps ≠ [])
    (habove : tree.makeDirectories (parentSteps steps) = (made, .ok ()))
    (hlast : made.ensureDirectory steps = .ok last) :
    tree.makeDirectories steps = (last, .ok ()) := by
  rw [makeDirectories, h]
  simp only [hsteps, ne_eq, not_false_eq_true, and_self, reduceDIte, habove, hlast]

theorem grows_makePath (tree : FileTree) (path : String) : tree.Grows (tree.makePath path).1 := by
  unfold makePath
  split
  · exact grows_makeDirectories tree _
  · exact .refl tree

/-- **What was read is read after a tree has grown.** -/
theorem Grows.read (h : tree.Grows made) (hread : tree.read path = .ok text) :
    made.read path = .ok text := by
  obtain ⟨place, hplace, hfile, hlookup⟩ := read_eq_ok.mp hread
  refine read_eq_ok.mpr ⟨place, locate_mono h.keeps hplace, ?_, h.files ▸ hlookup⟩
  refine Bool.eq_false_iff.mpr fun hdirectory => ?_
  rcases h.fresh place hdirectory with hold | hnone
  · exact absurd hold (hfile ▸ Bool.false_ne_true)
  · exact nomatch hlookup.symm.trans hnone

/-! ## Places on the way -/

/-- All places above a directory that is reached are directories. -/
theorem isDirectory_of_walk (h : tree.walk steps = .ok place)
    (hplace : tree.isDirectory place = true) :
    ∀ above, above <+: place → tree.isDirectory above = true := by
  induction steps using List.reverseRecOn generalizing place with
  | nil =>
    obtain rfl := Except.ok.inj h
    intro above habove
    rw [List.prefix_nil.mp habove]
    rfl
  | append_singleton steps step ih =>
    obtain ⟨before, hbefore, hstep⟩ := walk_concat_eq_ok.mp h
    intro above habove
    cases hstep with
    | stay hdirectory => exact ih hbefore hdirectory above habove
    | back hdirectory =>
      exact ih hbefore hdirectory above (habove.trans (List.dropLast_prefix before))
    | forward hdirectory =>
      rcases List.prefix_concat_iff.mp habove with rfl | habove
      · exact hplace
      · exact ih hbefore hdirectory above habove

/-- Steps that go back only from directories that are there. -/
def IsGrounded (tree : FileTree) (steps : List String) : Prop :=
  ∀ before after, steps = before ++ ".." :: after → tree.leadsToDirectory before = true

theorem IsGrounded.of_append {more : List String} (h : tree.IsGrounded (steps ++ more)) :
    tree.IsGrounded steps := fun before after heq =>
  h before (after ++ more) (by rw [heq, List.append_assoc, List.cons_append])

/-- Steps that go nowhere back are grounded. -/
theorem IsGrounded.of_not_mem (h : ".." ∉ steps) : tree.IsGrounded steps := fun before _ heq =>
  absurd (heq ▸ List.mem_append_right before List.mem_cons_self) h

/-- **Grounded steps that lead among the old directories led there before.** -/
theorem walk_of_grows (h : tree.Grows made) (hgrounded : tree.IsGrounded steps)
    (hplace : ∀ above, above <+: place → tree.isDirectory above = true)
    (hwalk : made.walk steps = .ok place) : tree.walk steps = .ok place := by
  induction steps using List.reverseRecOn generalizing place with
  | nil => exact hwalk
  | append_singleton steps step ih =>
    obtain ⟨before, hbefore, hstep⟩ := walk_concat_eq_ok.mp hwalk
    have hsteps := hgrounded.of_append
    refine walk_concat_eq_ok.mpr ⟨before, ?_⟩
    cases hstep with
    | stay _ hstays =>
      exact ⟨ih hsteps hplace hbefore, .stay (hplace place (List.prefix_refl place)) hstays⟩
    | back =>
      -- The directory that the step goes back from was there, so the walk to it leads there still.
      have hback := hgrounded steps [] rfl
      unfold leadsToDirectory at hback
      split at hback
      · rename_i old hold
        obtain rfl := Except.ok.inj ((walk_mono h.keeps hold).symm.trans hbefore)
        exact ⟨hold, .back hback⟩
      · exact nomatch hback
    | forward _ hmoves hforward hshort =>
      have habove := hplace before (List.prefix_append before [step])
      refine ⟨ih hsteps (fun above habove' => ?_) hbefore, .forward habove hmoves hforward hshort⟩
      exact hplace above (habove'.trans (List.prefix_append before [step]))

/-! ## Files that are met again -/

/-- **A file that is met after a tree has grown is there before**, if the steps to its directory are
grounded. -/
theorem holds_of_grows (h : tree.Grows made) {directory other name : String}
    (hname : IsPlainName name) (hgrounded : tree.IsGrounded (pathSteps other))
    (hread : tree.read (joinPath directory name) = .ok text)
    (hplace : tree.locate (joinPath directory name) = .ok place)
    (hmet : made.locate (joinPath other name) = .ok place) :
    tree.holds (joinPath other name) = true := by
  obtain ⟨above, habove, hstep, rfl⟩ := locate_joinPath hname hplace
  obtain ⟨above', hwalk, hstep', heq⟩ := locate_joinPath hname hmet
  obtain rfl : above = above' := List.append_inj_left' heq rfl
  have hdirectories := isDirectory_of_walk habove hstep.isDirectory
  have hold := walk_of_grows h hgrounded hdirectories hwalk
  have hlocate : tree.locate (joinPath other name) = .ok (above ++ [name]) := by
    refine locate_eq_ok.mpr ⟨(locate_eq_ok.mp hmet).1, ?_⟩
    rw [walk_joinPath tree other hname, hold]
    exact takeStep_eq_ok.mpr hstep
  obtain ⟨_, hplace', -, hlookup⟩ := read_eq_ok.mp hread
  obtain rfl := Except.ok.inj (hplace.symm.trans hplace')
  simp [holds, hlocate, occupied, hlookup]

end EntityQuery.FileTree
