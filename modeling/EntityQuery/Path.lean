/-!
# Path — paths and their steps

A path is a text that slashes cut into steps. A step is a name, or two dots for the directory above,
or nothing or a dot, which both stay where they are. Nothing is resolved here: whether `a/../b`
leads anywhere depends on `a`, and only a walk through files and directories can tell.

`pathSteps_joinPath` says that joining a name to a directory adds it as the last step, up to one
step that stays in place.
-/

namespace EntityQuery

/-- Joins a path to a directory; an absolute path stands by itself. -/
def joinPath (directory path : String) : String :=
  if path.toList.head? = some '/' then path
  else match directory.toList.getLast? with
    | none | some '/' => directory ++ path
    | some _ => directory ++ "/" ++ path

/-- The steps of a path. -/
def pathSteps (path : String) : List String :=
  (path.toList.splitOn '/').map String.ofList

/-- A step that stays where it is. -/
def staysInPlace (step : String) : Bool :=
  step == "" || step == "."

/-- Leaves out the last steps as long as a test holds. -/
def dropLastWhile (test : String → Bool) (steps : List String) : List String :=
  (steps.reverse.dropWhile test).reverse

/-- The steps up to the last one that goes anywhere. -/
def trimSteps (steps : List String) : List String :=
  dropLastWhile staysInPlace steps

/-- The steps to the directory in which the last step that goes anywhere is taken. -/
def parentSteps (steps : List String) : List String :=
  trimSteps (trimSteps steps).dropLast

/-! ## Lengths -/

theorem length_dropLastWhile_le (test : String → Bool) (steps : List String) :
    (dropLastWhile test steps).length ≤ steps.length := by
  have h := (List.dropWhile_sublist test (l := steps.reverse)).length_le
  simpa [dropLastWhile] using h

/-- A parent is shorter. -/
theorem length_parentSteps_lt {steps : List String} (h : steps ≠ []) :
    (parentSteps steps).length < steps.length := by
  have hpos : 0 < steps.length := List.length_pos_iff.2 h
  have hin : (trimSteps steps).length ≤ steps.length := length_dropLastWhile_le ..
  have hout : (parentSteps steps).length ≤ (trimSteps steps).dropLast.length :=
    length_dropLastWhile_le ..
  rw [List.length_dropLast] at hout
  omega

/-! ## Joining -/

/-- A name that is one step of a path, and neither stays nor goes back. -/
structure IsPlainName (name : String) : Prop where
  /-- It is not cut. -/
  uncut : '/' ∉ name.toList
  /-- It goes somewhere. -/
  moves : staysInPlace name = false
  /-- It goes forward. -/
  forward : name ≠ ".."

theorem splitOn_append_slash (before after : List Char) :
    (before ++ '/' :: after).splitOn '/' = before.splitOn '/' ++ after.splitOn '/' :=
  List.splitOnP_append_cons before after (by simp)

theorem pathSteps_plain {name : String} (h : IsPlainName name) : pathSteps name = [name] := by
  simp [pathSteps, List.splitOn_eq_singleton h.uncut]

/-- A name joined to a directory is the last step; an empty last step of the directory makes room
for it. -/
theorem pathSteps_joinPath (directory : String) {name : String} (h : IsPlainName name) :
    pathSteps (joinPath directory name) = pathSteps directory ++ [name] ∨
      ∃ before, pathSteps directory = before ++ [""] ∧
        pathSteps (joinPath directory name) = before ++ [name] := by
  have hhead : name.toList.head? ≠ some '/' := fun e => h.uncut (List.mem_of_head? e)
  have hname : (name.toList.splitOn '/').map String.ofList = [name] := pathSteps_plain h
  unfold joinPath
  rw [if_neg hhead]
  split
  · rename_i he
    have hd : directory.toList = [] := List.getLast?_eq_none_iff.1 he
    refine .inr ⟨[], ?_, ?_⟩
    · simp [pathSteps, hd]
    · simp only [pathSteps, String.toList_append, hd, List.nil_append, hname]
  · rename_i he
    obtain ⟨init, hd⟩ := List.getLast?_eq_some_iff.1 he
    have hj : (directory ++ name).toList = init ++ '/' :: name.toList := by simp [hd]
    refine .inr ⟨(init.splitOn '/').map String.ofList, ?_, ?_⟩
    · rw [pathSteps, hd, splitOn_append_slash, List.map_append]
      simp
    · rw [pathSteps, hj, splitOn_append_slash, List.map_append, hname]
  · have hj : (directory ++ "/" ++ name).toList = directory.toList ++ '/' :: name.toList := by
      simp [String.toList_append]
    exact .inl (by rw [pathSteps, hj, splitOn_append_slash, List.map_append, hname, pathSteps])

end EntityQuery
