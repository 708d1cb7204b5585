import EntityQuery.Proofs.Configuration.RoundTrip
import EntityQuery.Proofs.FileTree.Growth

/-!
# Proofs/Command/Keeping — commands leave configurations as they are

Only setting up a directory changes a tree, and it looks for a configuration first.  The look is
taken before directories are made, and what it does not find may be there once they are: a path that
goes back from a missing directory leads nowhere at first, and to an old configuration in the end
(`goingBack_overwrites`).  Where the paths of the calls are grounded that cannot happen, one call
keeps every configuration that can be read (`Call.run_keeps`), and so do any number of them
(`configurations_kept`).
-/

namespace EntityQuery

/-! ## Setting up -/

namespace CommandContext

variable {context kept : CommandContext} {tree : FileTree} {configuration : Configuration}

/-- What writing a configuration leaves behind, also where it fails: a tree that has grown, then one
with the configuration, and then one with the schema too. -/
inductive Leaves (context : CommandContext) (tree : FileTree) (configuration : Configuration) :
    FileTree → Prop where
  | grown {made : FileTree} (hgrows : tree.Grows made) : Leaves context tree configuration made
  | configured {made first : FileTree} (hgrows : tree.Grows made)
      (hfirst : made.write context.configurationFile configuration.text = .ok first) :
      Leaves context tree configuration first
  | finished {made first written : FileTree} (hgrows : tree.Grows made)
      (hfirst : made.write context.configurationFile configuration.text = .ok first)
      (hwritten : first.write context.schemaFile configurationSchema.toJson.prettyLines
        = .ok written) : Leaves context tree configuration written

theorem leaves_writeConfiguration (context : CommandContext) (tree : FileTree)
    (configuration : Configuration) :
    Leaves context tree configuration (context.writeConfiguration tree configuration).1 := by
  have hgrows := tree.grows_makePath context.directory
  unfold writeConfiguration
  split
  · rename_i made fault hmade
    rw [hmade] at hgrows
    exact .grown hgrows
  · rename_i made hmade
    rw [hmade] at hgrows
    split
    · exact .grown hgrows
    · rename_i first hfirst
      split
      · exact .configured hgrows hfirst
      · exact .finished hgrows hfirst ‹_›

variable {made first written : FileTree} {text : String}

/-- A configuration that can be read is not the one that is written where none was found. -/
theorem read_of_configured (hgrounded : tree.IsGrounded (pathSteps context.directory))
    (hfree : ¬ tree.holds context.configurationFile = true)
    (h : tree.read kept.configurationFile = .ok text) (hgrows : tree.Grows made)
    (hfirst : made.write context.configurationFile configuration.text = .ok first) :
    first.read kept.configurationFile = .ok text := by
  obtain ⟨place, hplace, -, -⟩ := FileTree.read_eq_ok.mp h
  obtain ⟨other, hother, -, -⟩ := FileTree.write_eq_ok.mp hfirst
  have hne : place ≠ other := by
    rintro rfl
    exact hfree
      (FileTree.holds_of_grows hgrows isPlainName_configuration hgrounded h hplace hother)
  exact FileTree.read_of_write_ne hfirst hother (FileTree.locate_mono hgrows.keeps hplace) hne
    (hgrows.read h)

/-- A configuration is not the schema that is written beside another. -/
theorem read_of_finished (h : first.read kept.configurationFile = .ok text)
    (hwritten : first.write context.schemaFile configurationSchema.toJson.prettyLines
      = .ok written) : written.read kept.configurationFile = .ok text := by
  obtain ⟨place, hplace, -, -⟩ := FileTree.read_eq_ok.mp h
  obtain ⟨other, hother, -, -⟩ := FileTree.write_eq_ok.mp hwritten
  exact FileTree.read_of_write_ne hwritten hother hplace (places_ne hplace hother) h

/-- **Setting up keeps a configuration that can be read**, if its path is grounded. -/
theorem read_setUp (hgrounded : tree.IsGrounded (pathSteps context.directory))
    (h : tree.read kept.configurationFile = .ok text) :
    (Command.setUpDirectory context tree).1.read kept.configurationFile = .ok text := by
  unfold Command.setUpDirectory
  split
  · exact h
  · rename_i hfree
    change (context.writeConfiguration tree .empty).1.read _ = _
    generalize hleft : (context.writeConfiguration tree .empty).1 = left
    cases hleft ▸ leaves_writeConfiguration context tree .empty with
    | grown hgrows => exact hgrows.read h
    | configured hgrows hfirst => exact read_of_configured hgrounded hfree h hgrows hfirst
    | finished hgrows hfirst hwritten =>
      exact read_of_finished (read_of_configured hgrounded hfree h hgrows hfirst) hwritten

/-- **A directory without a configuration gets an empty one, and a schema.**  Both are read back,
and no file at another place has changed. -/
theorem setUp_of_takes (hfree : tree.holds context.configurationFile = false)
    (h : context.Takes tree) : ∃ written above,
      Command.setUpDirectory context tree = (written, .ok "")
        ∧ written.walk (pathSteps context.directory) = .ok above
        ∧ (∀ place, place ≠ above ++ ["configuration.json"] → place ≠ above ++ ["schema.json"] →
          written.files.lookup place = tree.files.lookup place)
        ∧ context.readConfiguration written = .ok .empty
        ∧ written.read context.schemaFile = .ok configurationSchema.toJson.prettyLines := by
  obtain ⟨written, hwritten⟩ := (@writes_iff_takes context tree .empty).mpr h
  obtain ⟨made, first, hmade, hfirst, hsecond⟩ := writeConfiguration_eq_ok.mp hwritten
  have hfiles := (tree.grows_makePath context.directory).files
  rw [hmade] at hfiles
  have hrun : Command.setUpDirectory context tree = (written, .ok "") := by
    rw [Command.setUpDirectory, hfree, hwritten]
    rfl
  have hdirectories := FileTree.directories_write hfirst
  have hread := FileTree.read_of_write hsecond
  obtain ⟨place, hplace, -, hput⟩ := FileTree.write_eq_ok.mp hfirst
  obtain ⟨other, hother, -, hput'⟩ := FileTree.write_eq_ok.mp hsecond
  obtain ⟨above, hwalk, -, rfl⟩ := FileTree.locate_joinPath isPlainName_configuration hplace
  obtain ⟨above', hwalk', -, rfl⟩ := FileTree.locate_joinPath isPlainName_schema hother
  have hsame := FileTree.walk_congr hdirectories hwalk
  obtain rfl : above = above' := Except.ok.inj (hsame.symm.trans hwalk')
  refine ⟨written, above, hrun, ?_, fun wanted hne hne' => ?_,
    readConfiguration_of_write hwritten, hread⟩
  · exact FileTree.walk_congr (FileTree.directories_write hsecond) hsame
  · rw [hput', hput]
    change (FileTree.put _ _ (FileTree.put _ _ made.files)).lookup wanted = _
    rw [FileTree.lookup_put, if_neg hne', FileTree.lookup_put, if_neg hne]
    exact congrArg (List.lookup wanted) hfiles

end CommandContext

/-! ## Calls -/

/-- A command that sets nothing up leaves the tree as it is. -/
theorem Command.run_of_ne_setUp {context : CommandContext} {command : Command}
    (h : command ≠ .setUp) (tree : FileTree) : (command.run context tree).1 = tree := by
  cases command with
  | setUp => exact absurd rfl h
  | _ => rfl

/-- A call: a command, and what it runs with. -/
structure Call where
  context : CommandContext
  command : Command

namespace Call

/-- The tree that a call leaves. -/
def run (tree : FileTree) (call : Call) : FileTree :=
  (call.command.run call.context tree).1

/-- The tree that calls leave, one after the other. -/
def runAll (calls : List Call) (tree : FileTree) : FileTree :=
  calls.foldl run tree

/-- A call that sets up no directory, or one by a path that goes back only from directories that are
there. -/
def IsGrounded (call : Call) (tree : FileTree) : Prop :=
  call.command = .setUp → tree.IsGrounded (pathSteps call.context.directory)

/-- Calls of which each is grounded in the tree that it meets. -/
def AllGrounded : List Call → FileTree → Prop
  | [], _ => True
  | call :: rest, tree => call.IsGrounded tree ∧ AllGrounded rest (run tree call)

variable {tree : FileTree} {kept : CommandContext} {text : String}

/-- **A grounded call keeps every configuration that can be read.** -/
theorem run_keeps {call : Call} (hgrounded : call.IsGrounded tree)
    (h : tree.read kept.configurationFile = .ok text) :
    (run tree call).read kept.configurationFile = .ok text := by
  by_cases hcommand : call.command = .setUp
  · rw [run, hcommand]
    exact CommandContext.read_setUp (hgrounded hcommand) h
  · rw [run, Command.run_of_ne_setUp hcommand]
    exact h

/-- **So do grounded calls, one after the other.** -/
theorem runAll_keeps {calls : List Call} (hgrounded : AllGrounded calls tree)
    (h : tree.read kept.configurationFile = .ok text) :
    (runAll calls tree).read kept.configurationFile = .ok text := by
  induction calls generalizing tree with
  | nil => exact h
  | cons call rest ih => exact ih hgrounded.2 (run_keeps hgrounded.1 h)

/-- Calls that set up no directory by a path that goes back are grounded in every tree. -/
theorem allGrounded_of_forward {calls : List Call} (h : ∀ call ∈ calls,
      call.command = .setUp → ".." ∉ pathSteps call.context.directory) (tree : FileTree) :
    AllGrounded calls tree := by
  induction calls generalizing tree with
  | nil => trivial
  | cons call rest ih =>
    refine ⟨fun hcommand => .of_not_mem (h call List.mem_cons_self hcommand), ?_⟩
    exact ih (fun other hother => h other (List.mem_cons_of_mem call hother)) _

end Call

/-! ## What stays of a configuration -/

/-- **Commands leave configurations as they are.**  A command that sets nothing up leaves the tree
as it is, and so does setting up a directory that holds a configuration, which fails.  A directory
that holds none and takes one gets the empty configuration and a schema, nothing is printed, and no
other file changes.  So after any number of calls, none of which goes back from a directory that is
missing, a configuration that could be read is read with the same text. -/
theorem configurations_kept (tree : FileTree) :
    (∀ (context : CommandContext) (command : Command), command ≠ .setUp →
      (command.run context tree).1 = tree)
    ∧ (∀ context : CommandContext, tree.holds context.configurationFile = true →
      Command.setUp.run context tree = (tree, .error (.alreadyConfigured context.directory)))
    ∧ (∀ context : CommandContext, tree.holds context.configurationFile = false →
      context.Takes tree → ∃ written above,
        Command.setUp.run context tree = (written, .ok "")
          ∧ written.walk (pathSteps context.directory) = .ok above
          ∧ (∀ place, place ≠ above ++ ["configuration.json"] → place ≠ above ++ ["schema.json"] →
            written.files.lookup place = tree.files.lookup place)
          ∧ context.readConfiguration written = .ok .empty
          ∧ Configuration.empty.runtime = .ok ⟨{}, .empty⟩)
    ∧ ∀ calls : List Call, Call.AllGrounded calls tree →
      ∀ (kept : CommandContext) (text : String), tree.read kept.configurationFile = .ok text →
        (Call.runAll calls tree).read kept.configurationFile = .ok text := by
  refine ⟨fun context command h => Command.run_of_ne_setUp h tree, fun context h => if_pos h,
    fun context hfree h => ?_, fun calls hgrounded kept text => Call.runAll_keeps hgrounded⟩
  obtain ⟨written, above, hrun, hwalk, hothers, hread, -⟩ :=
    CommandContext.setUp_of_takes hfree h
  exact ⟨written, above, hrun, hwalk, hothers, hread, rfl⟩

/-! ## Ways that go back -/

/-- A tree with a configuration, and perhaps more directories. -/
def configuredTree (others : List (List String)) (configuration : Configuration) : FileTree :=
  ⟨["conf"] :: others, [(["conf", "configuration.json"], configuration.text)]⟩

/-- The configuration is read from its directory, if that place is no directory. -/
theorem read_configuredTree {others : List (List String)}
    (h : ["conf", "configuration.json"] ∉ others) (configuration : Configuration) :
    (configuredTree others configuration).read
        (CommandContext.configurationFile ⟨"conf", none⟩) = .ok configuration.text := by
  refine FileTree.read_eq_ok.mpr ⟨["conf", "configuration.json"], ?_, ?_, rfl⟩
  · rfl
  · simpa [FileTree.isDirectory, configuredTree] using h

/-- Neither setting its directory up once more, on a way that goes back from it, nor setting up
another one changes the configuration. -/
theorem configuredTree_kept :
    ∃ calls : List Call, calls.map (fun call => call.context.directory) = ["conf/../conf", "new"]
      ∧ calls.map Call.command = [.setUp, .setUp]
      ∧ (Call.runAll calls (configuredTree [] ⟨.postgres, .empty⟩)).read
          (CommandContext.configurationFile ⟨"conf", none⟩)
        = .ok (Configuration.text ⟨.postgres, .empty⟩) := by
  have hback : (configuredTree [] ⟨.postgres, .empty⟩).IsGrounded ["conf", "..", "conf"] := by
    intro before after heq
    match before, heq with
    | [], heq => exact absurd (List.cons.inj heq).1 (by decide)
    | [first], heq =>
      obtain rfl := (List.cons.inj heq).1
      rfl
    | [_, _], heq =>
      exact absurd (List.cons.inj (List.cons.inj (List.cons.inj heq).2).2).1 (by decide)
    | _ :: _ :: _ :: rest, heq => simp at heq
  let calls : List Call := [⟨⟨"conf/../conf", none⟩, .setUp⟩, ⟨⟨"new", none⟩, .setUp⟩]
  have hgrounded : Call.AllGrounded calls (configuredTree [] ⟨.postgres, .empty⟩) :=
    ⟨fun _ => hback, Call.allGrounded_of_forward (by decide) _⟩
  exact ⟨calls, rfl, rfl,
    (configurations_kept _).2.2.2 calls hgrounded _ _ (read_configuredTree (by decide) _)⟩

/-- **Going back from a missing directory, a configuration is overwritten.**  It is not found while
`a` is missing, and it is there once `a` was made on the way to it. -/
theorem goingBack_overwrites :
    (configuredTree [] ⟨.postgres, .empty⟩).read (CommandContext.configurationFile ⟨"conf", none⟩)
        = .ok (Configuration.text ⟨.postgres, .empty⟩)
      ∧ (Command.setUp.run ⟨"a/../conf", none⟩ (configuredTree [] ⟨.postgres, .empty⟩)).2 = .ok ""
      ∧ (Call.runAll [⟨⟨"a/../conf", none⟩, .setUp⟩] (configuredTree [] ⟨.postgres, .empty⟩)).read
          (CommandContext.configurationFile ⟨"conf", none⟩) = .ok (Configuration.text .empty)
      ∧ Configuration.text .empty ≠ Configuration.text ⟨.postgres, .empty⟩ := by
  have hmade : (configuredTree [] ⟨.postgres, .empty⟩).makePath "a/../conf"
      = (configuredTree [["a"]] ⟨.postgres, .empty⟩, .ok ()) := by
    have hsteps : FileTree.usableSteps "a/../conf" = .ok ["a", "..", "conf"] := by decide
    have hfirst : (configuredTree [] ⟨.postgres, .empty⟩).makeDirectories ["a"]
        = (configuredTree [["a"]] ⟨.postgres, .empty⟩, .ok ()) :=
      FileTree.makeDirectories_of_ensure rfl
    have hback : (configuredTree [] ⟨.postgres, .empty⟩).makeDirectories ["a", ".."]
        = (configuredTree [["a"]] ⟨.postgres, .empty⟩, .ok ()) :=
      FileTree.makeDirectories_of_missing rfl (by decide) hfirst rfl
    rw [FileTree.makePath, hsteps]
    exact FileTree.makeDirectories_of_missing rfl (by decide) hback rfl
  have hfirst : (configuredTree [["a"]] ⟨.postgres, .empty⟩).write
      (CommandContext.configurationFile ⟨"a/../conf", none⟩) (Configuration.text .empty)
        = .ok (configuredTree [["a"]] .empty) :=
    FileTree.write_eq_ok.mpr ⟨["conf", "configuration.json"], rfl, rfl, rfl⟩
  obtain ⟨written, hwritten⟩ : ∃ written, (configuredTree [["a"]] .empty).write
      (CommandContext.schemaFile ⟨"a/../conf", none⟩) configurationSchema.toJson.prettyLines
        = .ok written :=
    FileTree.exists_write_iff.mpr ⟨["conf", "schema.json"], rfl, rfl⟩
  have hrun : Command.setUp.run ⟨"a/../conf", none⟩ (configuredTree [] ⟨.postgres, .empty⟩)
      = (written, .ok "") := by
    have hfree : (configuredTree [] ⟨.postgres, .empty⟩).holds
        (CommandContext.configurationFile ⟨"a/../conf", none⟩) = false := rfl
    rw [Command.run, Command.setUpDirectory, hfree,
      CommandContext.writeConfiguration_eq_ok.mpr ⟨_, _, hmade, hfirst, hwritten⟩]
    rfl
  have hread := read_configuredTree (by decide : ["conf", "configuration.json"] ∉ [["a"]]) .empty
  obtain ⟨place, hplace, -, -⟩ := FileTree.read_eq_ok.mp hread
  obtain ⟨other, hother, -, -⟩ := FileTree.write_eq_ok.mp hwritten
  refine ⟨read_configuredTree (by decide) _, congrArg Prod.snd hrun, ?_, fun heq => ?_⟩
  · rw [Call.runAll, List.foldl_cons, Call.run, hrun, List.foldl_nil]
    exact FileTree.read_of_write_ne hwritten hother hplace
      (CommandContext.places_ne hplace hother) hread
  · have hparsed := Configuration.parse_text "" .empty
    rw [heq, Configuration.parse_text] at hparsed
    exact absurd (Except.ok.inj hparsed) (by decide)

end EntityQuery
