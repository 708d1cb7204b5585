import EntityQuery.Proofs.Json.Clean

/-!
# Proofs/Json/Derived — a text that is read in full is a text of the grammar

`Document.ofText_eq_iff` says which texts are assembled without a fault: those of the grammar whose
containers nest no deeper than `maxDepth`, each into the one value that it spells.  So a text is
read as a value exactly if it spells one (`Json.parse_eq_ok`).

A run that ends well is clean, so its tokens are what may come next.  What it starts with is read
off them: a value where one is due (`Assembly.value_of_run`), items up to their bracket
(`Assembly.items_of_run`) and members up to their brace (`Assembly.members_of_run`), by recursion on
how much text is left.
-/

namespace EntityQuery

open Json.Grammar (Blanks Lexed Key Value Items)

namespace Assembly

variable {stack : List Frame} {here : List Char}

/-! ## What a run starts with -/

theorem level_lt_of_push {parts : Parts} (h : ∀ frame ∈ push parts here stack, frame.IsClean) :
    level stack < maxDepth := by
  cases stack with
  | nil => decide
  | cons outer rest =>
    by_contra hlevel
    change ¬ outer.depth + 1 < maxDepth at hlevel
    simp only [push, if_neg hlevel] at h
    have hdeep := (h _ List.mem_cons_self).1
    split at hdeep <;> contradiction

/-- A value that may be the first one of an array is a value. -/
theorem run_valueOrClose {cs after rest : List Char} {c : Char} (hgap : Blanks cs (c :: after))
    (hscan : Token.scan c after = .read lexeme rest) (h : lexeme ≠ .closeArr)
    (stack : List Frame) :
    run (.reading .valueOrClose stack) cs = run (.reading .value stack) cs := by
  rw [run_blanks _ hgap, run_blanks _ hgap, run_token _ hscan, run_token _ hscan,
    step_value (.inr rfl) lexeme h, step_value (.inl rfl) lexeme h]

/-- A key that may be the first one of an object is a key. -/
theorem run_keyOrClose {cs after rest : List Char} {c : Char} (hgap : Blanks cs (c :: after))
    (hscan : Token.scan c after = .read lexeme rest) (h : lexeme ≠ .closeObj)
    (stack : List Frame) :
    run (.reading .keyOrClose stack) cs = run (.reading .key stack) cs := by
  rw [run_blanks _ hgap, run_blanks _ hgap, run_token _ hscan, run_token _ hscan,
    step_keyOrClose h]
  rfl

/-- Where a key is due, a run that ends well starts with one and its colon. -/
theorem key_of_run {cs : List Char} {depth : Nat} {earlier : Members}
    (hawaits : ∀ frame ∈ stack, frame.Awaits)
    (h : (run (.reading .key (⟨depth, none, .members earlier⟩ :: stack)) cs).IsValue) :
    ∃ key rest, Key cs key rest ∧ rest.length < cs.length
      ∧ run (.reading .key (⟨depth, none, .members earlier⟩ :: stack)) cs
        = run (.reading .value (⟨depth, none, .keyed earlier (.ok key)⟩ :: stack)) rest := by
  have hkey : Want.key.Fits (⟨depth, none, .members earlier⟩ :: stack) := hawaits
  obtain ⟨c, after, lexeme, mid, next, hgap, hscan, hmid, htakes, hclean, hrun⟩ :=
    exists_token_of_run hkey h
  cases htakes with
  | key _ _ _ _ name =>
    obtain ⟨⟨-, ⟨key, rfl⟩, -⟩, -⟩ := List.forall_mem_cons.mp hclean
    have hcolon : Want.colon.Fits (⟨depth, none, .keyed earlier (.ok key)⟩ :: stack) := hawaits
    obtain ⟨mark, others, lexeme, rest, opened, hbefore, hmark, hrest, hopens, -, hvalue⟩ :=
      exists_token_of_run hcolon (hrun ▸ h)
    cases hopens with
    | colon =>
      obtain ⟨rfl, rfl⟩ := Token.eq_mark_of_scan hmark rfl
      exact ⟨key, others, ⟨_, mid, hgap, ⟨c, after, rfl, hscan⟩, hbefore⟩, by omega,
        hrun.trans hvalue⟩
    | text isValue | halfPair isValue | scalar isValue | openArr isValue | openObj isValue =>
      rcases isValue with h | h <;> exact nomatch h
  | text isValue | halfPair isValue | scalar isValue | openArr isValue | openObj isValue =>
    rcases isValue with h | h <;> exact nomatch h
  | closeObj closes => rcases closes with h | h <;> exact nomatch h

theorem nesting_of_isScalarNode {value : Json} (h : Token.IsScalarNode (Node.ofJson value)) :
    value.nesting = 0 := by
  cases value with
  | arr items => exact nomatch h
  | obj members => exact nomatch h
  | _ => rfl

mutual

/-- **Where a value is due, a run that ends well starts with one**, and delivers it. -/
theorem value_of_run (cs : List Char) {stack : List Frame} (hlevel : level stack ≤ maxDepth)
    (hawaits : ∀ frame ∈ stack, frame.Awaits) (h : (run (.reading .value stack) cs).IsValue) :
    ∃ value rest, Value cs value rest ∧ level stack + value.nesting ≤ maxDepth
      ∧ rest.length < cs.length
      ∧ run (.reading .value stack) cs = run (deliver (Node.ofJson value) stack) rest := by
  have hfits : Want.value.Fits stack := hawaits
  obtain ⟨c, after, lexeme, rest, next, hgap, hscan, hlt, htakes, hclean, hrun⟩ :=
    exists_token_of_run hfits h
  cases htakes with
  | text _ value =>
    exact ⟨.str value, rest, .of_blanks hgap (.text ⟨c, after, rfl, hscan⟩), hlevel, hlt, hrun⟩
  | halfPair =>
    exact absurd (isClean_of_deliver hawaits hclean).1 (Node.not_isValue_unreadable _ _)
  | scalar _ node =>
    obtain ⟨value, rfl⟩ := (isClean_of_deliver hawaits hclean).1
    have hflat := nesting_of_isScalarNode (Token.isScalarNode_of_scan hscan)
    exact ⟨value, rest, .of_blanks hgap (.scalar ⟨c, after, rfl, hscan⟩ rfl), by omega, hlt, hrun⟩
  | openArr =>
    obtain ⟨rfl, rfl⟩ := Token.eq_mark_of_scan hscan rfl
    have hroom := level_lt_of_push hclean
    rw [push_eq _ _ hroom] at hrun
    obtain ⟨items, rest, hitems, hnesting, hshort, hlast⟩ :=
      arr_of_run after hroom hawaits (hrun ▸ h)
    exact ⟨.arr items, rest, .of_blanks hgap hitems, hnesting, Nat.lt_trans hshort hlt,
      hrun.trans hlast⟩
  | openObj =>
    obtain ⟨rfl, rfl⟩ := Token.eq_mark_of_scan hscan rfl
    have hroom := level_lt_of_push hclean
    rw [push_eq _ _ hroom] at hrun
    obtain ⟨members, rest, hmembers, hnesting, hshort, hlast⟩ :=
      obj_of_run after hroom hawaits (hrun ▸ h)
    exact ⟨.obj members, rest, .of_blanks hgap hmembers, hnesting, Nat.lt_trans hshort hlt,
      hrun.trans hlast⟩
  | closeArr closes => rcases closes with h | h <;> exact nomatch h
  | closeObj closes => rcases closes with h | h <;> exact nomatch h
  | key isKey => rcases isKey with h | h <;> exact nomatch h
termination_by (cs.length, 0)

/-- Behind a bracket stand the items of an array. -/
theorem arr_of_run (cs : List Char) {stack : List Frame} (hlevel : level stack < maxDepth)
    (hawaits : ∀ frame ∈ stack, frame.Awaits)
    (h : (run (.reading .valueOrClose (⟨level stack, none, .items []⟩ :: stack)) cs).IsValue) :
    ∃ items rest, Value ('[' :: cs) (.arr items) rest
      ∧ level stack + (Json.arr items).nesting ≤ maxDepth ∧ rest.length < cs.length
      ∧ run (.reading .valueOrClose (⟨level stack, none, .items []⟩ :: stack)) cs
        = run (deliver (Node.ofJson (.arr items)) stack) rest := by
  have hfits : Want.valueOrClose.Fits (⟨level stack, none, .items []⟩ :: stack) := hawaits
  obtain ⟨c, after, lexeme, rest, next, hgap, hscan, hlt, htakes, -, hrun⟩ :=
    exists_token_of_run hfits h
  by_cases hclose : lexeme = .closeArr
  · subst hclose
    obtain ⟨rfl, rfl⟩ := Token.eq_mark_of_scan hscan rfl
    cases htakes
    exact ⟨[], after, .emptyArr hgap, hlevel, hlt, hrun⟩
  · have hvalue := run_valueOrClose hgap hscan hclose (⟨level stack, none, .items []⟩ :: stack)
    obtain ⟨items, last, hitems, hnesting, hshort, hlast⟩ :=
      items_of_run cs (level stack) [] hlevel hawaits (hvalue ▸ h)
    exact ⟨items, last, .arr hitems, by rw [Json.nesting]; omega, hshort, hvalue.trans hlast⟩
termination_by (cs.length, 2)

/-- Behind a brace stand the members of an object. -/
theorem obj_of_run (cs : List Char) {stack : List Frame} (hlevel : level stack < maxDepth)
    (hawaits : ∀ frame ∈ stack, frame.Awaits)
    (h : (run (.reading .keyOrClose (⟨level stack, none, .members []⟩ :: stack)) cs).IsValue) :
    ∃ members rest, Value ('\x7b' :: cs) (.obj members) rest
      ∧ level stack + (Json.obj members).nesting ≤ maxDepth ∧ rest.length < cs.length
      ∧ run (.reading .keyOrClose (⟨level stack, none, .members []⟩ :: stack)) cs
        = run (deliver (Node.ofJson (.obj members)) stack) rest := by
  have hfits : Want.keyOrClose.Fits (⟨level stack, none, .members []⟩ :: stack) := hawaits
  obtain ⟨c, after, lexeme, rest, next, hgap, hscan, hlt, htakes, -, hrun⟩ :=
    exists_token_of_run hfits h
  by_cases hclose : lexeme = .closeObj
  · subst hclose
    obtain ⟨rfl, rfl⟩ := Token.eq_mark_of_scan hscan rfl
    cases htakes
    exact ⟨[], after, .emptyObj hgap, hlevel, hlt, hrun⟩
  · have hkey := run_keyOrClose hgap hscan hclose (⟨level stack, none, .members []⟩ :: stack)
    obtain ⟨members, last, hmembers, hnesting, hshort, hlast⟩ :=
      members_of_run cs (level stack) [] hlevel hawaits (hkey ▸ h)
    exact ⟨members, last, .obj hmembers, by rw [Json.nesting]; omega, hshort, hkey.trans hlast⟩
termination_by (cs.length, 2)

/-- **Where an item is due, a run that ends well starts with items and their bracket.** -/
theorem items_of_run (cs : List Char) (depth : Nat) (earlier : List Node) {stack : List Frame}
    (hlevel : depth < maxDepth) (hawaits : ∀ frame ∈ stack, frame.Awaits)
    (h : (run (.reading .value (⟨depth, none, .items earlier⟩ :: stack)) cs).IsValue) :
    ∃ items rest, Items cs items (']' :: rest) ∧ depth + 1 + Json.nestingItems items ≤ maxDepth
      ∧ rest.length < cs.length
      ∧ run (.reading .value (⟨depth, none, .items earlier⟩ :: stack)) cs
        = run (deliver (.arr (earlier.reverse ++ Node.ofJsonItems items) none) stack) rest := by
  have hall : ∀ frame ∈ (⟨depth, none, .items earlier⟩ :: stack : List Frame), frame.Awaits :=
    List.forall_mem_cons.mpr ⟨awaits_items _ _ _, hawaits⟩
  have hroom : level (⟨depth, none, .items earlier⟩ :: stack) ≤ maxDepth := hlevel
  obtain ⟨value, mid, hvalue, hnesting, hmid, hrun⟩ := value_of_run cs hroom hall h
  rw [deliver_item] at hrun
  have hfits : Want.commaOrClose.Fits
      (⟨depth, none, .items (Node.ofJson value :: earlier)⟩ :: stack) := hawaits
  obtain ⟨c, after, lexeme, rest, next, hgap, hscan, hlt, htakes, -, hnext⟩ :=
    exists_token_of_run hfits (hrun ▸ h)
  cases htakes with
  | closeArr =>
    obtain ⟨rfl, rfl⟩ := Token.eq_mark_of_scan hscan rfl
    refine ⟨[value], after, .one hvalue hgap, ?_, by omega, hrun.trans (hnext.trans ?_)⟩
    · simpa [Json.nestingItems, level] using hnesting
    · simp [Frame.close, Parts.node, Node.ofJsonItems]
  | nextItem =>
    obtain ⟨rfl, rfl⟩ := Token.eq_mark_of_scan hscan rfl
    obtain ⟨items, last, hitems, hothers, hshort, hlast⟩ :=
      items_of_run after depth (Node.ofJson value :: earlier) hlevel hawaits (hnext ▸ hrun ▸ h)
    refine ⟨value :: items, last, .more hvalue hgap hitems, ?_, by omega,
      hrun.trans (hnext.trans (hlast.trans ?_))⟩
    · rw [Json.nestingItems]
      simp only [level] at hnesting
      omega
    · simp [Node.ofJsonItems]
  | text isValue | halfPair isValue | scalar isValue | openArr isValue | openObj isValue =>
    rcases isValue with h | h <;> exact nomatch h
termination_by (cs.length, 1)

/-- **Where a member is due, a run that ends well starts with members and their brace.** -/
theorem members_of_run (cs : List Char) (depth : Nat) (earlier : Members) {stack : List Frame}
    (hlevel : depth < maxDepth) (hawaits : ∀ frame ∈ stack, frame.Awaits)
    (h : (run (.reading .key (⟨depth, none, .members earlier⟩ :: stack)) cs).IsValue) :
    ∃ members rest, Json.Grammar.Members cs members ('\x7d' :: rest)
      ∧ depth + 1 + Json.nestingMembers members ≤ maxDepth ∧ rest.length < cs.length
      ∧ run (.reading .key (⟨depth, none, .members earlier⟩ :: stack)) cs
        = run (deliver (.obj (earlier.reverse ++ Node.ofJsonMembers members) none) stack) rest := by
  obtain ⟨key, start, hkey, hstart, hopened⟩ := key_of_run hawaits h
  have hall : ∀ frame ∈ (⟨depth, none, .keyed earlier (.ok key)⟩ :: stack : List Frame),
      frame.Awaits := List.forall_mem_cons.mpr ⟨awaits_keyed _ _ _ _, hawaits⟩
  have hroom : level (⟨depth, none, .keyed earlier (.ok key)⟩ :: stack) ≤ maxDepth := hlevel
  obtain ⟨value, mid, hvalue, hnesting, hmid, hrun⟩ := value_of_run start hroom hall (hopened ▸ h)
  rw [deliver_member] at hrun
  have hfits : Want.commaOrClose.Fits
      (⟨depth, none, .members ((.ok key, Node.ofJson value) :: earlier)⟩ :: stack) := hawaits
  obtain ⟨c, after, lexeme, rest, next, hgap, hscan, hlt, htakes, -, hnext⟩ :=
    exists_token_of_run hfits (hrun ▸ hopened ▸ h)
  cases htakes with
  | closeObj =>
    obtain ⟨rfl, rfl⟩ := Token.eq_mark_of_scan hscan rfl
    refine ⟨[(key, value)], after, .one hkey hvalue hgap, ?_, by omega,
      hopened.trans (hrun.trans (hnext.trans ?_))⟩
    · simpa [Json.nestingMembers, level] using hnesting
    · simp [Frame.close, Parts.node, Node.ofJsonMembers]
  | nextMember =>
    obtain ⟨rfl, rfl⟩ := Token.eq_mark_of_scan hscan rfl
    obtain ⟨members, last, hmembers, hothers, hshort, hlast⟩ :=
      members_of_run after depth ((.ok key, Node.ofJson value) :: earlier) hlevel hawaits
        (hnext ▸ hrun ▸ hopened ▸ h)
    refine ⟨(key, value) :: members, last, .more hkey hvalue hgap hmembers, ?_, by omega,
      hopened.trans (hrun.trans (hnext.trans (hlast.trans ?_)))⟩
    · rw [Json.nestingMembers]
      simp only [level] at hnesting
      omega
    · simp [Node.ofJsonMembers]
  | text isValue | halfPair isValue | scalar isValue | openArr isValue | openObj isValue =>
    rcases isValue with h | h <;> exact nomatch h
  | key isKey => rcases isKey with h | h <;> exact nomatch h
termination_by (cs.length, 1)

end

end Assembly

/-! ## Texts -/

/-- **A text is assembled without a fault exactly if it is one of the grammar**, nested no deeper
than the limit, and then into the value that it spells. -/
theorem Document.ofText_eq_iff {text : String} {value : Json} :
    Document.ofText text = ⟨Node.ofJson value, none⟩
      ↔ Json.Grammar.Spells text value ∧ value.nesting ≤ maxDepth := by
  refine ⟨fun h => ?_, fun h => ofText_eq_ofJson h.1 h.2⟩
  have hrun : Assembly.run (.reading .value []) text.toList = ⟨Node.ofJson value, none⟩ := h
  have hempty : Assembly.level [] ≤ maxDepth := Nat.zero_le _
  obtain ⟨spelled, rest, hvalue, hnesting, -, hlast⟩ :=
    Assembly.value_of_run text.toList hempty nofun ⟨value, hrun⟩
  have hrest := Assembly.blanks_of_run ⟨value, hlast.symm.trans hrun⟩
  have hdepth : spelled.nesting ≤ maxDepth := by
    simpa only [Assembly.level, Nat.zero_add] using hnesting
  have hspells : Json.Grammar.Spells text spelled := ⟨rest, hvalue, hrest⟩
  obtain rfl : spelled = value :=
    Node.ofJson_injective (congrArg Document.root ((ofText_eq_ofJson hspells hdepth).symm.trans h))
  exact ⟨hspells, hdepth⟩

theorem Document.value_eq_ok {document : Document} {merged : Json} :
    document.value = .ok merged
      ↔ ∃ value, document = ⟨Node.ofJson value, none⟩ ∧ value.settle = merged := by
  constructor
  · intro h
    obtain ⟨root, trailing⟩ := document
    obtain ⟨value, hvalue, h⟩ := Except.bind_eq_ok.mp h
    obtain ⟨_, htrailing, h⟩ := Except.bind_eq_ok.mp h
    obtain rfl := Except.ok.inj h
    obtain ⟨content, hcontent, rfl⟩ := Except.map_eq_ok.mp hvalue
    cases trailing with
    | none =>
      exact ⟨content, congrArg (Document.mk · none) (Node.eq_ofJson_of_content hcontent), rfl⟩
    | some fault => exact nomatch htrailing
  · rintro ⟨value, rfl, rfl⟩
    rw [Document.value, Node.value_ofJson]
    rfl

/-- **A text is read as a value exactly if it spells one**, whose repeated keys are then merged. -/
theorem Json.parse_eq_ok {text : String} {merged : Json} :
    Json.parse text = .ok merged
      ↔ ∃ value, Grammar.Spells text value ∧ value.nesting ≤ maxDepth ∧ value.settle = merged := by
  rw [parse, Document.value_eq_ok]
  simp only [Document.ofText_eq_iff, and_assoc]

end EntityQuery
