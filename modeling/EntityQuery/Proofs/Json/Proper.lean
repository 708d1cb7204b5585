import EntityQuery.Proofs.Entries
import EntityQuery.Proofs.Json.Integer

/-!
# Proofs/Json/Proper — the numbers of a text fit

Whatever text is assembled, valid or not, the numbers of the tree are integers of 64 bits and finite
doubles (`Document.isProper_ofText`): a numeral stands for no others (`Numeral.isProper_of_value?`),
tokens hold no others (`isProper_of_mem_tokens`), and no token that is taken makes any
(`Assembly.isProper_step`).  So what is read off the tree in full has no others either
(`Node.IsProper.content`), also once its repeated keys are merged (`Json.IsProper.settle`).
-/

namespace EntityQuery

/-- An integer that needs no sixty-fifth bit, or a double that is finite. -/
def Number.IsProper : Number → Prop
  | .integer value => -signedLimit ≤ value ∧ value < unsignedLimit
  | .real value => value.isFinite = true

/-- An integer with a sign needs no sixty-fifth bit. -/
theorem Number.isProper_toInt (n : Int64) : (Number.integer n.toInt).IsProper := by
  have hlow := n.le_toInt
  have hhigh := n.toInt_lt
  have hlimits : -Number.signedLimit = -2 ^ 63 ∧ (2 : Int) ^ 63 ≤ Number.unsignedLimit := by decide
  exact ⟨by omega, by omega⟩

/-- Every number of a tree is proper. -/
inductive Node.IsProper : Node → Prop
  | null : IsProper .null
  | bool (value : Bool) : IsProper (.bool value)
  | num {number : Number} (proper : number.IsProper) : IsProper (.num number)
  | str (value : String) : IsProper (.str value)
  | arr {items : List Node} (proper : ∀ item ∈ items, IsProper item) (stop : Option Fault) :
      IsProper (.arr items stop)
  | obj {members : Members} (proper : ∀ member ∈ members, IsProper member.2)
      (stop : Option Fault) : IsProper (.obj members stop)
  | unreadable (fault : Fault) (skipped : Option Fault) : IsProper (.unreadable fault skipped)

/-- Every number of a value is proper. -/
inductive Json.IsProper : Json → Prop
  | null : IsProper .null
  | bool (value : Bool) : IsProper (.bool value)
  | num {number : Number} (proper : number.IsProper) : IsProper (.num number)
  | str (value : String) : IsProper (.str value)
  | arr {items : List Json} (proper : ∀ item ∈ items, IsProper item) : IsProper (.arr items)
  | obj {members : List (String × Json)} (proper : ∀ member ∈ members, IsProper member.2) :
      IsProper (.obj members)

theorem Json.IsProper.everyNumber {value : Json} (h : value.IsProper) :
    value.EveryNumber Number.IsProper := by
  induction h with
  | num proper => exact proper
  | arr _ ih => exact everyNumberItems_iff.mpr ih
  | obj _ ih => exact everyNumberMembers_iff.mpr ih
  | _ => trivial

/-! ## Tokens -/

/-- A numeral that stands for no integer is worked out as a double. -/
theorem Numeral.value?_eq_real? {numeral : Numeral} (h : ∀ n, numeral.value? ≠ some (.integer n)) :
    numeral.value? = numeral.real? := by
  rw [value?] at h ⊢
  dsimp only at h ⊢
  split
  · next hwhole =>
    rw [if_pos hwhole] at h
    split
    · next hnegative =>
      rw [if_pos hnegative] at h
      split
      · rfl
      · next hsmall => exact absurd (if_neg hsmall) (h _)
    · next hnegative =>
      rw [if_neg hnegative] at h
      split
      · next hsmall => exact absurd (if_pos hsmall) (h _)
      · rfl
  · rfl

/-- What a decimal is worked out as is finite. -/
theorem Binary64.isFinite_of_ofDecimal? {negative : Bool} {value : Decimal} {x : Binary64}
    (h : ofDecimal? negative value = some x) : x.isFinite = true := by
  rw [ofDecimal?] at h
  split at h
  · next hfinite =>
    obtain rfl := Option.some.inj h
    have hsmall : scaled value < signBit := Nat.lt_trans hfinite (by decide)
    rw [isFinite, magnitude_ofMagnitude hsmall]
    exact decide_eq_true hfinite
  · contradiction

/-- **A numeral stands for a proper number**, if for any. -/
theorem Numeral.isProper_of_value? {numeral : Numeral} {number : Number}
    (h : numeral.value? = some number) : number.IsProper := by
  cases number with
  | integer n => exact fits_of_value? h
  | real x =>
    have hreal : numeral.value? = numeral.real? :=
      value?_eq_real? fun n hinteger => nomatch h.symm.trans hinteger
    obtain ⟨double, hdouble, heq⟩ := Option.map_eq_some_iff.mp (hreal.symm.trans h)
    obtain rfl := Number.real.inj heq
    exact Binary64.isFinite_of_ofDecimal? hdouble

/-- Every number of a token is proper. -/
def Lexeme.IsProper : Lexeme → Prop
  | .scalar node => node.IsProper
  | _ => True

/-- The number of a numeral fits, if there is one. -/
theorem Numeral.isProper_node (numeral : Numeral) (rest : List Char) :
    (numeral.node rest).IsProper := by
  rw [node]
  split
  · next number hvalue => exact .num (isProper_of_value? hvalue)
  · exact .unreadable _ _

/-- The numbers of a token fit. -/
theorem Token.isProper_of_scan {c : Char} {after rest : List Char} {lexeme : Lexeme}
    (h : scan c after = .read lexeme rest) : lexeme.IsProper := by
  unfold Token.scan at h
  split at h
  case h_7 =>
    rcases hscan : Literal.scan after with ⟨text, last⟩ | ⟨fault, skipped⟩ <;> rw [hscan] at h <;>
      cases h
    trivial
  case h_8 =>
    cases eq_of_scanWord h
    exact .null
  case h_9 | h_10 =>
    cases eq_of_scanWord h
    exact .bool _
  case h_11 =>
    split at h
    · obtain ⟨numeral, -, rfl⟩ := numeral_of_scanNumber h
      exact numeral.isProper_node rest
    · contradiction
  all_goals
    cases h
    trivial

theorem isProper_of_mem_tokens (cs : List Char) :
    ∀ token ∈ tokens cs, token.lexeme.IsProper := by
  fun_induction tokens cs with
  | case1 => exact nofun
  | case2 _ _ _ _ _ _ hscan ih =>
    exact List.forall_mem_cons.mpr ⟨Token.isProper_of_scan hscan, ih⟩
  | case3 => exact List.forall_mem_singleton.mpr trivial

/-! ## Assembling -/

namespace Assembly

/-- What has been read of a container is proper. -/
def Parts.IsProper : Parts → Prop
  | .items earlier => ∀ item ∈ earlier, item.IsProper
  | .members earlier | .keyed earlier _ => ∀ member ∈ earlier, member.2.IsProper

/-- What has been read so far is proper. -/
def State.IsProper : State → Prop
  | .reading _ stack => ∀ frame ∈ stack, frame.parts.IsProper
  | .complete root => root.IsProper
  | .stopped document => document.root.IsProper

theorem Parts.IsProper.add {parts : Parts} (h : parts.IsProper) {node : Node}
    (hnode : node.IsProper) : (parts.add node).IsProper := by
  cases parts with
  | items earlier => exact List.forall_mem_cons.mpr ⟨hnode, h⟩
  | members earlier => exact h
  | keyed earlier key => exact List.forall_mem_cons.mpr ⟨hnode, h⟩

theorem Parts.IsProper.node {parts : Parts} (h : parts.IsProper) (stop : Option Fault) :
    (parts.node stop).IsProper := by
  cases parts with
  | items earlier => exact .arr (fun item hitem => h item (List.mem_reverse.mp hitem)) stop
  | members earlier | keyed earlier key =>
    exact .obj (fun member hmember => h member (List.mem_reverse.mp hmember)) stop

/-- A container is proper if what it holds is. -/
theorem isProper_close {frame : Frame} (h : frame.parts.IsProper) (stop : Option Fault) :
    (frame.close stop).IsProper := by
  rw [Frame.close]
  split
  · exact h.node stop
  · exact .unreadable _ _

variable {stack : List Frame} (h : ∀ frame ∈ stack, frame.parts.IsProper)

include h

theorem isProper_push {parts : Parts} (hparts : parts.IsProper) (here : List Char) :
    ∀ frame ∈ push parts here stack, frame.parts.IsProper := by
  cases stack with
  | nil => exact List.forall_mem_singleton.mpr hparts
  | cons outer rest => exact List.forall_mem_cons.mpr ⟨hparts, h⟩

/-- A state stays proper when a proper value is delivered. -/
theorem isProper_deliver {node : Node} (hnode : node.IsProper) : (deliver node stack).IsProper := by
  cases stack with
  | nil => exact hnode
  | cons frame rest =>
    obtain ⟨hframe, hrest⟩ := List.forall_mem_cons.mp h
    exact List.forall_mem_cons.mpr ⟨hframe.add hnode, hrest⟩

/-- Containers that are given up hold what they held. -/
theorem isProper_collapse {node : Node} (hnode : node.IsProper) :
    (collapse node stack).IsProper := by
  rw [collapse]
  induction stack generalizing node with
  | nil => exact hnode
  | cons frame rest ih =>
    obtain ⟨hframe, hrest⟩ := List.forall_mem_cons.mp h
    exact ih hrest (isProper_close (hframe.add hnode) none)

theorem isProper_stopAtValue (fault skipped : Fault) :
    (stopAtValue fault skipped stack).IsProper :=
  isProper_collapse h (.unreadable fault skipped)

theorem isProper_stopInside (fault : Fault) : (stopInside fault stack).IsProper := by
  cases stack with
  | nil => exact isProper_stopAtValue h fault fault
  | cons frame rest =>
    obtain ⟨hframe, hrest⟩ := List.forall_mem_cons.mp h
    exact isProper_collapse hrest (isProper_close hframe (some fault))

variable {token : Token} (htoken : token.lexeme.IsProper)

include htoken

/-- A state stays proper where a value is taken. -/
theorem isProper_takeValue : (takeValue token stack).IsProper := by
  obtain ⟨lexeme, here⟩ := token
  cases lexeme with
  | text value =>
    rcases value with fault | value
    · exact isProper_deliver h (.unreadable fault none)
    · exact isProper_deliver h (.str value)
  | scalar node => exact isProper_deliver h htoken
  | openArr =>
    have hempty : (Parts.items []).IsProper := nofun
    exact isProper_push h hempty here
  | openObj =>
    have hempty : (Parts.members []).IsProper := nofun
    exact isProper_push h hempty here
  | _ => exact isProper_stopAtValue h _ _

omit htoken in
theorem isProper_takeKey (token : Token) : (takeKey token stack).IsProper := by
  unfold takeKey
  split
  · obtain ⟨hframe, hrest⟩ := List.forall_mem_cons.mp h
    split
    · exact List.forall_mem_cons.mpr ⟨hframe, hrest⟩
    · split
      · refine isProper_stopAtValue ?_ _ _
        exact List.forall_mem_cons.mpr ⟨hframe, hrest⟩
      · exact isProper_stopInside h _
    · exact isProper_stopInside h _
  · exact isProper_stopInside h _

omit htoken in
theorem isProper_takeCommaOrClose (token : Token) : (takeCommaOrClose token stack).IsProper := by
  cases stack with
  | nil => exact isProper_stopInside h _
  | cons frame rest =>
    obtain ⟨hframe, hrest⟩ := List.forall_mem_cons.mp h
    rw [takeCommaOrClose]
    split
    · exact h
    · exact isProper_deliver hrest (isProper_close hframe none)
    · exact h
    · exact isProper_deliver hrest (isProper_close hframe none)
    · exact isProper_stopInside h _

omit h

/-- **Taking a token makes no number.** -/
theorem isProper_step {state : State} (hstate : state.IsProper) : (step state token).IsProper := by
  cases state with
  | stopped document => exact hstate
  | complete root => exact hstate
  | reading want stack =>
    cases want with
    | value => exact isProper_takeValue hstate htoken
    | valueOrClose =>
      unfold step
      dsimp only
      split
      · obtain ⟨hframe, hrest⟩ := List.forall_mem_cons.mp hstate
        exact isProper_deliver hrest (isProper_close hframe none)
      · exact isProper_takeValue hstate htoken
    | key => exact isProper_takeKey hstate token
    | keyOrClose =>
      unfold step
      dsimp only
      split
      · obtain ⟨hframe, hrest⟩ := List.forall_mem_cons.mp hstate
        exact isProper_deliver hrest (isProper_close hframe none)
      · exact isProper_takeKey hstate token
    | colon =>
      rw [step]
      split
      · exact hstate
      · exact isProper_stopAtValue hstate _ _
    | commaOrClose => exact isProper_takeCommaOrClose hstate token

omit htoken

/-- The tree of a proper state is proper. -/
theorem isProper_finish {state : State} (hstate : state.IsProper) :
    (finish state).root.IsProper := by
  cases state with
  | stopped document => exact hstate
  | complete root => exact hstate
  | reading want stack =>
    cases want with
    | value | colon =>
      have hproper := isProper_stopAtValue hstate .ended .ended
      rw [finish]
      split
      · next hstopped =>
        rw [hstopped] at hproper
        exact hproper
      · exact .unreadable _ _
    | _ =>
      have hproper := isProper_stopInside hstate .ended
      rw [finish]
      · split
        · next hstopped =>
          rw [hstopped] at hproper
          exact hproper
        · exact .unreadable _ _
      all_goals exact Want.noConfusion

end Assembly

/-- **The numbers of a text are proper**, whatever else is wrong with it. -/
theorem Document.isProper_ofText (text : String) : (ofText text).root.IsProper := by
  have hfrom : ∀ (taken : List Token) (state : Assembly.State),
      (∀ token ∈ taken, token.lexeme.IsProper) → state.IsProper →
        (taken.foldl Assembly.step state).IsProper := by
    intro taken
    induction taken with
    | nil => exact fun _ _ hstate => hstate
    | cons token rest ih =>
      intro state htaken hstate
      obtain ⟨htoken, hrest⟩ := List.forall_mem_cons.mp htaken
      exact ih _ hrest (Assembly.isProper_step htoken hstate)
  exact Assembly.isProper_finish (hfrom _ _ (isProper_of_mem_tokens text.toList) nofun)

/-! ## Reading in full -/

theorem Node.contentItems_eq_mapM (items : List Node) :
    contentItems items = items.mapM content := by
  induction items with
  | nil => rfl
  | cons item rest ih =>
    rw [contentItems, Except.mapM_cons, ih]
    congr 1

theorem Node.contentMembers_eq_mapM (members : Members) :
    contentMembers members
      = members.mapM fun member => member.1 >>= fun key => member.2.content.map (Prod.mk key) := by
  induction members with
  | nil => rfl
  | cons member rest ih =>
    obtain ⟨key, node⟩ := member
    rw [contentMembers, Except.mapM_cons, ih]
    cases key with
    | error fault => rfl
    | ok key => cases node.content <;> rfl

/-- What is read off a proper tree is proper. -/
theorem Node.IsProper.content {node : Node} (h : node.IsProper) :
    ∀ {value : Json}, node.content = .ok value → value.IsProper := by
  induction h with
  | null =>
    rintro _ ⟨⟩
    exact .null
  | bool value =>
    rintro _ ⟨⟩
    exact .bool value
  | num proper =>
    rintro _ ⟨⟩
    exact .num proper
  | str value =>
    rintro _ ⟨⟩
    exact .str value
  | arr _ stop ih =>
    intro value hvalue
    rw [Node.content, contentItems_eq_mapM] at hvalue
    obtain ⟨values, hvalues, hvalue⟩ := Except.bind_eq_ok.mp hvalue
    obtain ⟨-, -, hvalue⟩ := Except.bind_eq_ok.mp hvalue
    obtain rfl := Except.ok.inj hvalue
    refine .arr fun item hitem => ?_
    obtain ⟨node, hnode, hcontent⟩ := Except.exists_of_mem_mapM hvalues item hitem
    exact ih node hnode hcontent
  | obj _ stop ih =>
    intro value hvalue
    rw [Node.content, contentMembers_eq_mapM] at hvalue
    obtain ⟨values, hvalues, hvalue⟩ := Except.bind_eq_ok.mp hvalue
    obtain ⟨-, -, hvalue⟩ := Except.bind_eq_ok.mp hvalue
    obtain rfl := Except.ok.inj hvalue
    refine .obj fun member hmember => ?_
    obtain ⟨node, hnode, hcontent⟩ := Except.exists_of_mem_mapM hvalues member hmember
    obtain ⟨key, -, hcontent⟩ := Except.bind_eq_ok.mp hcontent
    obtain ⟨value, hvalue, rfl⟩ := Except.map_eq_ok.mp hcontent
    exact ih node hnode hvalue
  | unreadable fault skipped => exact nofun

/-- Merging repeated keys makes no number. -/
theorem Json.IsProper.settle {value : Json} (h : value.IsProper) : value.settle.IsProper := by
  induction h with
  | null => exact .null
  | bool value => exact .bool value
  | num proper => exact .num proper
  | str value => exact .str value
  | arr _ ih =>
    rw [Json.settle, settleItems_eq_map]
    exact .arr (List.forall_mem_map.mpr ih)
  | obj _ ih =>
    rw [Json.settle, settleMembers_eq_mapValues]
    refine .obj fun member hmember => ?_
    obtain ⟨entry, hentry, rfl⟩ := List.mem_map.mp (Entries.mem_of_mem_ofList hmember)
    exact ih entry hentry

end EntityQuery
