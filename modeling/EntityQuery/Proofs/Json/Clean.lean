import EntityQuery.Proofs.Json.Proper
import EntityQuery.Proofs.Reading.Record

/-!
# Proofs/Json/Clean — a text that is read in full meets no fault on the way

A fault is never lost.  A state is *clean* while nothing in it holds a fault.  A token either makes
a state fail for good or is one of the few that may stand there (`Assembly.fails_or_takes`), and
then the state before it is clean if the one behind it is (`Assembly.Takes.isClean`).  So a run that
ends well was clean all the way (`Assembly.isClean_of_run`), and inside a value it always takes one
token more (`Assembly.exists_token_of_run`).
-/

namespace EntityQuery

open Json.Grammar (Blanks Lexed Key Value Items)

/-! ## Trees without faults -/

namespace Node

/-- A tree that is a value: it holds no fault. -/
def IsValue (node : Node) : Prop :=
  ∃ value, node = ofJson value

theorem not_isValue_unreadable (fault : Fault) (skipped : Option Fault) :
    ¬ (Node.unreadable fault skipped).IsValue := by
  rintro ⟨value, h⟩
  cases value <;> exact nomatch h

theorem ofJsonMembers_eq_map (members : List (String × Json)) :
    ofJsonMembers members = members.map fun member => (.ok member.1, ofJson member.2) := by
  induction members with
  | nil => rfl
  | cons member rest ih => rw [ofJsonMembers, ih, List.map_cons]

/-- A list has a value if all items have and nothing stopped it. -/
theorem isValue_arr {items : List Node} {stop : Option Fault} :
    (Node.arr items stop).IsValue ↔ (∀ item ∈ items, item.IsValue) ∧ stop = none := by
  constructor
  · rintro ⟨value, h⟩
    cases value with
    | arr values =>
      obtain ⟨rfl, rfl⟩ := Node.arr.inj h
      rw [ofJsonItems_eq_map]
      exact ⟨List.forall_mem_map.mpr fun value _ => ⟨value, rfl⟩, rfl⟩
    | _ => exact nomatch h
  · rintro ⟨hitems, rfl⟩
    have hvalues : ∃ values : List Json, items = values.map ofJson := by
      induction items with
      | nil => exact ⟨[], rfl⟩
      | cons item rest ih =>
        obtain ⟨⟨value, rfl⟩, hrest⟩ := List.forall_mem_cons.mp hitems
        obtain ⟨values, rfl⟩ := ih hrest
        exact ⟨value :: values, rfl⟩
    obtain ⟨values, rfl⟩ := hvalues
    exact ⟨.arr values, by rw [ofJson, ofJsonItems_eq_map]⟩

/-- An object has a value if all keys and values can be read and nothing stopped it. -/
theorem isValue_obj {members : Members} {stop : Option Fault} :
    (Node.obj members stop).IsValue
      ↔ (∀ member ∈ members, (∃ key, member.1 = .ok key) ∧ member.2.IsValue) ∧ stop = none := by
  constructor
  · rintro ⟨value, h⟩
    cases value with
    | obj values =>
      obtain ⟨rfl, rfl⟩ := Node.obj.inj h
      rw [ofJsonMembers_eq_map]
      exact ⟨List.forall_mem_map.mpr fun member _ => ⟨⟨member.1, rfl⟩, member.2, rfl⟩, rfl⟩
    | _ => exact nomatch h
  · rintro ⟨hmembers, rfl⟩
    have hvalues : ∃ values : List (String × Json), members = ofJsonMembers values := by
      induction members with
      | nil => exact ⟨[], rfl⟩
      | cons member rest ih =>
        obtain ⟨⟨⟨key, hkey⟩, value, hvalue⟩, hrest⟩ := List.forall_mem_cons.mp hmembers
        obtain ⟨values, rfl⟩ := ih hrest
        exact ⟨(key, value) :: values, by rw [ofJsonMembers, ← hkey, ← hvalue]⟩
    obtain ⟨values, rfl⟩ := hvalues
    exact ⟨.obj values, rfl⟩

mutual

/-- **What can be read in full is a value.** -/
theorem eq_ofJson_of_content : ∀ {node : Node} {value : Json}, node.content = .ok value →
    node = ofJson value
  | .null, _, h | .bool _, _, h | .num _, _, h | .str _, _, h => by
      obtain rfl := Except.ok.inj h
      rfl
  | .arr items stop, _, h => by
      obtain ⟨values, hvalues, h⟩ := Except.bind_eq_ok.mp h
      obtain ⟨_, hstop, h⟩ := Except.bind_eq_ok.mp h
      obtain rfl := Except.ok.inj h
      rw [eq_ofJsonItems_of_contentItems hvalues, ofJson]
      cases stop with
      | none => rfl
      | some fault => exact nomatch hstop
  | .obj members stop, _, h => by
      obtain ⟨values, hvalues, h⟩ := Except.bind_eq_ok.mp h
      obtain ⟨_, hstop, h⟩ := Except.bind_eq_ok.mp h
      obtain rfl := Except.ok.inj h
      rw [eq_ofJsonMembers_of_contentMembers hvalues, ofJson]
      cases stop with
      | none => rfl
      | some fault => exact nomatch hstop
  | .unreadable _ _, _, h => nomatch h

theorem eq_ofJsonItems_of_contentItems : ∀ {items : List Node} {values : List Json},
    contentItems items = .ok values → items = ofJsonItems values
  | [], _, h => by
      obtain rfl := Except.ok.inj h
      rfl
  | item :: rest, _, h => by
      obtain ⟨value, hvalue, h⟩ := Except.bind_eq_ok.mp h
      obtain ⟨values, hvalues, h⟩ := Except.bind_eq_ok.mp h
      obtain rfl := Except.ok.inj h
      rw [eq_ofJson_of_content hvalue, eq_ofJsonItems_of_contentItems hvalues, ofJsonItems]

theorem eq_ofJsonMembers_of_contentMembers : ∀ {members : Members}
    {values : List (String × Json)}, contentMembers members = .ok values →
      members = ofJsonMembers values
  | [], _, h => by
      obtain rfl := Except.ok.inj h
      rfl
  | (key, node) :: rest, _, h => by
      obtain ⟨name, hname, h⟩ := Except.bind_eq_ok.mp h
      obtain ⟨value, hvalue, h⟩ := Except.bind_eq_ok.mp h
      obtain ⟨values, hvalues, h⟩ := Except.bind_eq_ok.mp h
      obtain rfl := Except.ok.inj h
      rw [hname, eq_ofJson_of_content hvalue, eq_ofJsonMembers_of_contentMembers hvalues,
        ofJsonMembers]

end

end Node

/-! ## Tokens -/

/-- A broken token is the last one. -/
theorem tokens_of_broken {c : Char} {after : List Char} {fault skipped : Fault}
    (hblank : Token.isBlank c = false) (h : Token.scan c after = .broken fault skipped) :
    tokens (c :: after) = [⟨.broken fault skipped, c :: after⟩] := by
  have hcons : (c :: after).dropWhile Token.isBlank = c :: after :=
    List.dropWhile_cons_of_neg (by rw [hblank]; exact Bool.false_ne_true)
  rw [tokens]
  split
  · rename_i hnil
    exact absurd (hcons.symm.trans hnil) (List.cons_ne_nil c after)
  · rename_i hfirst
    obtain ⟨rfl, rfl⟩ := List.cons.inj (hcons.symm.trans hfirst)
    split <;> rename_i hscan <;> rw [h] at hscan
    · cases hscan
    · cases hscan
      rfl

/-- What is no blank starts a token. -/
theorem exists_tokens {c : Char} {after : List Char} (hblank : Token.isBlank c = false) :
    ∃ lexeme others, tokens (c :: after) = ⟨lexeme, c :: after⟩ :: others := by
  cases h : Token.scan c after with
  | read lexeme rest => exact ⟨lexeme, _, tokens_of_scan h⟩
  | broken fault skipped => exact ⟨.broken fault skipped, [], tokens_of_broken hblank h⟩

theorem blanks_dropWhile (cs : List Char) : Blanks cs (cs.dropWhile Token.isBlank) :=
  ⟨cs.takeWhile Token.isBlank, List.all_eq_true.mp List.all_takeWhile,
    List.takeWhile_append_dropWhile.symm⟩

/-- The character that is a token by itself. -/
def Lexeme.mark? : Lexeme → Option Char
  | .openArr => some '['
  | .closeArr => some ']'
  | .openObj => some '\x7b'
  | .closeObj => some '\x7d'
  | .comma => some ','
  | .colon => some ':'
  | _ => none

/-- A mark is one character. -/
theorem Token.eq_mark_of_scan {c mark : Char} {after rest : List Char} {lexeme : Lexeme}
    (h : scan c after = .read lexeme rest) (hmark : lexeme.mark? = some mark) :
    c = mark ∧ after = rest := by
  unfold scan at h
  split at h
  case h_7 =>
    rcases hscan : Literal.scan after with ⟨text, last⟩ | ⟨fault, skipped⟩ <;> rw [hscan] at h <;>
      cases h
    exact nomatch hmark
  case h_8 | h_9 | h_10 =>
    rw [eq_of_scanWord h] at hmark
    exact nomatch hmark
  case h_11 =>
    split at h
    · obtain ⟨numeral, -, rfl⟩ := numeral_of_scanNumber h
      exact nomatch hmark
    · contradiction
  all_goals
    cases h
    exact ⟨Option.some.inj hmark, rfl⟩

/-- A document that is a value, with nothing after it. -/
def Document.IsValue (document : Document) : Prop :=
  ∃ value, document = ⟨Node.ofJson value, none⟩

/-! ## Clean states -/

namespace Assembly

/-- What has been read of a container holds no fault. -/
def Parts.IsClean : Parts → Prop
  | .items earlier => ∀ item ∈ earlier, item.IsValue
  | .members earlier => ∀ member ∈ earlier, (∃ key, member.1 = .ok key) ∧ member.2.IsValue
  | .keyed earlier key => (∃ name, key = .ok name)
      ∧ ∀ member ∈ earlier, (∃ key, member.1 = .ok key) ∧ member.2.IsValue

/-- A container that holds no fault and does not lie too deep. -/
def Frame.IsClean (frame : Frame) : Prop :=
  frame.tooDeep = none ∧ frame.parts.IsClean

/-- Nothing that was read so far is a fault. -/
def State.IsClean : State → Prop
  | .reading _ stack => ∀ frame ∈ stack, frame.IsClean
  | .complete root => root.IsValue
  | .stopped document => document.IsValue

/-- Nothing more is looked at, and what was read is no value. -/
def State.Fails : State → Prop
  | .stopped document => ¬ document.IsValue
  | _ => False

/-- A container that goes on with a value. -/
def Frame.Awaits (frame : Frame) : Prop :=
  match frame.parts with
  | .items _ | .keyed _ _ => True
  | .members _ => False

theorem awaits_items (depth : Nat) (tooDeep : Option Fault) (earlier : List Node) :
    Frame.Awaits ⟨depth, tooDeep, .items earlier⟩ := trivial

theorem awaits_keyed (depth : Nat) (tooDeep : Option Fault) (earlier : Members)
    (key : Except Fault String) : Frame.Awaits ⟨depth, tooDeep, .keyed earlier key⟩ := trivial

/-- What may come next agrees with what the innermost container holds, and the others go on with the
value that it is. -/
def Want.Fits : Want → List Frame → Prop
  | .value, stack => ∀ frame ∈ stack, frame.Awaits
  | .valueOrClose, ⟨_, _, .items _⟩ :: rest => ∀ frame ∈ rest, frame.Awaits
  | .key, ⟨_, _, .members _⟩ :: rest => ∀ frame ∈ rest, frame.Awaits
  | .keyOrClose, ⟨_, _, .members _⟩ :: rest => ∀ frame ∈ rest, frame.Awaits
  | .colon, ⟨_, _, .keyed _ _⟩ :: rest => ∀ frame ∈ rest, frame.Awaits
  | .commaOrClose, ⟨_, _, .items _⟩ :: rest => ∀ frame ∈ rest, frame.Awaits
  | .commaOrClose, ⟨_, _, .members _⟩ :: rest => ∀ frame ∈ rest, frame.Awaits
  | _, _ => False

/-- States in which what may come next fits. -/
def State.Fits : State → Prop
  | .reading want stack => want.Fits stack
  | _ => True

/-! ### Closing and delivering -/

section

variable {depth : Nat} {tooDeep : Option Fault} {stop : Option Fault}

/-- A list that has a value when it is closed was clean, and nothing stopped it. -/
theorem isClean_of_close_items {earlier : List Node}
    (h : (Frame.close stop ⟨depth, tooDeep, .items earlier⟩).IsValue) :
    Frame.IsClean ⟨depth, tooDeep, .items earlier⟩ ∧ stop = none := by
  cases tooDeep with
  | some fault => exact absurd h (Node.not_isValue_unreadable _ _)
  | none =>
    obtain ⟨hitems, rfl⟩ := Node.isValue_arr.mp h
    exact ⟨⟨rfl, fun item hitem => hitems item (List.mem_reverse.mpr hitem)⟩, rfl⟩

/-- An object that has a value when it is closed was clean, and nothing stopped it. -/
theorem isClean_of_close_members {earlier : Members}
    (h : (Frame.close stop ⟨depth, tooDeep, .members earlier⟩).IsValue) :
    Frame.IsClean ⟨depth, tooDeep, .members earlier⟩ ∧ stop = none := by
  cases tooDeep with
  | some fault => exact absurd h (Node.not_isValue_unreadable _ _)
  | none =>
    obtain ⟨hmembers, rfl⟩ := Node.isValue_obj.mp h
    exact ⟨⟨rfl, fun member hmember => hmembers member (List.mem_reverse.mpr hmember)⟩, rfl⟩

end

/-- What is stopped inside has no value. -/
theorem not_isValue_close (fault : Fault) (frame : Frame) :
    ¬ (frame.close (some fault)).IsValue := by
  obtain ⟨depth, tooDeep, parts⟩ := frame
  cases tooDeep with
  | some deep => exact Node.not_isValue_unreadable _ _
  | none =>
    cases parts with
    | items earlier => exact fun h => nomatch (Node.isValue_arr.mp h).2
    | members earlier | keyed earlier key => exact fun h => nomatch (Node.isValue_obj.mp h).2

theorem isClean_of_add {frame : Frame} (hawaits : frame.Awaits) {node : Node}
    (h : Frame.IsClean { frame with parts := frame.parts.add node }) :
    node.IsValue ∧ frame.IsClean := by
  obtain ⟨depth, tooDeep, parts⟩ := frame
  obtain ⟨hdepth, hparts⟩ := h
  cases parts with
  | items earlier =>
    obtain ⟨hnode, hearlier⟩ := List.forall_mem_cons.mp hparts
    exact ⟨hnode, hdepth, hearlier⟩
  | members earlier => exact hawaits.elim
  | keyed earlier key =>
    obtain ⟨⟨hkey, hnode⟩, hearlier⟩ := List.forall_mem_cons.mp hparts
    exact ⟨hnode, hdepth, hkey, hearlier⟩

/-- A container whose last value holds a fault is no value. -/
theorem isValue_of_close_add {frame : Frame} (hawaits : frame.Awaits) {node : Node}
    (h : (Frame.close none { frame with parts := frame.parts.add node }).IsValue) :
    node.IsValue := by
  obtain ⟨depth, tooDeep, parts⟩ := frame
  cases parts with
  | items earlier =>
    exact (isClean_of_add (awaits_items depth tooDeep earlier) (isClean_of_close_items h).1).1
  | members earlier => exact hawaits.elim
  | keyed earlier key =>
    exact (isClean_of_add (awaits_keyed depth tooDeep earlier key)
      (isClean_of_close_members h).1).1

variable {stack : List Frame} (hawaits : ∀ frame ∈ stack, frame.Awaits)

include hawaits

/-- What is inside a container that has a value has one. -/
theorem isValue_of_collapse {node : Node} (h : (collapse node stack).IsValue) : node.IsValue := by
  induction stack generalizing node with
  | nil => exact h
  | cons frame rest ih =>
    obtain ⟨hframe, hrest⟩ := List.forall_mem_cons.mp hawaits
    exact isValue_of_close_add hframe (ih hrest h)

/-- If a state is clean once a value is delivered, all was clean before. -/
theorem isClean_of_deliver {node : Node} (h : (deliver node stack).IsClean) :
    node.IsValue ∧ ∀ frame ∈ stack, frame.IsClean := by
  cases stack with
  | nil => exact ⟨h, nofun⟩
  | cons frame rest =>
    obtain ⟨hframe, hrest⟩ := List.forall_mem_cons.mp h
    obtain ⟨hnode, hclean⟩ := isClean_of_add (hawaits frame List.mem_cons_self) hframe
    exact ⟨hnode, List.forall_mem_cons.mpr ⟨hclean, hrest⟩⟩

theorem fits_deliver (node : Node) : (deliver node stack).Fits := by
  cases stack with
  | nil => trivial
  | cons frame rest =>
    obtain ⟨hframe, hrest⟩ := List.forall_mem_cons.mp hawaits
    obtain ⟨depth, tooDeep, parts⟩ := frame
    cases parts with
    | members earlier => exact hframe.elim
    | items earlier | keyed earlier key => exact hrest

/-- A run that is stopped where a value should stand has failed. -/
theorem fails_stopAtValue (fault skipped : Fault) : (stopAtValue fault skipped stack).Fails := by
  rintro ⟨value, h⟩
  exact Node.not_isValue_unreadable _ _
    (isValue_of_collapse hawaits ⟨value, congrArg Document.root h⟩)

theorem fails_stopInside (fault : Fault) (frame : Frame) :
    (stopInside fault (frame :: stack)).Fails := by
  rintro ⟨value, h⟩
  exact not_isValue_close fault frame
    (isValue_of_collapse hawaits ⟨value, congrArg Document.root h⟩)

omit hawaits

/-! ### One token -/

/-- What a token does where it may stand. -/
inductive Takes (here : List Char) : Want → List Frame → Lexeme → State → Prop
  | text {want : Want} (isValue : want.IsValue) (value : String) (stack : List Frame) :
      Takes here want stack (.text (.ok value)) (deliver (.str value) stack)
  | halfPair {want : Want} (isValue : want.IsValue) (fault : Fault) (stack : List Frame) :
      Takes here want stack (.text (.error fault)) (deliver (.unreadable fault none) stack)
  | scalar {want : Want} (isValue : want.IsValue) (node : Node) (stack : List Frame) :
      Takes here want stack (.scalar node) (deliver node stack)
  | openArr {want : Want} (isValue : want.IsValue) (stack : List Frame) :
      Takes here want stack .openArr (.reading .valueOrClose (push (.items []) here stack))
  | openObj {want : Want} (isValue : want.IsValue) (stack : List Frame) :
      Takes here want stack .openObj (.reading .keyOrClose (push (.members []) here stack))
  | closeArr {want : Want} (closes : want = .valueOrClose ∨ want = .commaOrClose) (depth : Nat)
      (tooDeep : Option Fault) (earlier : List Node) (rest : List Frame) :
      Takes here want (⟨depth, tooDeep, .items earlier⟩ :: rest) .closeArr
        (deliver (Frame.close none ⟨depth, tooDeep, .items earlier⟩) rest)
  | closeObj {want : Want} (closes : want = .keyOrClose ∨ want = .commaOrClose) (depth : Nat)
      (tooDeep : Option Fault) (earlier : Members) (rest : List Frame) :
      Takes here want (⟨depth, tooDeep, .members earlier⟩ :: rest) .closeObj
        (deliver (Frame.close none ⟨depth, tooDeep, .members earlier⟩) rest)
  | key {want : Want} (isKey : want.IsKey) (depth : Nat) (tooDeep : Option Fault)
      (earlier : Members) (key : Except Fault String) (rest : List Frame) :
      Takes here want (⟨depth, tooDeep, .members earlier⟩ :: rest) (.text key)
        (.reading .colon (⟨depth, tooDeep, .keyed earlier key⟩ :: rest))
  | colon (depth : Nat) (tooDeep : Option Fault) (earlier : Members) (key : Except Fault String)
      (rest : List Frame) :
      Takes here .colon (⟨depth, tooDeep, .keyed earlier key⟩ :: rest) .colon
        (.reading .value (⟨depth, tooDeep, .keyed earlier key⟩ :: rest))
  | nextItem (depth : Nat) (tooDeep : Option Fault) (earlier : List Node) (rest : List Frame) :
      Takes here .commaOrClose (⟨depth, tooDeep, .items earlier⟩ :: rest) .comma
        (.reading .value (⟨depth, tooDeep, .items earlier⟩ :: rest))
  | nextMember (depth : Nat) (tooDeep : Option Fault) (earlier : Members) (rest : List Frame) :
      Takes here .commaOrClose (⟨depth, tooDeep, .members earlier⟩ :: rest) .comma
        (.reading .key (⟨depth, tooDeep, .members earlier⟩ :: rest))

/-- Where a value may stand, a token is taken for one or the run fails. -/
theorem takes_takeValue (hawaits : ∀ frame ∈ stack, frame.Awaits) {want : Want}
    (hwant : want.IsValue) (lexeme : Lexeme) (here : List Char) :
    (takeValue ⟨lexeme, here⟩ stack).Fails
      ∨ Takes here want stack lexeme (takeValue ⟨lexeme, here⟩ stack) := by
  cases lexeme with
  | text value =>
    cases value with
    | ok value => exact .inr (.text hwant value stack)
    | error fault => exact .inr (.halfPair hwant fault stack)
  | scalar node => exact .inr (.scalar hwant node stack)
  | openArr => exact .inr (.openArr hwant stack)
  | openObj => exact .inr (.openObj hwant stack)
  | _ => exact .inl (fails_stopAtValue hawaits _ _)

/-- Where a key may stand, a token is taken for one or the run fails. -/
theorem takes_takeKey (hawaits : ∀ frame ∈ stack, frame.Awaits) {want : Want}
    (hwant : want.IsKey) (depth : Nat) (tooDeep : Option Fault) (earlier : Members)
    (lexeme : Lexeme) (here : List Char) :
    (takeKey ⟨lexeme, here⟩ (⟨depth, tooDeep, .members earlier⟩ :: stack)).Fails
      ∨ Takes here want (⟨depth, tooDeep, .members earlier⟩ :: stack) lexeme
        (takeKey ⟨lexeme, here⟩ (⟨depth, tooDeep, .members earlier⟩ :: stack)) := by
  cases lexeme with
  | text key => exact .inr (.key hwant depth tooDeep earlier key stack)
  | broken fault skipped =>
    left
    dsimp only [takeKey]
    split
    · exact fails_stopAtValue (List.forall_mem_cons.mpr ⟨awaits_keyed _ _ _ _, hawaits⟩) _ _
    · exact fails_stopInside hawaits _ _
  | _ => exact .inl (fails_stopInside hawaits _ _)

theorem step_keyOrClose {lexeme : Lexeme} (h : lexeme ≠ .closeObj) (here : List Char)
    (stack : List Frame) :
    step (.reading .keyOrClose stack) ⟨lexeme, here⟩ = takeKey ⟨lexeme, here⟩ stack := by
  cases lexeme <;> first | rfl | exact absurd rfl h

/-- **A token stands where it may, or nothing more is looked at.** -/
theorem fails_or_takes {want : Want} (hfits : want.Fits stack) (lexeme : Lexeme)
    (here : List Char) :
    (step (.reading want stack) ⟨lexeme, here⟩).Fails
      ∨ Takes here want stack lexeme (step (.reading want stack) ⟨lexeme, here⟩) := by
  cases want with
  | value => exact takes_takeValue hfits (.inl rfl) lexeme here
  | valueOrClose =>
    match stack, hfits with
    | ⟨depth, tooDeep, .items earlier⟩ :: rest, hrest =>
      by_cases hclose : lexeme = .closeArr
      · subst hclose
        exact .inr (.closeArr (.inl rfl) depth tooDeep earlier rest)
      · rw [step_value (.inr rfl) lexeme hclose]
        exact takes_takeValue (List.forall_mem_cons.mpr ⟨awaits_items _ _ _, hrest⟩) (.inr rfl)
          lexeme here
  | key =>
    match stack, hfits with
    | ⟨depth, tooDeep, .members earlier⟩ :: rest, hrest =>
      exact takes_takeKey hrest (.inl rfl) depth tooDeep earlier lexeme here
  | keyOrClose =>
    match stack, hfits with
    | ⟨depth, tooDeep, .members earlier⟩ :: rest, hrest =>
      by_cases hclose : lexeme = .closeObj
      · subst hclose
        exact .inr (.closeObj (.inl rfl) depth tooDeep earlier rest)
      · rw [step_keyOrClose hclose]
        exact takes_takeKey hrest (.inr rfl) depth tooDeep earlier lexeme here
  | colon =>
    match stack, hfits with
    | ⟨depth, tooDeep, .keyed earlier key⟩ :: rest, hrest =>
      have hawaits := List.forall_mem_cons.mpr ⟨awaits_keyed depth tooDeep earlier key, hrest⟩
      cases lexeme with
      | colon => exact .inr (.colon depth tooDeep earlier key rest)
      | _ => exact .inl (fails_stopAtValue hawaits _ _)
  | commaOrClose =>
    match stack, hfits with
    | ⟨depth, tooDeep, .items earlier⟩ :: rest, hrest =>
      cases lexeme with
      | comma => exact .inr (.nextItem depth tooDeep earlier rest)
      | closeArr => exact .inr (.closeArr (.inr rfl) depth tooDeep earlier rest)
      | _ => exact .inl (fails_stopInside hrest _ _)
    | ⟨depth, tooDeep, .members earlier⟩ :: rest, hrest =>
      cases lexeme with
      | comma => exact .inr (.nextMember depth tooDeep earlier rest)
      | closeObj => exact .inr (.closeObj (.inr rfl) depth tooDeep earlier rest)
      | _ => exact .inl (fails_stopInside hrest _ _)

theorem Want.Fits.awaits {want : Want} (h : want.Fits stack) (hwant : want.IsValue) :
    ∀ frame ∈ stack, frame.Awaits := by
  rcases hwant with rfl | rfl
  · exact h
  · match stack, h with
    | ⟨depth, tooDeep, .items earlier⟩ :: rest, hrest =>
      exact List.forall_mem_cons.mpr ⟨awaits_items depth tooDeep earlier, hrest⟩

theorem Want.Fits.rest {want : Want} {frame : Frame} (h : want.Fits (frame :: stack)) :
    ∀ outer ∈ stack, outer.Awaits := by
  obtain ⟨depth, tooDeep, parts⟩ := frame
  cases want with
  | value => exact (List.forall_mem_cons.mp h).2
  | _ => cases parts <;> first | exact h | exact h.elim

/-- Whatever is opened stands on the stack, too deep or not. -/
theorem exists_push (parts : Parts) (here : List Char) (stack : List Frame) :
    ∃ depth tooDeep, push parts here stack = ⟨depth, tooDeep, parts⟩ :: stack := by
  cases stack with
  | nil => exact ⟨_, _, rfl⟩
  | cons outer rest => exact ⟨_, _, rfl⟩

variable {want : Want} {lexeme : Lexeme} {here : List Char} {next : State}

/-- What may come next still fits. -/
theorem Takes.fits (h : Takes here want stack lexeme next) (hfits : want.Fits stack) :
    next.Fits := by
  cases h with
  | text isValue | halfPair isValue | scalar isValue => exact fits_deliver (hfits.awaits isValue) _
  | openArr isValue =>
    obtain ⟨depth, tooDeep, hpush⟩ := exists_push (.items []) here stack
    rw [hpush]
    exact hfits.awaits isValue
  | openObj isValue =>
    obtain ⟨depth, tooDeep, hpush⟩ := exists_push (.members []) here stack
    rw [hpush]
    exact hfits.awaits isValue
  | closeArr | closeObj => exact fits_deliver hfits.rest _
  | key | nextMember => exact hfits.rest
  | colon => exact List.forall_mem_cons.mpr ⟨awaits_keyed _ _ _ _, hfits.rest⟩
  | nextItem => exact List.forall_mem_cons.mpr ⟨awaits_items _ _ _, hfits.rest⟩

/-- **A clean state comes from a clean one.** -/
theorem Takes.isClean (h : Takes here want stack lexeme next) (hfits : want.Fits stack)
    (hnext : next.IsClean) : ∀ frame ∈ stack, frame.IsClean := by
  cases h with
  | text isValue | halfPair isValue | scalar isValue =>
    exact (isClean_of_deliver (hfits.awaits isValue) hnext).2
  | openArr isValue =>
    obtain ⟨depth, tooDeep, hpush⟩ := exists_push (.items []) here stack
    rw [hpush] at hnext
    exact (List.forall_mem_cons.mp hnext).2
  | openObj isValue =>
    obtain ⟨depth, tooDeep, hpush⟩ := exists_push (.members []) here stack
    rw [hpush] at hnext
    exact (List.forall_mem_cons.mp hnext).2
  | closeArr =>
    obtain ⟨hnode, hrest⟩ := isClean_of_deliver hfits.rest hnext
    exact List.forall_mem_cons.mpr ⟨(isClean_of_close_items hnode).1, hrest⟩
  | closeObj =>
    obtain ⟨hnode, hrest⟩ := isClean_of_deliver hfits.rest hnext
    exact List.forall_mem_cons.mpr ⟨(isClean_of_close_members hnode).1, hrest⟩
  | key =>
    obtain ⟨⟨hdeep, -, hearlier⟩, hrest⟩ := List.forall_mem_cons.mp hnext
    exact List.forall_mem_cons.mpr ⟨⟨hdeep, hearlier⟩, hrest⟩
  | colon | nextItem | nextMember => exact hnext

/-! ### Runs -/

/-- A clean state leads to a value, and one that has failed to none. -/
theorem State.Fails.not_isClean {state : State} (h : state.Fails) : ¬ state.IsClean := by
  cases state with
  | stopped document => exact h
  | _ => exact h.elim

theorem State.Fails.fits {state : State} (h : state.Fails) : state.Fits := by
  cases state with
  | stopped document => trivial
  | _ => exact h.elim

/-- A text that ends inside its value is none. -/
theorem not_isValue_finish (hfits : want.Fits stack) :
    ¬ (finish (.reading want stack)).IsValue := by
  cases want with
  | value => exact fails_stopAtValue hfits _ _
  | colon =>
    match stack, hfits with
    | ⟨_, _, .keyed _ _⟩ :: rest, hrest =>
      exact fails_stopAtValue (List.forall_mem_cons.mpr ⟨awaits_keyed _ _ _ _, hrest⟩) _ _
  | _ =>
    cases stack with
    | nil => exact hfits.elim
    | cons frame rest => exact fails_stopInside hfits.rest _ frame

/-- **A run that ends well was clean all the way.** -/
theorem isClean_of_run (taken : List Token) {state : State} (hfits : state.Fits)
    (h : (finish (taken.foldl step state)).IsValue) : state.IsClean := by
  induction taken generalizing state with
  | nil =>
    cases state with
    | reading want stack => exact absurd h (not_isValue_finish hfits)
    | complete root =>
      obtain ⟨value, hvalue⟩ := h
      exact ⟨value, congrArg Document.root hvalue⟩
    | stopped document => exact h
  | cons token rest ih =>
    cases state with
    | reading want stack =>
      rcases fails_or_takes hfits token.lexeme token.here with hfails | htakes
      · exact absurd (ih hfails.fits h) hfails.not_isClean
      · exact htakes.isClean hfits (ih (htakes.fits hfits) h)
    | complete root =>
      obtain ⟨value, hvalue⟩ : (step (.complete root) token).IsClean := ih trivial h
      exact absurd (congrArg Document.trailing hvalue) (Option.some_ne_none _)
    | stopped document =>
      -- nothing is read any more
      exact (ih trivial h : (State.stopped document).IsClean)

/-- Behind a complete value stand blanks. -/
theorem blanks_of_run {root : Node} {cs : List Char} (h : (run (.complete root) cs).IsValue) :
    Blanks cs [] := by
  have hgap := blanks_dropWhile cs
  have hhead := List.head?_dropWhile_not Token.isBlank cs
  generalize cs.dropWhile Token.isBlank = start at hgap hhead
  cases start with
  | nil => exact hgap
  | cons c after =>
    obtain ⟨lexeme, others, htokens⟩ := exists_tokens (by simpa using hhead)
    rw [run_blanks _ hgap, run, htokens] at h
    obtain ⟨value, hvalue⟩ : (step (.complete root) ⟨lexeme, c :: after⟩).IsClean :=
      isClean_of_run others trivial h
    exact absurd (congrArg Document.trailing hvalue) (Option.some_ne_none _)

theorem Takes.not_broken {fault skipped : Fault} :
    ¬ Takes here want stack (.broken fault skipped) next := nofun

/-- Inside a value, a run that ends well takes one token more. -/
theorem exists_token_of_run (hfits : want.Fits stack) {cs : List Char}
    (h : (run (.reading want stack) cs).IsValue) :
    ∃ c after lexeme rest next, Blanks cs (c :: after)
      ∧ Token.scan c after = .read lexeme rest ∧ rest.length < cs.length
      ∧ Takes (c :: after) want stack lexeme next ∧ next.IsClean
      ∧ run (.reading want stack) cs = run next rest := by
  have hgap := blanks_dropWhile cs
  have hlength := (List.dropWhile_suffix (l := cs) Token.isBlank).length_le
  have hhead := List.head?_dropWhile_not Token.isBlank cs
  rw [run_blanks _ hgap] at h ⊢
  generalize cs.dropWhile Token.isBlank = start at h hgap hlength hhead ⊢
  cases start with
  | nil =>
    rw [run_nil] at h
    exact absurd h (not_isValue_finish hfits)
  | cons c after =>
    have hwithin := Token.within_scan c after
    cases hscan : Token.scan c after with
    | read lexeme rest =>
      rw [hscan] at hwithin
      rw [run_token _ hscan] at h ⊢
      rcases fails_or_takes hfits lexeme (c :: after) with hfails | htakes
      · exact absurd (isClean_of_run (tokens rest) hfails.fits h) hfails.not_isClean
      · exact ⟨c, after, lexeme, rest, _, hgap, hscan, Nat.lt_of_le_of_lt hwithin hlength, htakes,
          isClean_of_run (tokens rest) (htakes.fits hfits) h, rfl⟩
    | broken fault skipped =>
      rw [run, tokens_of_broken (by simpa using hhead) hscan] at h
      rcases fails_or_takes hfits (.broken fault skipped) (c :: after) with hfails | htakes
      · exact absurd (isClean_of_run [] hfails.fits h) hfails.not_isClean
      · exact absurd htakes Takes.not_broken

end Assembly

end EntityQuery
