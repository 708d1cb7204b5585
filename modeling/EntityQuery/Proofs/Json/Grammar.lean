import EntityQuery.Json.Document
import EntityQuery.Proofs.Entries
import EntityQuery.Reading.Record

/-!
# Proofs/Json/Grammar — texts of the JSON grammar are assembled into the values they spell

    value   := { blank } ( text | scalar | [ { blank } ] | [ items ] | { { blank } } | { members } )
    items   := value { blank } [ , items ]
    members := { blank } text { blank } : value { blank } [ , members ]

A nonterminal is a relation `N taking cs tree rest`: the characters `cs` begin with a phrase that
spells `tree` and go on with `rest`.  Texts in quotes are what the tokens say they are, and scalars
what they are taken for: as they are read (`Grammar.asRead`), or otherwise.  Keys may be repeated,
and stay so.

`Document.ofTokens_eq_ofJson` says that a text of the grammar is assembled into its value without a
fault, if its containers nest no deeper than `maxDepth`.  The tokens are taken one at a time
(`runAs_token`), and a value delivers one node to the stack whatever the stack holds
(`runAs_value`).
-/

namespace EntityQuery

namespace Json

/-! ## The grammar -/

namespace Grammar

/-- `{ blank }` -/
def Blanks (cs rest : List Char) : Prop :=
  ∃ gap, (∀ c ∈ gap, Token.isBlank c = true) ∧ cs = gap ++ rest

/-- One token. -/
def Lexed (cs : List Char) (lexeme : Lexeme) (rest : List Char) : Prop :=
  ∃ c after, cs = c :: after ∧ Token.scan c after = .read lexeme rest

/-- A text starts with one token at most. -/
theorem Lexed.unique {cs rest last : List Char} {lexeme other : Lexeme}
    (h : Lexed cs lexeme rest) (hother : Lexed cs other last) : lexeme = other ∧ rest = last := by
  obtain ⟨c, after, rfl, hscan⟩ := h
  obtain ⟨_, _, heq, hother⟩ := hother
  obtain ⟨rfl, rfl⟩ := List.cons.inj heq
  rw [hscan] at hother
  cases hother
  exact ⟨rfl, rfl⟩

/-- `key := { blank } text { blank } :` -/
def Key (cs : List Char) (key : String) (rest : List Char) : Prop :=
  ∃ start after, Blanks cs start ∧ Lexed start (.text (.ok key)) after ∧ Blanks after (':' :: rest)

/-- What the scalar that starts a text is taken for: a number may be another one. -/
structure Taking where
  /-- The scalar that is taken for the one that was read. -/
  node : List Char → Node → Node
  null : ∀ here, node here .null = .null
  bool : ∀ here value, node here (.bool value) = .bool value

/-- Scalars are taken as they are read. -/
def asRead : Taking := ⟨fun _ node => node, fun _ => rfl, fun _ _ => rfl⟩

mutual

/-- A value with blanks before it. -/
inductive ValueAs (taking : Taking) : List Char → Json → List Char → Prop
  | blank {c cs value rest} (isBlank : Token.isBlank c = true)
      (inner : ValueAs taking cs value rest) : ValueAs taking (c :: cs) value rest
  | text {cs value rest} (lexed : Lexed cs (.text (.ok value)) rest) :
      ValueAs taking cs (.str value) rest
  | scalar {cs node value rest} (lexed : Lexed cs (.scalar node) rest)
      (taken : taking.node cs node = Node.ofJson value) : ValueAs taking cs value rest
  | emptyArr {cs rest} (gap : Blanks cs (']' :: rest)) : ValueAs taking ('[' :: cs) (.arr []) rest
  | arr {cs items rest} (inner : ItemsAs taking cs items (']' :: rest)) :
      ValueAs taking ('[' :: cs) (.arr items) rest
  | emptyObj {cs rest} (gap : Blanks cs ('\x7d' :: rest)) :
      ValueAs taking ('\x7b' :: cs) (.obj []) rest
  | obj {cs members rest} (inner : MembersAs taking cs members ('\x7d' :: rest)) :
      ValueAs taking ('\x7b' :: cs) (.obj members) rest

/-- One item or more, with commas between. -/
inductive ItemsAs (taking : Taking) : List Char → List Json → List Char → Prop
  | one {cs item after rest} (first : ValueAs taking cs item after) (gap : Blanks after rest) :
      ItemsAs taking cs [item] rest
  | more {cs item after mid items rest} (first : ValueAs taking cs item after)
      (gap : Blanks after (',' :: mid)) (next : ItemsAs taking mid items rest) :
      ItemsAs taking cs (item :: items) rest

/-- One member or more, with commas between. -/
inductive MembersAs (taking : Taking) : List Char → List (String × Json) → List Char → Prop
  | one {cs key mid value after rest} (name : Key cs key mid)
      (first : ValueAs taking mid value after) (gap : Blanks after rest) :
      MembersAs taking cs [(key, value)] rest
  | more {cs key mid value after next members rest} (name : Key cs key mid)
      (first : ValueAs taking mid value after) (gap : Blanks after (',' :: next))
      (others : MembersAs taking next members rest) :
      MembersAs taking cs ((key, value) :: members) rest

end

/-- A value that is read as it is. -/
abbrev Value : List Char → Json → List Char → Prop := ValueAs asRead

/-- Items that are read as they are. -/
abbrev Items : List Char → List Json → List Char → Prop := ItemsAs asRead

/-- Members that are read as they are. -/
abbrev Members : List Char → List (String × Json) → List Char → Prop := MembersAs asRead

/-- A text spells a value, scalars taken for what they may be: a value, and blanks. -/
def SpellsAs (taking : Taking) (text : String) (value : Json) : Prop :=
  ∃ rest, ValueAs taking text.toList value rest ∧ Blanks rest []

/-- A text spells the value that it is read as. -/
def Spells (text : String) (value : Json) : Prop :=
  SpellsAs asRead text value

end Grammar

/-! ## Nesting -/

mutual

/-- How deep containers nest. -/
def nesting : Json → Nat
  | .arr items => nestingItems items + 1
  | .obj members => nestingMembers members + 1
  | _ => 0

/-- How deep containers nest in items. -/
def nestingItems : List Json → Nat
  | [] => 0
  | item :: rest => max (nesting item) (nestingItems rest)

/-- How deep containers nest in the values of members. -/
def nestingMembers : List (String × Json) → Nat
  | [] => 0
  | (_, value) :: rest => max (nesting value) (nestingMembers rest)

end

theorem nestingMembers_le {members : List (String × Json)} {bound : Nat}
    (h : ∀ member ∈ members, member.2.nesting ≤ bound) : nestingMembers members ≤ bound := by
  induction members with
  | nil => exact Nat.zero_le bound
  | cons member rest ih =>
    rw [nestingMembers]
    exact Nat.max_le.mpr ⟨h member List.mem_cons_self,
      ih fun other hother => h other (List.mem_cons_of_mem _ hother)⟩

theorem nesting_le_of_mem {members : List (String × Json)} :
    ∀ member ∈ members, member.2.nesting ≤ nestingMembers members := by
  induction members with
  | nil => exact nofun
  | cons member rest ih =>
    rw [nestingMembers]
    exact List.forall_mem_cons.mpr ⟨Nat.le_max_left _ _,
      fun other hother => Nat.le_trans (ih other hother) (Nat.le_max_right _ _)⟩

end Json

/-! ## Taking the tokens of a text -/

/-- Blanks are no tokens. -/
theorem tokens_of_blank {c : Char} (h : Token.isBlank c = true) (cs : List Char) :
    tokens (c :: cs) = tokens cs := by
  rw [tokens, tokens, List.dropWhile_cons_of_pos h]

/-- No token starts with a blank. -/
theorem Token.isBlank_of_scan {c : Char} {after rest : List Char} {lexeme : Lexeme}
    (h : scan c after = .read lexeme rest) : isBlank c = false := by
  rw [← Bool.not_eq_true]
  intro hblank
  simp only [isBlank, Bool.or_eq_true, beq_iff_eq] at hblank
  rcases hblank with ((rfl | rfl) | rfl) | rfl <;> exact nomatch h

/-- The tokens of a text are its first one and those of what follows it. -/
theorem tokens_of_scan {c : Char} {after rest : List Char} {lexeme : Lexeme}
    (h : Token.scan c after = .read lexeme rest) :
    tokens (c :: after) = ⟨lexeme, c :: after⟩ :: tokens rest := by
  have hblank : ¬ Token.isBlank c = true := by
    rw [Token.isBlank_of_scan h]
    exact Bool.false_ne_true
  rw [tokens]
  split
  · rename_i hnil
    rw [List.dropWhile_cons_of_neg hblank] at hnil
    exact absurd hnil (List.cons_ne_nil c after)
  · rename_i d others hcons
    rw [List.dropWhile_cons_of_neg hblank] at hcons
    obtain ⟨rfl, rfl⟩ := List.cons.inj hcons
    split <;> rename_i hscan <;> rw [h] at hscan
    · cases hscan
      rfl
    · cases hscan

/-- The token, a scalar taken for what it may be. -/
def Token.take (taking : Json.Grammar.Taking) (token : Token) : Token :=
  match token.lexeme with
  | .scalar node => { token with lexeme := .scalar (taking.node token.here node) }
  | _ => token

theorem Token.take_scalar {taking : Json.Grammar.Taking} {here : List Char} {node other : Node}
    (h : taking.node here node = other) :
    Token.take taking ⟨.scalar node, here⟩ = ⟨.scalar other, here⟩ := by
  rw [← h]
  rfl

@[simp] theorem Token.take_asRead (token : Token) : token.take Json.Grammar.asRead = token := by
  obtain ⟨lexeme, here⟩ := token
  cases lexeme <;> rfl

namespace Assembly

open Json.Grammar (Blanks Lexed Key Taking ValueAs ItemsAs asRead)

/-- The document that the tokens of a text lead to from a state, scalars taken for what they may
be. -/
def runAs (taking : Taking) (state : State) (cs : List Char) : Document :=
  finish (((tokens cs).map (Token.take taking)).foldl step state)

section

variable (taking : Taking) (state : State)

theorem runAs_nil : runAs taking state [] = finish state := by
  rw [runAs, tokens, List.dropWhile_nil]
  rfl

theorem runAs_blank {c : Char} (h : Token.isBlank c = true) (cs : List Char) :
    runAs taking state (c :: cs) = runAs taking state cs := by
  rw [runAs, runAs, tokens_of_blank h]

/-- Blanks change nothing of a run. -/
theorem runAs_blanks {cs rest : List Char} (h : Blanks cs rest) :
    runAs taking state cs = runAs taking state rest := by
  obtain ⟨gap, hgap, rfl⟩ := h
  induction gap with
  | nil => rfl
  | cons c gap ih =>
    rw [List.cons_append, runAs_blank taking state (hgap c List.mem_cons_self)]
    exact ih fun d hd => hgap d (List.mem_cons_of_mem c hd)

/-- A run takes one token at a time. -/
theorem runAs_token {c : Char} {after rest : List Char} {lexeme : Lexeme}
    (h : Token.scan c after = .read lexeme rest) :
    runAs taking state (c :: after)
      = runAs taking (step state (Token.take taking ⟨lexeme, c :: after⟩)) rest := by
  rw [runAs, runAs, tokens_of_scan h, List.map_cons, List.foldl_cons]

/-- A token that is no scalar is taken as it is. -/
theorem runAs_same {c : Char} {after rest : List Char} {lexeme : Lexeme}
    (h : Token.scan c after = .read lexeme rest)
    (hsame : Token.take taking ⟨lexeme, c :: after⟩ = ⟨lexeme, c :: after⟩) :
    runAs taking state (c :: after) = runAs taking (step state ⟨lexeme, c :: after⟩) rest := by
  rw [runAs_token taking state h, hsame]

/-- A bracket, a brace, a comma or a colon after blanks. -/
theorem runAs_mark {cs rest : List Char} {mark : Char} {lexeme : Lexeme}
    (h : Blanks cs (mark :: rest)) (hmark : Token.scan mark rest = .read lexeme rest)
    (hsame : Token.take taking ⟨lexeme, mark :: rest⟩ = ⟨lexeme, mark :: rest⟩) :
    runAs taking state cs = runAs taking (step state ⟨lexeme, mark :: rest⟩) rest := by
  rw [runAs_blanks taking state h, runAs_same taking state hmark hsame]

/-! ### Scalars as they are read -/

/-- The document that the tokens of a text lead to from a state. -/
def run (cs : List Char) : Document :=
  finish ((tokens cs).foldl step state)

/-- A run is one in which numbers are taken as they are read. -/
theorem run_eq_runAs (cs : List Char) : run state cs = runAs asRead state cs := by
  rw [run, runAs, List.map_congr_left (g := id) fun token _ => token.take_asRead, List.map_id]

theorem run_nil : run state [] = finish state := by
  rw [run_eq_runAs, runAs_nil]

theorem run_blanks {cs rest : List Char} (h : Blanks cs rest) : run state cs = run state rest := by
  rw [run_eq_runAs, run_eq_runAs, runAs_blanks asRead state h]

theorem run_token {c : Char} {after rest : List Char} {lexeme : Lexeme}
    (h : Token.scan c after = .read lexeme rest) :
    run state (c :: after) = run (step state ⟨lexeme, c :: after⟩) rest := by
  rw [run_eq_runAs, run_eq_runAs, runAs_token asRead state h, Token.take_asRead]

end

/-! ## Taking a value -/

/-- How many containers are open. -/
def level : List Frame → Nat
  | [] => 0
  | frame :: _ => frame.depth + 1

/-- A container is opened without complaint within the limit. -/
theorem push_eq (parts : Parts) (here : List Char) {stack : List Frame}
    (h : level stack < maxDepth) :
    push parts here stack = ⟨level stack, none, parts⟩ :: stack := by
  cases stack with
  | nil => rfl
  | cons outer rest =>
    change outer.depth + 1 < maxDepth at h
    simp only [push, level, if_pos h]

/-- What may come next where a value may. -/
def Want.IsValue (want : Want) : Prop :=
  want = .value ∨ want = .valueOrClose

/-- What may come next where a key may. -/
def Want.IsKey (want : Want) : Prop :=
  want = .key ∨ want = .keyOrClose

/-- Where a value may stand, any token but a bracket that closes is taken for one. -/
theorem step_value {want : Want} (hwant : want.IsValue) (lexeme : Lexeme) (h : lexeme ≠ .closeArr)
    (here : List Char) (stack : List Frame) :
    step (.reading want stack) ⟨lexeme, here⟩ = takeValue ⟨lexeme, here⟩ stack := by
  rcases hwant with rfl | rfl
  · rfl
  · cases lexeme <;> first | rfl | exact absurd rfl h

/-- Where a key may stand, a text is taken for one. -/
theorem step_key {want : Want} (hwant : want.IsKey) (key : Except Fault String) (here : List Char)
    (depth : Nat) (earlier : Members) (stack : List Frame) :
    step (.reading want (⟨depth, none, .members earlier⟩ :: stack)) ⟨.text key, here⟩
      = .reading .colon (⟨depth, none, .keyed earlier key⟩ :: stack) := by
  rcases hwant with rfl | rfl <;> rfl

theorem deliver_item (node : Node) (depth : Nat) (earlier : List Node) (stack : List Frame) :
    deliver node (⟨depth, none, .items earlier⟩ :: stack)
      = .reading .commaOrClose (⟨depth, none, .items (node :: earlier)⟩ :: stack) := rfl

theorem deliver_member (node : Node) (depth : Nat) (earlier : Members) (key : Except Fault String)
    (stack : List Frame) :
    deliver node (⟨depth, none, .keyed earlier key⟩ :: stack)
      = .reading .commaOrClose (⟨depth, none, .members ((key, node) :: earlier)⟩ :: stack) := rfl

theorem takeValue_openArr (here : List Char) {stack : List Frame} (h : level stack < maxDepth) :
    takeValue ⟨.openArr, here⟩ stack
      = .reading .valueOrClose (⟨level stack, none, .items []⟩ :: stack) := by
  rw [← push_eq _ here h]
  rfl

theorem takeValue_openObj (here : List Char) {stack : List Frame} (h : level stack < maxDepth) :
    takeValue ⟨.openObj, here⟩ stack
      = .reading .keyOrClose (⟨level stack, none, .members []⟩ :: stack) := by
  rw [← push_eq _ here h]
  rfl

variable {taking : Taking}

/-- A key opens a member whose value is still to come. -/
theorem runAs_key {cs rest : List Char} {key : String} (h : Key cs key rest) {want : Want}
    (hwant : want.IsKey) (depth : Nat) (earlier : Members) (stack : List Frame) :
    runAs taking (.reading want (⟨depth, none, .members earlier⟩ :: stack)) cs
      = runAs taking (.reading .value (⟨depth, none, .keyed earlier (.ok key)⟩ :: stack)) rest := by
  obtain ⟨start, after, hstart, ⟨c, text, rfl, hscan⟩, hcolon⟩ := h
  rw [runAs_blanks _ _ hstart, runAs_same _ _ hscan rfl, step_key hwant,
    runAs_mark _ _ hcolon rfl rfl]
  rfl

mutual

/-- **A value delivers one node.** -/
theorem runAs_value : ∀ {cs rest : List Char} {value : Json}, ValueAs taking cs value rest →
    ∀ (want : Want) (stack : List Frame), want.IsValue → level stack + value.nesting ≤ maxDepth →
      runAs taking (.reading want stack) cs
        = runAs taking (deliver (Node.ofJson value) stack) rest
  | _, _, _, .blank isBlank inner, _, _, hwant, hroom => by
      rw [runAs_blank _ _ isBlank, runAs_value inner _ _ hwant hroom]
  | _, _, .str value, .text ⟨c, after, rfl, hscan⟩, _, _, hwant, _ => by
      rw [runAs_same _ _ hscan rfl, step_value hwant (.text (.ok value)) nofun]
      rfl
  | _, _, value, .scalar ⟨c, after, rfl, hscan⟩ taken, _, _, hwant, _ => by
      rw [runAs_token _ _ hscan, Token.take_scalar taken,
        step_value hwant (.scalar (Node.ofJson value)) nofun]
      rfl
  | _, _, _, .emptyArr gap, _, _, hwant, hroom => by
      rw [runAs_same (c := '[') _ _ rfl rfl, step_value hwant .openArr nofun,
        takeValue_openArr _ (Nat.lt_of_lt_of_le (Nat.lt_succ_self _) hroom),
        runAs_mark _ _ gap rfl rfl]
      rfl
  | _, _, _, .arr inner, _, stack, hwant, hroom => by
      rw [Json.nesting] at hroom
      rw [runAs_same (c := '[') _ _ rfl rfl, step_value hwant .openArr nofun,
        takeValue_openArr _ (by omega), runAs_items inner _ _ _ _ _ rfl (.inr rfl) (by omega)]
      rfl
  | _, _, _, .emptyObj gap, _, _, hwant, hroom => by
      rw [runAs_same (c := '\x7b') _ _ rfl rfl, step_value hwant .openObj nofun,
        takeValue_openObj _ (Nat.lt_of_lt_of_le (Nat.lt_succ_self _) hroom),
        runAs_mark _ _ gap rfl rfl]
      rfl
  | _, _, _, .obj inner, _, stack, hwant, hroom => by
      rw [Json.nesting] at hroom
      rw [runAs_same (c := '\x7b') _ _ rfl rfl, step_value hwant .openObj nofun,
        takeValue_openObj _ (by omega), runAs_members inner _ _ _ _ _ rfl (.inr rfl) (by omega)]
      rfl
termination_by structural _ _ _ h => h

/-- Items and the bracket after them deliver an array. -/
theorem runAs_items : ∀ {cs after : List Char} {items : List Json},
    ItemsAs taking cs items after →
    ∀ (rest : List Char) (want : Want) (depth : Nat) (earlier : List Node) (stack : List Frame),
      after = ']' :: rest → want.IsValue → depth + 1 + Json.nestingItems items ≤ maxDepth →
      runAs taking (.reading want (⟨depth, none, .items earlier⟩ :: stack)) cs
        = runAs taking (deliver (.arr (earlier.reverse ++ Node.ofJsonItems items) none) stack) rest
  | _, _, _, .one first gap, _, _, depth, _, _, hafter, hwant, hroom => by
      rw [Json.nestingItems, Json.nestingItems] at hroom
      rw [runAs_value first _ _ hwant (by simp only [level]; omega), deliver_item,
        runAs_mark _ _ (hafter ▸ gap) rfl rfl]
      simp [step, takeCommaOrClose, Frame.close, Parts.node, Node.ofJsonItems]
  | _, _, _, .more first gap next, _, _, depth, _, _, hafter, hwant, hroom => by
      rw [Json.nestingItems] at hroom
      rw [runAs_value first _ _ hwant (by simp only [level]; omega), deliver_item,
        runAs_mark _ _ gap rfl rfl]
      refine (runAs_items next _ _ depth _ _ hafter (.inl rfl) (by omega)).trans ?_
      simp [Node.ofJsonItems]
termination_by structural _ _ _ h => h

/-- Members and the brace after them deliver an object. -/
theorem runAs_members : ∀ {cs after : List Char} {members : List (String × Json)},
    Json.Grammar.MembersAs taking cs members after →
    ∀ (rest : List Char) (want : Want) (depth : Nat) (earlier : Members) (stack : List Frame),
      after = '\x7d' :: rest → want.IsKey → depth + 1 + Json.nestingMembers members ≤ maxDepth →
      runAs taking (.reading want (⟨depth, none, .members earlier⟩ :: stack)) cs
        = runAs taking (deliver (.obj (earlier.reverse ++ Node.ofJsonMembers members) none) stack)
          rest
  | _, _, _, .one name first gap, _, _, depth, _, _, hafter, hwant, hroom => by
      rw [Json.nestingMembers, Json.nestingMembers] at hroom
      rw [runAs_key name hwant, runAs_value first _ _ (.inl rfl) (by simp only [level]; omega),
        deliver_member, runAs_mark _ _ (hafter ▸ gap) rfl rfl]
      simp [step, takeCommaOrClose, Frame.close, Parts.node, Node.ofJsonMembers]
  | _, _, _, .more name first gap others, _, _, depth, _, _, hafter, hwant, hroom => by
      rw [Json.nestingMembers] at hroom
      rw [runAs_key name hwant, runAs_value first _ _ (.inl rfl) (by simp only [level]; omega),
        deliver_member, runAs_mark _ _ gap rfl rfl]
      refine (runAs_members others _ _ depth _ _ hafter (.inl rfl) (by omega)).trans ?_
      simp [Node.ofJsonMembers]
termination_by structural _ _ _ h => h

end

/-- Behind a complete value, blanks add nothing. -/
theorem runAs_complete (root : Node) {cs : List Char} (h : Blanks cs []) :
    runAs taking (.complete root) cs = ⟨root, none⟩ := by
  rw [runAs_blanks _ _ h, runAs_nil]
  rfl

/-- After the value of a document, blanks may follow. -/
theorem run_complete (root : Node) {cs : List Char} (h : Blanks cs []) :
    run (.complete root) cs = ⟨root, none⟩ := by
  rw [run_eq_runAs, runAs_complete root h]

end Assembly

/-! ## Reading a text in full -/

/-- **A text of the grammar is assembled into the value it spells, without a fault**, whatever its
scalars are taken for. -/
theorem Document.ofTokens_eq_ofJson {taking : Json.Grammar.Taking} {text : String} {value : Json}
    (h : Json.Grammar.SpellsAs taking text value) (hdepth : value.nesting ≤ maxDepth) :
    ofTokens ((tokens text.toList).map (Token.take taking)) = ⟨Node.ofJson value, none⟩ := by
  obtain ⟨rest, hvalue, hrest⟩ := h
  have hroom : Assembly.level [] + value.nesting ≤ maxDepth := by
    simpa only [Assembly.level, Nat.zero_add] using hdepth
  change Assembly.runAs taking (.reading .value []) text.toList = _
  rw [Assembly.runAs_value hvalue .value [] (.inl rfl) hroom]
  exact Assembly.runAs_complete _ hrest

/-- **A text that spells a value has the tree of the value**, and nothing is wrong with it. -/
theorem Document.ofText_eq_ofJson {text : String} {value : Json}
    (h : Json.Grammar.Spells text value) (hdepth : value.nesting ≤ maxDepth) :
    Document.ofText text = ⟨Node.ofJson value, none⟩ := by
  change Assembly.run (.reading .value []) text.toList = _
  rw [Assembly.run_eq_runAs]
  exact Document.ofTokens_eq_ofJson h hdepth

namespace Node

mutual

/-- A value without faults is read back, repeated keys included. -/
@[simp] theorem content_ofJson : ∀ value : Json, (ofJson value).content = .ok value
  | .null | .bool _ | .num _ | .str _ => rfl
  | .arr items => by
      rw [ofJson, content, contentItems_ofJsonItems]
      rfl
  | .obj members => by
      rw [ofJson, content, contentMembers_ofJsonMembers]
      rfl

theorem contentItems_ofJsonItems :
    ∀ items : List Json, contentItems (ofJsonItems items) = .ok items
  | [] => rfl
  | item :: rest => by
      rw [ofJsonItems, contentItems, content_ofJson item, contentItems_ofJsonItems rest]
      rfl

theorem contentMembers_ofJsonMembers :
    ∀ members : List (String × Json), contentMembers (ofJsonMembers members) = .ok members
  | [] => rfl
  | (key, member) :: rest => by
      rw [ofJsonMembers, contentMembers, content_ofJson member, contentMembers_ofJsonMembers rest]
      rfl

end

/-- The tree of a value can be read. -/
theorem ofJson_ne_unreadable (value : Json) {fault : Fault} {skipped : Option Fault} :
    ofJson value ≠ .unreadable fault skipped := by
  cases value <;> exact nofun

/-- A value can be told from its tree. -/
theorem ofJson_injective {value other : Json} (h : ofJson value = ofJson other) :
    value = other := by
  have hcontent := congrArg content h
  rw [content_ofJson, content_ofJson] at hcontent
  exact Except.ok.inj hcontent

/-- The value of a tree without faults has its repeated keys merged. -/
@[simp] theorem value_ofJson (value : Json) : (ofJson value).value = .ok value.settle := by
  rw [Node.value, content_ofJson]
  rfl

end Node

/-- A text that spells a value is read as it. -/
theorem Json.parse_of_spells {text : String} {value : Json} (h : Grammar.Spells text value)
    (hdepth : value.nesting ≤ maxDepth) : parse text = .ok value.settle := by
  rw [parse, Document.ofText_eq_ofJson h hdepth, Document.value, Node.value_ofJson]
  rfl

/-! ## Merging repeated keys -/

theorem Json.settleItems_eq_map (items : List Json) : settleItems items = items.map settle := by
  induction items with
  | nil => rfl
  | cons item rest ih => rw [settleItems, ih, List.map_cons]

theorem Json.settleMembers_eq_mapValues (members : List (String × Json)) :
    settleMembers members = Entries.mapValues settle members := by
  induction members with
  | nil => rfl
  | cons member rest ih =>
    rw [settleMembers, ih, Entries.mapValues, Entries.mapValues, List.map_cons]

namespace Json

mutual

/-- Containers nest no deeper once keys are merged. -/
theorem nesting_settle_le : ∀ value : Json, value.settle.nesting ≤ value.nesting
  | .null | .bool _ | .num _ | .str _ => Nat.le_refl _
  | .arr items => Nat.add_le_add_right (nestingItems_settleItems_le items) 1
  | .obj members => by
      refine Nat.add_le_add_right (nestingMembers_le fun member hmember => ?_) 1
      exact Nat.le_trans (nesting_le_of_mem member (Entries.mem_of_mem_ofList hmember))
        (nestingMembers_settleMembers_le members)

theorem nestingItems_settleItems_le : ∀ items : List Json,
    nestingItems (settleItems items) ≤ nestingItems items
  | [] => Nat.le_refl _
  | item :: rest => by
      have hitem := nesting_settle_le item
      have hrest := nestingItems_settleItems_le rest
      rw [settleItems, nestingItems, nestingItems]
      omega

theorem nestingMembers_settleMembers_le : ∀ members : List (String × Json),
    nestingMembers (settleMembers members) ≤ nestingMembers members
  | [] => Nat.le_refl _
  | (_, value) :: rest => by
      have hvalue := nesting_settle_le value
      have hrest := nestingMembers_settleMembers_le rest
      rw [settleMembers, nestingMembers, nestingMembers]
      omega

end

end Json

end EntityQuery
