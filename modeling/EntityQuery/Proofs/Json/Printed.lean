import EntityQuery.Json.Printer
import EntityQuery.Proofs.Json.Grammar

/-!
# Proofs/Json/Printed — a value that is written is read back

Whatever characters a text has, its escapes spell it between quotes (`Literal.scan_encode`), so the
lines that `Json.prettyLines` writes are a text of the grammar and spell the value that was written
(`value_prettyChars`).  This asks one thing of the value: that what is written for its numbers is
taken for them again (`Number.ReadsBackAs`).  Where scalars are taken as they are read, these are
the numbers that read back (`Json.NumbersReadBack`), which says nothing about a value without
numbers.
-/

namespace EntityQuery

/-! ## Texts in quotes -/

namespace Literal

variable (read rest : List Char)

/-- An escape of one letter is read as what it stands for. -/
theorem scanFrom_letterEscape {c escaped : Char} (h : letterEscape? c = some escaped) :
    scanFrom none read ('\\' :: c :: rest) = scanFrom none (escaped :: read) rest := by
  have hc : c ≠ 'u' := by
    rintro rfl
    exact nomatch h
  rw [scanFrom, h]
  · exact fun _ _ _ _ _ heq _ => hc heq
  · exact hc

/-- The escape of a control character spells its number. -/
theorem unit?_hexDigits : ∀ n < 32, unit? (Quoted.hexDigit (n / 4096)) (Quoted.hexDigit (n / 256))
    (Quoted.hexDigit (n / 16)) (Quoted.hexDigit n) = some n := by
  decide

/-- A control character is read back from its escape. -/
theorem scanFrom_unicodeEscape {c : Char} (h : c.toNat < 32) :
    scanFrom none read (Quoted.unicodeEscape c ++ rest) = scanFrom none (c :: read) rest := by
  have htrailing : isTrailing c.toNat = false := decide_eq_false (by omega)
  have hleading : isLeading c.toNat = false := decide_eq_false (by omega)
  simp only [Quoted.unicodeEscape, List.cons_append, List.nil_append]
  rw [scanFrom, unit?_hexDigits _ h]
  simp only [htrailing, hleading, Bool.false_eq_true, if_false, Char.ofNat_toNat]

theorem scanFrom_plain {c : Char} (hquote : c ≠ '"') (hslash : c ≠ '\\') (h : ¬ c.toNat < 32) :
    scanFrom none read (c :: rest) = scanFrom none (c :: read) rest := by
  rw [scanFrom, if_neg h]
  · exact hquote
  all_goals
    intros
    contradiction

/-- A character is read off its escape. -/
theorem scanFrom_escape (c : Char) :
    scanFrom none read (Quoted.escape c ++ rest) = scanFrom none (c :: read) rest := by
  unfold Quoted.escape
  split
  case h_8 c hquote hslash _ _ _ _ _ =>
    split
    · exact scanFrom_unicodeEscape read rest ‹_›
    · exact scanFrom_plain read rest hquote hslash ‹_›
  all_goals exact scanFrom_letterEscape read rest rfl

/-- Whatever is encoded is read back, up to the closing quote. -/
theorem scanFrom_encode (cs : List Char) : ∀ read : List Char,
    scanFrom none read (Quoted.encode cs ++ '"' :: rest)
      = .read (.ok (String.ofList (read.reverse ++ cs))) rest := by
  induction cs with
  | nil =>
    intro read
    rw [Quoted.encode, List.flatMap_nil, List.nil_append, scanFrom, List.append_nil, finish]
  | cons c cs ih =>
    intro read
    rw [Quoted.encode, List.flatMap_cons, List.append_assoc, scanFrom_escape]
    exact (ih (c :: read)).trans (by simp)

/-- **A text is read off its characters between quotes.** -/
theorem scan_encode (text : String) :
    scan (Quoted.encode text.toList ++ '"' :: rest) = .read (.ok text) rest := by
  rw [scan, scanFrom_encode, List.reverse_nil, List.nil_append, String.ofList_toList]

end Literal

namespace Json

open Json.Grammar (Blanks Lexed Key Taking ValueAs asRead)

/-! ## Scalars -/

namespace Grammar

/-- What may stand right after a value: the end, or a mark or line break. -/
def Ends (rest : List Char) : Prop :=
  ∀ c ∈ rest.head?, c ∈ [',', ']', '\x7d', '\n']

theorem Ends.nil : Ends [] :=
  nofun

/-- **A text in quotes is one token.** -/
theorem lexed_quoted (text : String) (rest : List Char) :
    Lexed (Quoted.chars text ++ rest) (.text (.ok text)) rest := by
  refine ⟨'"', Quoted.encode text.toList ++ '"' :: rest, by simp [Quoted.chars], ?_⟩
  change (Literal.scan _).map Lexeme.text = _
  rw [Literal.scan_encode]
  rfl

theorem Blanks.refl (cs : List Char) : Blanks cs cs :=
  ⟨[], nofun, rfl⟩

theorem ValueAs.of_blanks {taking : Taking} {cs start rest : List Char} {value : Json}
    (h : Blanks cs start) (hvalue : ValueAs taking start value rest) :
    ValueAs taking cs value rest := by
  obtain ⟨gap, hgap, rfl⟩ := h
  induction gap with
  | nil => exact hvalue
  | cons c gap ih =>
    exact .blank (hgap c List.mem_cons_self) (ih fun d hd => hgap d (List.mem_cons_of_mem c hd))

end Grammar

end Json

/-- The number is read back as it is written, whatever follows a value. -/
def Number.ReadsBack (number : Number) : Prop :=
  ∀ rest, Json.Grammar.Ends rest →
    Json.Grammar.Lexed (number.text.toList ++ rest) (.scalar (.num number)) rest

/-- What is written for the number is taken for it, whatever follows a value. -/
def Number.ReadsBackAs (taking : Json.Grammar.Taking) (number : Number) : Prop :=
  ∀ rest, Json.Grammar.Ends rest → ∃ node,
    Json.Grammar.Lexed (number.text.toList ++ rest) (.scalar node) rest
      ∧ taking.node (number.text.toList ++ rest) node = .num number

theorem Number.ReadsBack.asRead {number : Number} (h : number.ReadsBack) :
    number.ReadsBackAs Json.Grammar.asRead :=
  fun rest hrest => ⟨_, h rest hrest, rfl⟩

namespace Json

open Json.Grammar (Blanks Lexed Key Taking ValueAs ItemsAs Ends asRead)

section

variable (P : Number → Prop)

mutual

/-- Every number of the value has a property. -/
def EveryNumber : Json → Prop
  | .num number => P number
  | .arr items => EveryNumberItems items
  | .obj members => EveryNumberMembers members
  | _ => True

/-- Every number of some items has a property. -/
def EveryNumberItems : List Json → Prop
  | [] => True
  | item :: rest => EveryNumber item ∧ EveryNumberItems rest

/-- Every number in the values of members has a property. -/
def EveryNumberMembers : List (String × Json) → Prop
  | [] => True
  | (_, value) :: rest => EveryNumber value ∧ EveryNumberMembers rest

end

end

/-- Every number of the value is read back as it is written. -/
def NumbersReadBack (value : Json) : Prop :=
  value.EveryNumber Number.ReadsBack

theorem everyNumberItems_iff {P : Number → Prop} {items : List Json} :
    EveryNumberItems P items ↔ ∀ item ∈ items, item.EveryNumber P := by
  induction items with
  | nil => exact ⟨nofun, fun _ => trivial⟩
  | cons item rest ih => rw [EveryNumberItems, ih, List.forall_mem_cons]

theorem everyNumberMembers_iff {P : Number → Prop} {members : List (String × Json)} :
    EveryNumberMembers P members ↔ ∀ member ∈ members, member.2.EveryNumber P := by
  induction members with
  | nil => exact ⟨nofun, fun _ => trivial⟩
  | cons member rest ih => rw [EveryNumberMembers, ih, List.forall_mem_cons]

/-! ## Lines -/

/-- A line break and an indentation are blanks. -/
theorem blanks_newLine (depth : Nat) (rest : List Char) : Blanks (newLine depth ++ rest) rest := by
  refine ⟨newLine depth, fun c hc => ?_, rfl⟩
  rcases List.mem_cons.mp hc with rfl | hc
  · rfl
  · obtain rfl := List.eq_of_mem_replicate hc
    rfl

/-- Whatever comes after a line break, no value goes on over it. -/
theorem ends_newLine (depth : Nat) (rest : List Char) : Ends (newLine depth ++ rest) := by
  intro c hc
  obtain rfl := Option.some.inj hc
  decide

theorem key_quoted (depth : Nat) (name : String) (rest : List Char) :
    Key (newLine depth ++ (Quoted.chars name ++ ':' :: rest)) name rest :=
  ⟨_, _, blanks_newLine depth _, Grammar.lexed_quoted name _, .refl _⟩

section

variable {taking : Taking} {P : Number → Prop}

mutual

/-- A value that is written over several lines is a value of the grammar. -/
theorem value_prettyChars (hP : ∀ number, P number → number.ReadsBackAs taking) :
    ∀ value : Json, value.EveryNumber P → ∀ (depth : Nat) (rest : List Char), Ends rest →
      ValueAs taking (value.prettyChars depth ++ rest) value rest
  | .null, _, _, rest, _ => .scalar ⟨'n', _, rfl, rfl⟩ (taking.null _)
  | .bool true, _, _, rest, _ => .scalar ⟨'t', _, rfl, rfl⟩ (taking.bool _ _)
  | .bool false, _, _, rest, _ => .scalar ⟨'f', _, rfl, rfl⟩ (taking.bool _ _)
  | .num number, h, _, rest, hrest => by
      obtain ⟨node, hlexed, htaken⟩ := hP number h rest hrest
      exact .scalar hlexed htaken
  | .str text, _, _, rest, _ => .text (Grammar.lexed_quoted text rest)
  | .arr [], _, _, rest, _ => .emptyArr (.refl _)
  | .arr (item :: items), h, depth, rest, _ => by
      have hitems := items_prettyItems hP (item :: items) nofun h (depth + 1)
        (newLine depth ++ ']' :: rest) (']' :: rest) (ends_newLine depth _)
        (blanks_newLine depth _)
      simpa [prettyChars] using ValueAs.arr hitems
  | .obj [], _, _, rest, _ => .emptyObj (.refl _)
  | .obj ((name, value) :: members), h, depth, rest, _ => by
      have hmembers := members_prettyMembers hP ((name, value) :: members) nofun h (depth + 1)
        (newLine depth ++ '\x7d' :: rest) ('\x7d' :: rest) (ends_newLine depth _)
        (blanks_newLine depth _)
      simpa [prettyChars] using ValueAs.obj hmembers

/-- Items that are written are items of the grammar. -/
theorem items_prettyItems (hP : ∀ number, P number → number.ReadsBackAs taking) :
    ∀ items : List Json, items ≠ [] → EveryNumberItems P items →
      ∀ (depth : Nat) (after rest : List Char), Ends after → Blanks after rest →
        ItemsAs taking (prettyItems depth items ++ after) items rest
  | [], hsome, _, _, _, _, _, _ => absurd rfl hsome
  | [item], _, h, depth, after, rest, hafter, hgap => by
      have hitem := value_prettyChars hP item h.1 depth after hafter
      rw [prettyItems, List.append_assoc]
      exact .one (.of_blanks (blanks_newLine depth _) hitem) hgap
  | item :: next :: items, _, h, depth, after, rest, hafter, hgap => by
      have hitem := value_prettyChars hP item h.1 depth (',' :: (prettyItems depth (next :: items)
        ++ after)) (by simp [Ends])
      have hitems := items_prettyItems hP (next :: items) nofun h.2 depth after rest hafter hgap
      rw [prettyItems, List.append_assoc, List.append_assoc, List.cons_append]
      · exact .more (.of_blanks (blanks_newLine depth _) hitem) (.refl _) hitems
      · exact nofun

/-- Members that are written are members of the grammar. -/
theorem members_prettyMembers (hP : ∀ number, P number → number.ReadsBackAs taking) :
    ∀ members : List (String × Json), members ≠ [] → EveryNumberMembers P members →
      ∀ (depth : Nat) (after rest : List Char), Ends after → Blanks after rest →
        Grammar.MembersAs taking (prettyMembers depth members ++ after) members rest
  | [], hsome, _, _, _, _, _, _ => absurd rfl hsome
  | [(name, value)], _, h, depth, after, rest, hafter, hgap => by
      have hvalue := value_prettyChars hP value h.1 depth after hafter
      have hkey := key_quoted depth name (' ' :: (value.prettyChars depth ++ after))
      simpa [prettyMembers] using Grammar.MembersAs.one hkey (.blank rfl hvalue) hgap
  | (name, value) :: next :: members, _, h, depth, after, rest, hafter, hgap => by
      have hvalue := value_prettyChars hP value h.1 depth
        (',' :: (prettyMembers depth (next :: members) ++ after)) (by simp [Ends])
      have hkey := key_quoted depth name (' ' :: (value.prettyChars depth
        ++ ',' :: (prettyMembers depth (next :: members) ++ after)))
      have hmembers := members_prettyMembers hP (next :: members) nofun h.2 depth after rest hafter
        hgap
      have hall := Grammar.MembersAs.more hkey (.blank rfl hvalue) (.refl _) hmembers
      simpa [prettyMembers] using hall

end

/-- **A value that is written spells itself**, whatever its scalars are taken for. -/
theorem spellsAs_pretty (hP : ∀ number, P number → number.ReadsBackAs taking) {value : Json}
    (h : value.EveryNumber P) : Grammar.SpellsAs taking value.pretty value := by
  have hlines := value_prettyChars hP value h 0 [] .nil
  exact ⟨[], by simpa [pretty] using hlines, .refl []⟩

end

/-- **A value that is written spells itself**, if its numbers are read back. -/
theorem spells_pretty {value : Json} (h : value.NumbersReadBack) :
    Grammar.Spells value.pretty value :=
  spellsAs_pretty (fun _ => Number.ReadsBack.asRead) h

/-- **The lines of a value spell it.** -/
theorem spells_prettyLines {value : Json} (h : value.NumbersReadBack) :
    Grammar.Spells value.prettyLines value := by
  refine ⟨['\n'], ?_, ['\n'], fun c hc => ?_, rfl⟩
  · have hlines := value_prettyChars (fun _ => Number.ReadsBack.asRead) value h 0 ['\n']
      (by simp [Ends])
    simpa [prettyLines, pretty] using hlines
  · obtain rfl := List.mem_singleton.mp hc
    rfl

end Json

end EntityQuery
