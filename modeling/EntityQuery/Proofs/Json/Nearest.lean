import EntityQuery.Proofs.Json.Proper
import EntityQuery.Proofs.Number.Written

/-!
# Proofs/Json/Nearest — a reader that rounds once reads back what is written

    7.751518962134484e-29  ──▸  the double nearest to it, and no other

A double that a text spells is worked out in doubles, which may miss the nearest one by a last bit.
`Json.parseNearest` takes the same tokens and assembles them in the same way, but takes a numeral
that is no integer for the double nearest to it (`Json.Grammar.nearest`).

What is written is read back by this reader, every double included (`Json.parseNearest_pretty`),
since the text of a number is a numeral to which the number is nearest (`Number.exists_nearest`).
-/

namespace EntityQuery

open Json.Grammar (Ends)

/-! ## Numbers -/

namespace Numeral

/-- The number nearest to a numeral: an integer while it fits 64 bits, and otherwise the nearest
double, if that is finite. -/
def nearest? (numeral : Numeral) : Option Number :=
  match numeral.value? with
  | some (.integer n) => some (.integer n)
  | _ =>
      let magnitude := Binary64.nearestDecimal numeral.decimal
      if magnitude < Binary64.infiniteMagnitude then
        some (.real (.ofMagnitude numeral.negative magnitude))
      else none

/-- A numeral as a tree, its number rounded once. -/
def nearestNode (numeral : Numeral) (rest : List Char) : Node :=
  match numeral.nearest? with
  | some number => .num number
  | none => .unreadable (numeral.refusal rest) none

/-- A numeral that is written starts as a number does. -/
theorem IsWritten.exists_chars {numeral : Numeral} (h : numeral.IsWritten) (rest : List Char) :
    ∃ c after, numeral.chars ++ rest = c :: after ∧ (c = '-' ∨ c.isDigit = true) := by
  rw [chars]
  cases numeral.negative with
  | true => exact ⟨'-', _, rfl, .inl rfl⟩
  | false =>
    obtain ⟨hne, hdigits⟩ := h.whole
    rcases hwhole : numeral.whole with _ | ⟨digit, digits⟩
    · exact absurd hwhole hne
    · exact ⟨digit, _, rfl, .inr (hdigits digit (by simp [hwhole]))⟩

end Numeral

/-- What ends a value does not go on with a number. -/
theorem Json.Grammar.Ends.endsInteger {rest : List Char} (h : Ends rest) :
    Numeral.EndsInteger rest := by
  intro c hc
  have hmark := h c hc
  simp only [List.mem_cons, List.not_mem_nil, or_false] at hmark
  rcases hmark with rfl | rfl | rfl | rfl <;> decide

/-- The literal of an integer. -/
def IntegerLiteral.ofInt (n : Int) : IntegerLiteral where
  negative := decide (n < 0)
  digits := n.natAbs.repr.toList
  isDigit := (Numeral.isDigits_repr n.natAbs).2
  ne_nil := (Numeral.isDigits_repr n.natAbs).1
  leading := by
    intro hzero
    rcases Nat.eq_zero_or_pos n.natAbs with h | h
    · rw [h]
      rfl
    · obtain ⟨first, rest, hdigits, hfirst⟩ := (leadingDigits_repr h).exists_first
      rw [hdigits] at hzero
      exact absurd (Option.some.inj hzero) hfirst

namespace IntegerLiteral

theorem chars_ofInt (n : Int) : (ofInt n).chars = n.repr.toList := by
  cases n with
  | ofNat n => rfl
  | negSucc n =>
    have hnegative : (ofInt (.negSucc n)).negative = true :=
      decide_eq_true (Int.negSucc_lt_zero n)
    rw [chars, if_pos hnegative]
    exact (String.toList_append (s := "-") (t := Nat.repr (n + 1))).symm

theorem value_ofInt (n : Int) : (ofInt n).value = n := by
  rw [value, ofInt, Numeral.natOf_repr]
  by_cases hnegative : n < 0
  · rw [if_pos (decide_eq_true hnegative)]
    omega
  · rw [if_neg (by simpa using hnegative)]
    omega

theorem not_isMinusZero_ofInt (n : Int) : ¬(ofInt n).IsMinusZero := by
  intro h
  have hvalue := value_ofInt n
  rw [IsMinusZero, chars] at h
  split at h
  · next hnegative =>
    obtain ⟨-, hdigits⟩ := List.cons.inj h
    rw [value, if_pos hnegative, hdigits] at hvalue
    have hzero : n = 0 := hvalue.symm
    rw [hzero] at hnegative
    contradiction
  · have hsign := (ofInt n).isDigit '-' (by simp [h])
    contradiction

/-- An integer that fits is the number of its literal. -/
theorem value?_ofInt {n : Int} (h : (Number.integer n).IsProper) :
    (ofInt n).numeral.value? = some (.integer n) := by
  have hfits : (ofInt n).Fits := by rwa [Fits, value_ofInt]
  rw [value?_of_fits _ (not_isMinusZero_ofInt n) hfits, value_ofInt]

end IntegerLiteral

namespace Number

/-- **Integers are read back as they are written.** -/
theorem readsBack_integer {n : Int} (h : (integer n).IsProper) : (integer n).ReadsBack := by
  intro rest hrest
  obtain ⟨c, after, hchars, hscan⟩ := (IntegerLiteral.ofInt n).exists_scan hrest.endsInteger
  rw [IntegerLiteral.chars_ofInt] at hchars
  rw [IntegerLiteral.node, Numeral.node, IntegerLiteral.value?_ofInt h] at hscan
  exact ⟨c, after, hchars, hscan⟩

/-- **The text of a number is a numeral to which it is nearest.** -/
theorem exists_nearest {number : Number} (h : number.IsProper) : ∃ numeral : Numeral,
    number.text.toList = numeral.chars ∧ numeral.IsWritten ∧ numeral.nearest? = some number := by
  cases number with
  | integer n =>
    refine ⟨_, ?_, (IntegerLiteral.ofInt n).isWritten_numeral, ?_⟩
    · rw [IntegerLiteral.chars_numeral, IntegerLiteral.chars_ofInt]
      rfl
    · rw [Numeral.nearest?, IntegerLiteral.value?_ofInt h]
  | real x =>
    obtain ⟨numeral, hchars, hwritten, hreal, hnegative, hnearest, -⟩ := exists_isTextOf h
    refine ⟨numeral, hchars, hwritten, ?_⟩
    have hfinite : x.magnitude < Binary64.infiniteMagnitude := of_decide_eq_true h
    have hvalue (n : Int) : numeral.value? ≠ some (.integer n) := by
      rw [Numeral.value?, if_neg hreal, Numeral.real?]
      rcases Binary64.ofDecimal? numeral.negative numeral.kept with _ | y <;> rintro ⟨⟩
    rw [Numeral.nearest?, hnearest, hnegative]
    split
    · next n hinteger => exact absurd hinteger (hvalue n)
    · exact (if_pos hfinite).trans
        (congrArg (some ∘ real) (Binary64.ofMagnitude_magnitude x))

end Number

/-- A double is read as another: a numeral to which it is nearest is. -/
def Binary64.IsReadAs (x y : Binary64) : Prop :=
  ∃ numeral : Numeral, numeral.nearest? = some (.real x) ∧ numeral.value? = some (.real y)

/-! ## Tokens -/

/-- A number is rounded once. -/
def Json.Grammar.nearest : Json.Grammar.Taking where
  node
    | _, .null => .null
    | _, .bool value => .bool value
    | here, node =>
        match Numeral.scan here with
        | .read numeral rest => numeral.nearestNode rest
        | .broken _ _ => node
  null _ := rfl
  bool _ _ := rfl

/-- A number that is held is rounded once, and one that is not stays so. -/
def Json.Grammar.held : Json.Grammar.Taking where
  node
    | _, .unreadable fault skipped => .unreadable fault skipped
    | here, node => nearest.node here node
  null _ := rfl
  bool _ _ := rfl

/-- The document of a text whose numbers are rounded once. -/
def Document.ofTextNearest (text : String) : Document :=
  ofTokens ((tokens text.toList).map (Token.take Json.Grammar.nearest))

/-- The JSON value of a text whose numbers are rounded once. -/
def Json.parseNearest (text : String) : Except Fault Json :=
  (Document.ofTextNearest text).value

theorem Json.Grammar.nearest_node {here rest : List Char} {numeral : Numeral}
    (h : Numeral.scan here = .read numeral rest) :
    nearest.node here (numeral.node rest) = numeral.nearestNode rest := by
  rw [Numeral.node]
  rcases numeral.value? with _ | number <;> simp [nearest, h]

/-- A numeral that is written is one token. -/
theorem Numeral.IsWritten.exists_scan {numeral : Numeral} (h : numeral.IsWritten)
    {rest : List Char} (hrest : Ends rest) : ∃ c after, numeral.chars ++ rest = c :: after
      ∧ Token.scan c after = .read (.scalar (numeral.node rest)) rest
      ∧ Numeral.scan (c :: after) = .read numeral rest := by
  obtain ⟨c, after, hchars, hc⟩ := h.exists_chars rest
  have hscan := Numeral.scan_chars h hrest.endsInteger
  rw [hchars] at hscan
  exact ⟨c, after, hchars, Token.scan_of_numeral hc hscan, hscan⟩

/-- **What is written for a number is nearest to it.** -/
theorem Number.IsProper.readsBackAs {number : Number} (h : number.IsProper) :
    number.ReadsBackAs Json.Grammar.nearest := by
  intro rest hrest
  obtain ⟨numeral, hchars, hwritten, hnearest⟩ := exists_nearest h
  obtain ⟨c, after, hstart, htoken, hscan⟩ := hwritten.exists_scan hrest
  rw [hchars, hstart]
  refine ⟨numeral.node rest, ⟨c, after, rfl, htoken⟩, ?_⟩
  rw [Json.Grammar.nearest_node hscan, Numeral.nearestNode, hnearest]

/-- A number that is read off what is written for another is held as that other. -/
theorem Number.IsProper.held_node {number read : Number} (h : number.IsProper) {rest : List Char}
    (hrest : Ends rest)
    (hlexed : Json.Grammar.Lexed (number.text.toList ++ rest) (.scalar (.num read)) rest) :
    Json.Grammar.held.node (number.text.toList ++ rest) (.num read) = .num number := by
  obtain ⟨node, hother, hnearest⟩ := h.readsBackAs rest hrest
  obtain ⟨hsame, -⟩ := hlexed.unique hother
  obtain rfl := Lexeme.scalar.inj hsame
  exact hnearest

/-- A text is read as what it spells, its numbers rounded once. -/
theorem Json.parseNearest_of_spellsAs {text : String} {value : Json}
    (h : Grammar.SpellsAs Grammar.nearest text value) (hdepth : value.nesting ≤ maxDepth) :
    parseNearest text = .ok value.settle := by
  rw [parseNearest, Document.ofTextNearest, Document.ofTokens_eq_ofJson h hdepth, Document.value,
    Node.value_ofJson]
  rfl

/-- **A value that is written is read back**, every number of it included. -/
theorem Json.parseNearest_pretty {value : Json} (h : value.IsProper)
    (hdepth : value.nesting ≤ maxDepth) : parseNearest value.pretty = .ok value.settle :=
  parseNearest_of_spellsAs (spellsAs_pretty (fun _ => Number.IsProper.readsBackAs) h.everyNumber)
    hdepth

end EntityQuery
