import EntityQuery.Json.Literal
import EntityQuery.Json.Node
import EntityQuery.Json.Numeral

/-!
# Json/Token — the tokens of a JSON text

A text is cut into brackets, braces, commas, colons, texts in quotes and other scalars, with blanks
between them. Each token keeps the text from its first character on, which is where a fault lies
when the token cannot stand where it does. A piece that is no token ends the list.
-/

namespace EntityQuery

/-- What a token is. -/
inductive Lexeme where
  | openArr
  | closeArr
  | openObj
  | closeObj
  | comma
  | colon
  /-- A text in quotes, or the half surrogate pair for which it is none. -/
  | text (value : Except Fault String)
  /-- A scalar that is not a text. -/
  | scalar (value : Node)
  /-- A piece that breaks off, to a reader of it and to one who passes over it. -/
  | broken (fault skipped : Fault)

/-- A token with the text from its first character on. -/
structure Token where
  /-- What the token is. -/
  lexeme : Lexeme
  /-- The token and everything after it. -/
  here : List Char

namespace Token

/-- The blanks of JSON. -/
def isBlank (c : Char) : Bool :=
  c == ' ' || c == '\t' || c == '\n' || c == '\r'

/-- The rest of a word, letter by letter. -/
def scanWord (node : Node) : List Char → List Char → Scan Lexeme
  | [], rest => .read (.scalar node) rest
  | _ :: _, [] => .fail .ended
  | letter :: word, c :: rest =>
      if c = letter then scanWord node word rest else .fail (.faultAt (c :: rest))

/-- A numeral; one without a value can still be passed over. -/
def scanNumber (cs : List Char) : Scan Lexeme :=
  (Numeral.scan cs).bind fun numeral rest =>
    match numeral.value? with
    | some value => .read (.scalar (.num value)) rest
    | none => .read (.scalar (.unreadable (numeral.refusal rest) none)) rest

/-- The token that starts with a character. -/
def scan (c : Char) (rest : List Char) : Scan Lexeme :=
  match c with
  | '[' => .read .openArr rest
  | ']' => .read .closeArr rest
  | '\x7b' => .read .openObj rest
  | '\x7d' => .read .closeObj rest
  | ',' => .read .comma rest
  | ':' => .read .colon rest
  | '"' => (Literal.scan rest).map .text
  | 'n' => scanWord .null ['u', 'l', 'l'] rest
  | 't' => scanWord (.bool true) ['r', 'u', 'e'] rest
  | 'f' => scanWord (.bool false) ['a', 'l', 's', 'e'] rest
  | c => if c = '-' ∨ c.isDigit then scanNumber (c :: rest) else .fail (.faultAt (c :: rest))

theorem within_scanWord (node : Node) (word rest : List Char) :
    (scanWord node word rest).Within rest.length := by
  fun_induction scanWord node word rest with
  | case1 => simp
  | case2 => trivial
  | case3 _ _ _ ih => exact ih.mono (by simp only [List.length_cons]; omega)
  | case4 => trivial

theorem within_scanNumber (cs : List Char) : (scanNumber cs).Within (cs.length - 1) :=
  (Numeral.within_scan cs).bind fun numeral rest hr => by
    cases numeral.value? <;> exact hr

theorem within_scan (c : Char) (rest : List Char) : (scan c rest).Within rest.length := by
  unfold scan
  split
  case h_7 => exact (Literal.within_scan rest).map _
  case h_8 | h_9 | h_10 => exact within_scanWord _ _ _
  case h_11 =>
    split
    · exact within_scanNumber _
    · trivial
  all_goals simp

end Token

/-- The tokens of a text, up to the first piece that is none. -/
def tokens (cs : List Char) : List Token :=
  match _hc : cs.dropWhile Token.isBlank with
  | [] => []
  | c :: rest =>
      match _hs : Token.scan c rest with
      | .read lexeme rest' => ⟨lexeme, c :: rest⟩ :: tokens rest'
      | .broken fault skipped => [⟨.broken fault skipped, c :: rest⟩]
termination_by cs.length
decreasing_by
  have h := Token.within_scan c rest
  rw [_hs] at h
  have hl := (List.dropWhile_suffix (l := cs) Token.isBlank).length_le
  rw [_hc, List.length_cons] at hl
  exact Nat.lt_of_le_of_lt h hl

end EntityQuery
