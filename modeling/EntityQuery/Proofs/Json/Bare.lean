import EntityQuery.Proofs.Json.Integer

/-!
# Proofs/Json/Bare — members that are JSON but have no value

    { "x": 1e999 }          { "x": "\ud800" }

A number that no double holds and a text with half a surrogate pair are JSON, and whoever passes
over them meets no fault; but there is no value to be read.  Each is one token
(`Json.Grammar.Bare`), and an object that ends with one has the tree that is expected up to it
(`Document.ofText_of_bare`).
-/

namespace EntityQuery

open Json.Grammar (Lexed)

/-- One token in the place of a value, which has none. -/
inductive Json.Grammar.Bare (cs rest : List Char) : Prop
  | number {fault : Fault} (lexed : Lexed cs (.scalar (.unreadable fault none)) rest)
  | text {fault : Fault} (lexed : Lexed cs (.text (.error fault)) rest)

open Json.Grammar (Bare)

/-- The numeral of ten to the power of 999. -/
def hugeNumeral : Numeral :=
  ⟨false, ['1'], none, some (false, ['9', '9', '9'])⟩

theorem value?_hugeNumeral : hugeNumeral.value? = none := by
  decide +kernel

/-- No double holds ten to the power of 999. -/
theorem bare_huge : Bare ['1', 'e', '9', '9', '9', '\x7d'] ['\x7d'] := by
  have hscan : Numeral.scan ['1', 'e', '9', '9', '9', '\x7d'] = .read hugeNumeral ['\x7d'] := rfl
  -- The fault is not worked out, since that would scale the numeral.
  have hnode : hugeNumeral.node ['\x7d'] = .unreadable (hugeNumeral.refusal ['\x7d']) none := by
    rw [Numeral.node, value?_hugeNumeral]
  have htoken := Token.scan_of_numeral (.inr rfl) hscan
  rw [hnode] at htoken
  exact .number ⟨_, _, rfl, htoken⟩

/-- The escape of half a surrogate pair is no character. -/
theorem bare_half : Bare ['"', '\\', 'u', 'd', '8', '0', '0', '"', '\x7d'] ['\x7d'] :=
  .text ⟨_, _, rfl, rfl⟩

namespace Assembly

/-- Some characters open an object and go on as far as the colon of a member. -/
def Leads (lead : List Char) (earlier : Members) (name : String) : Prop :=
  ∀ rest, run (.reading .value []) (lead ++ rest)
    = run (.reading .value [⟨0, none, .keyed earlier (.ok name)⟩]) rest

end Assembly

/-- **An object that ends with a bare member** has a tree, in which the member has no value. -/
theorem Document.ofText_of_bare {text name : String} {lead cs : List Char} {earlier : Members}
    (hlead : Assembly.Leads lead earlier name) (htext : text.toList = lead ++ cs)
    (h : Bare cs ['\x7d']) : ∃ fault, Document.ofText text
      = ⟨.obj (earlier.reverse ++ [(.ok name, .unreadable fault none)]) none, none⟩ := by
  have hclose (node : Node) :
      Assembly.run (Assembly.deliver node [⟨0, none, .keyed earlier (.ok name)⟩]) ['\x7d']
        = ⟨.obj (earlier.reverse ++ [(.ok name, node)]) none, none⟩ := by
    rw [Assembly.run_token _ rfl, Assembly.run_nil, ← List.reverse_cons]
    rfl
  have hrun : Document.ofText text = Assembly.run (.reading .value []) text.toList := rfl
  rw [hrun, htext, hlead cs]
  cases h with
  | number lexed =>
    obtain ⟨c, after, rfl, hscan⟩ := lexed
    rw [Assembly.run_token _ hscan]
    exact ⟨_, hclose (.unreadable _ none)⟩
  | text lexed =>
    obtain ⟨c, after, rfl, hscan⟩ := lexed
    rw [Assembly.run_token _ hscan]
    exact ⟨_, hclose (.unreadable _ none)⟩

/-! ## Objects with one member -/

/-- An object with one member, of which there is no value. -/
def HasBareMember (text : String) : Prop :=
  ∃ fault, Document.ofText text = ⟨.obj [(.ok "x", .unreadable fault none)] none, none⟩

theorem leads_member : Assembly.Leads ['\x7b', '"', 'x', '"', ':'] [] "x" := by
  intro rest
  simp only [List.cons_append, List.nil_append]
  rw [Assembly.run_token _ rfl, Assembly.run_token _ rfl, Assembly.run_token _ rfl]
  rfl

/-- A number that no double holds, and half a surrogate pair. -/
theorem hasBareMember_of_mem {text : String}
    (h : text ∈ ["\x7b\"x\":1e999\x7d", "\x7b\"x\":\"\\ud800\"\x7d"]) :
    HasBareMember text := by
  rw [List.mem_pair] at h
  rcases h with rfl | rfl
  · exact Document.ofText_of_bare leads_member (by decide) bare_huge
  · exact Document.ofText_of_bare leads_member (by decide) bare_half

end EntityQuery
