import EntityQuery.Proofs.Filter.Reading

/-!
# Proofs/Filter/Marked — members with a flag among them

A group or a condition is negated by `$_not`, which may stand anywhere among its other members.
`Marked` says that members are given entries with such a flag among them; merging repeated keys and
reading the members keep it (`Marked.ofList`, `Marked.exists_related`), and marked clauses make the
filter that has the flag for its negation (`Marked.ofEntries`).
-/

namespace EntityQuery

section

variable {α β : Type} {flag : Bool → α} {negated : Bool}

/-- The members other than `$_not`. -/
def unmarked (members : Entries α) : Entries α :=
  members.filter fun member => member.1 != Key.negation

theorem unmarked_flag (value : α) (rest : Entries α) :
    unmarked ((Key.negation, value) :: rest) = unmarked rest :=
  List.filter_cons_of_neg (by simp)

theorem unmarked_cons {key : String} (h : key ≠ Key.negation) (value : α) (rest : Entries α) :
    unmarked ((key, value) :: rest) = (key, value) :: unmarked rest :=
  List.filter_cons_of_pos (bne_iff_ne.mpr h)

/-- What the other members are related to can be filled up with the flag. -/
theorem exists_related_of_unmarked {R : α → β → Prop} {other : Bool → β}
    (hflag : R (flag negated) (other negated)) {members : Entries α}
    (hflags : ∀ value, (Key.negation, value) ∈ members → value = flag negated)
    {others : Entries β} (hothers : Entries.Related R (unmarked members) others) :
    ∃ all, Entries.Related R members all ∧ unmarked all = others
      ∧ ∀ value, (Key.negation, value) ∈ all → value = other negated := by
  induction members generalizing others with
  | nil =>
    cases hothers
    exact ⟨[], .nil, rfl, nofun⟩
  | cons member rest ih =>
    obtain ⟨key, value⟩ := member
    have hrest : ∀ value, (Key.negation, value) ∈ rest → value = flag negated :=
      fun value hvalue => hflags value (List.mem_cons_of_mem _ hvalue)
    by_cases hkey : key = Key.negation
    · subst hkey
      obtain rfl := hflags value List.mem_cons_self
      rw [unmarked_flag] at hothers
      obtain ⟨all, hrelated, hentries, hflags⟩ := ih hrest hothers
      refine ⟨(Key.negation, other negated) :: all, .cons ⟨rfl, hflag⟩ hrelated,
        (unmarked_flag _ all).trans hentries, fun value hvalue => ?_⟩
      rcases List.mem_cons.mp hvalue with heq | hvalue
      · exact congrArg Prod.snd heq
      · exact hflags value hvalue
    · rw [unmarked_cons hkey] at hothers
      cases hothers with
      | @cons _ entry _ tail hentry htail =>
        obtain ⟨all, hrelated, rfl, hflags⟩ := ih hrest htail
        have hname : entry.1 ≠ Key.negation := fun heq => hkey (hentry.1.trans heq)
        refine ⟨entry :: all, .cons hentry hrelated, unmarked_cons hname entry.2 all,
          fun value hvalue => ?_⟩
        rcases List.mem_cons.mp hvalue with heq | hvalue
        · exact absurd (congrArg Prod.fst heq).symm hname
        · exact hflags value hvalue

/-- The members are the entries and, anywhere among them, `$_not` with its flag: at least once if
the flag is raised. -/
structure Marked (flag : Bool → α) (negated : Bool) (entries members : Entries α) : Prop where
  entries_eq : unmarked members = entries
  flags : ∀ value, (Key.negation, value) ∈ members → value = flag negated
  given : negated = true → Key.negation ∈ members.names

namespace Marked

variable {entries members : Entries α}

theorem mem_names (h : Marked flag negated entries members) {key : String}
    (hkey : key ≠ Key.negation) : key ∈ members.names ↔ key ∈ entries.names := by
  rw [← h.entries_eq]
  simp [unmarked, Entries.names, hkey]

theorem get?_eq (h : Marked flag negated entries members) {key : String}
    (hkey : key ≠ Key.negation) : members.get? key = entries.get? key := by
  rw [← h.entries_eq]
  exact (@Entries.get?_filter _ (· != Key.negation) key (bne_iff_ne.mpr hkey) members).symm

/-- Entries can be marked in front. -/
theorem cons (h : Key.negation ∉ entries.names) :
    Marked flag negated entries ((Key.negation, flag negated) :: entries) where
  entries_eq := by
    rw [unmarked_flag]
    refine List.filter_eq_self.mpr fun entry hentry => bne_iff_ne.mpr ?_
    rintro hkey
    exact h (hkey ▸ List.mem_map_of_mem hentry)
  flags value hvalue := by
    rcases List.mem_cons.mp hvalue with heq | hvalue
    · exact congrArg Prod.snd heq
    · exact absurd (List.mem_map_of_mem hvalue) h
  given _ := List.mem_cons_self

/-- A member is one of the entries or the flag. -/
theorem mem (h : Marked flag negated entries members) {member : String × α}
    (hmember : member ∈ members) : member ∈ entries ∨ member = (Key.negation, flag negated) := by
  by_cases hkey : member.1 = Key.negation
  · exact .inr (Prod.ext hkey (h.flags member.2 (hkey ▸ hmember)))
  · exact .inl (h.entries_eq ▸ List.mem_filter.mpr ⟨hmember, bne_iff_ne.mpr hkey⟩)

theorem ofList (h : Marked flag negated entries members) :
    Marked flag negated (Entries.ofList entries) (Entries.ofList members) where
  entries_eq := (Entries.filter_ofList (· != Key.negation) members).trans
    (congrArg Entries.ofList h.entries_eq)
  flags value hvalue := h.flags value (Entries.mem_of_mem_ofList hvalue)
  given hnegated := Entries.mem_names_ofList.mpr (h.given hnegated)

theorem mapValues (h : Marked flag negated entries members) (f : α → β) :
    Marked (f ∘ flag) negated (entries.mapValues f) (members.mapValues f) where
  entries_eq := by
    rw [← h.entries_eq, unmarked, Entries.mapValues, List.filter_map]
    rfl
  flags value hvalue := by
    obtain ⟨⟨_, _⟩, hmember, heq⟩ := List.mem_map.mp hvalue
    obtain ⟨rfl, rfl⟩ := Prod.mk.inj heq
    exact congrArg f (h.flags _ hmember)
  given hnegated := by
    rw [Entries.names_mapValues]
    exact h.given hnegated

/-- Merging repeated keys changes nothing about the flag. -/
theorem settled {entries members : List (String × Json)}
    (h : Marked Json.bool negated entries members) :
    Marked Json.bool negated (Entries.ofList (Json.settleMembers entries))
      (Entries.ofList (Json.settleMembers members)) := by
  rw [Json.settleMembers_eq_mapValues, Json.settleMembers_eq_mapValues]
  exact (h.mapValues Json.settle).ofList

/-- Entries that are related to the members can be marked as they are. -/
theorem exists_related {R : α → β → Prop} {other : Bool → β}
    (hflag : R (flag negated) (other negated)) (h : Marked flag negated entries members)
    {others : Entries β} (hothers : Entries.Related R entries others) :
    ∃ all, Entries.Related R members all ∧ Marked other negated others all := by
  obtain ⟨rfl, hflags, hgiven⟩ := h
  obtain ⟨all, hrelated, hentries, hflags⟩ := exists_related_of_unmarked hflag hflags hothers
  exact ⟨all, hrelated, hentries, hflags, fun hnegated => hrelated.names ▸ hgiven hnegated⟩

/-- What marked members are related to is marked, if the flag is related to the flag alone. -/
theorem of_related {R : α → β → Prop} {other : Bool → β}
    (hflag : ∀ value, R (flag negated) value → value = other negated)
    (h : Marked flag negated entries members) {others : Entries β}
    (hothers : Entries.Related R members others) :
    Entries.Related R entries (unmarked others)
      ∧ Marked other negated (unmarked others) others := by
  obtain ⟨rfl, hflags, hgiven⟩ := h
  have hnames : ∀ ⦃first : String × α⦄ ⦃second : String × β⦄,
      first.1 = second.1 ∧ R first.2 second.2 →
        ((first.1 != Key.negation) = true ↔ (second.1 != Key.negation) = true) := by
    rintro first second ⟨hname, -⟩
    rw [hname]
  refine ⟨List.rel_filter hnames hothers, rfl, fun value hvalue => ?_,
    fun hnegated => hothers.names ▸ hgiven hnegated⟩
  obtain ⟨⟨_, original⟩, hmember, rfl, hrelated⟩ :=
    exists_of_mem_forall₂ hothers.flip (Key.negation, value) hvalue
  obtain rfl := hflags original hmember
  exact hflag value hrelated

end Marked

end

/-- The clause that is read under `$_not`. -/
def Clause.flag (negated : Bool) : Clause := .value (.bool negated)

theorem Filter.addEntry_flag (filter : Filter) (negated : Bool) :
    filter.addEntry Key.negation (Clause.flag negated) = .ok { filter with negated } := rfl

theorem Filter.addEntry_of_not_reserved (filter : Filter) {key : String} (clause : Clause)
    (h : Key.isReserved key = false) :
    filter.addEntry key clause = .ok (filter.add key clause) := by
  have hkey : key ≠ Key.negation := by
    rintro rfl
    exact nomatch h
  unfold addEntry
  rw [if_neg hkey, h]
  rfl

/-- Taking clauses in, the flag among them. -/
theorem Filter.foldlM_addEntry {negated : Bool} {all : Entries Clause}
    (hflags : ∀ value, (Key.negation, value) ∈ all → value = Clause.flag negated)
    (hplain : ∀ entry ∈ unmarked all, Key.isReserved entry.1 = false) (start : Filter) :
    all.foldlM (fun filter entry => filter.addEntry entry.1 entry.2) start
      = .ok ⟨if Key.negation ∈ all.names then negated else start.negated, (unmarked all).foldl
          (fun entries pair => entries.put pair.1 pair.2) start.clauses⟩ := by
  induction all generalizing start with
  | nil => rfl
  | cons entry rest ih =>
    obtain ⟨key, clause⟩ := entry
    have hrest : ∀ value, (Key.negation, value) ∈ rest → value = Clause.flag negated :=
      fun value hvalue => hflags value (List.mem_cons_of_mem _ hvalue)
    rw [List.foldlM_cons]
    by_cases hkey : key = Key.negation
    · subst hkey
      obtain rfl := hflags clause List.mem_cons_self
      rw [unmarked_flag] at hplain ⊢
      rw [addEntry_flag]
      refine (ih hrest hplain { start with negated }).trans ?_
      simp
    · rw [unmarked_cons hkey] at hplain ⊢
      obtain ⟨hentry, hplain⟩ := List.forall_mem_cons.mp hplain
      rw [addEntry_of_not_reserved start clause hentry]
      refine (ih hrest hplain (start.add key clause)).trans ?_
      simp [add, Ne.symm hkey]

/-- **Marked clauses make a filter**: the flag is its negation, and its clauses are the others. -/
theorem Marked.ofEntries {negated : Bool} {clauses all : Entries Clause}
    (h : Marked Clause.flag negated clauses all)
    (hplain : ∀ entry ∈ clauses, Key.isReserved entry.1 = false) :
    Filter.ofEntries all = .ok ⟨negated, Entries.ofList clauses⟩ := by
  obtain ⟨rfl, hflags, hgiven⟩ := h
  have hnegated : (if Key.negation ∈ all.names then negated else false) = negated := by
    split
    · rfl
    · rename_i hmissing
      exact (Bool.eq_false_iff.mpr (mt hgiven hmissing)).symm
  refine (Filter.foldlM_addEntry hflags hplain .empty).trans ?_
  rw [Filter.empty, hnegated]
  rfl

end EntityQuery
