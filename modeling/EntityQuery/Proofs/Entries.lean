import EntityQuery.OrderedMap
import EntityQuery.Proofs.Except
import EntityQuery.SortedMap

/-!
# Proofs/Entries — entries put one after the other

Putting pairs one after the other changes nothing about pairs whose names differ
(`Entries.ofList_of_nodup`), so both kinds of maps are made again from their own entries
(`OrderedMap.ofList_entries`, `SortedMap.ofList_entries`).  Where no name stands twice, looking up
finds the one entry of a name (`Entries.get?_eq_some`).
-/

namespace EntityQuery

variable {α β : Type}

theorem exists_of_mem_forall₂ {R : α → β → Prop} {first : List α} {second : List β}
    (h : List.Forall₂ R first second) : ∀ a ∈ first, ∃ b ∈ second, R a b := by
  induction h with
  | nil => exact nofun
  | cons hab _ ih =>
    refine List.forall_mem_cons.mpr ⟨⟨_, List.mem_cons_self, hab⟩, fun a ha => ?_⟩
    obtain ⟨b, hb, hrelated⟩ := ih a ha
    exact ⟨b, List.mem_cons_of_mem _ hb, hrelated⟩

namespace Entries

/-- A new name goes last. -/
theorem put_of_not_mem {entries : Entries α} {name : String} (h : name ∉ names entries)
    (value : α) : put entries name value = entries ++ [(name, value)] := by
  induction entries with
  | nil => rfl
  | cons entry rest ih =>
    obtain ⟨hentry, hrest⟩ := not_or.mp (mt List.mem_cons.mpr h)
    rw [put, if_neg (Ne.symm hentry), ih hrest, List.cons_append]

/-- Names that are new are put at the end, in their order. -/
theorem foldl_put : ∀ (pairs : List (String × α)) (entries : Entries α),
    (names entries ++ names pairs).Nodup →
      pairs.foldl (fun entries pair => put entries pair.1 pair.2) entries = entries ++ pairs
  | [], entries, _ => (List.append_nil entries).symm
  | pair :: rest, entries, h => by
      have hpair : pair.1 ∉ names entries := fun hmem =>
        (List.nodup_append.mp h).2.2 _ hmem _ List.mem_cons_self rfl
      have hrest : (names (entries ++ [pair]) ++ names rest).Nodup := by
        simpa [names] using h
      rw [List.foldl_cons, put_of_not_mem hpair, foldl_put rest _ hrest, List.append_assoc,
        List.singleton_append]

/-- **Pairs whose names differ are put as they are.** -/
theorem ofList_of_nodup {pairs : List (String × α)} (h : (names pairs).Nodup) :
    ofList pairs = pairs :=
  foldl_put pairs [] h

@[simp] theorem names_mapValues (f : α → β) (entries : Entries α) :
    names (entries.mapValues f) = names entries := by
  simp [names, mapValues]

theorem mapValues_mapValues {γ : Type} (f : α → β) (g : β → γ) (entries : Entries α) :
    (entries.mapValues f).mapValues g = entries.mapValues (g ∘ f) := by
  rw [mapValues, mapValues, mapValues, List.map_map]
  rfl

theorem mapValues_congr {f g : α → β} {entries : Entries α}
    (h : ∀ entry ∈ entries, f entry.2 = g entry.2) : entries.mapValues f = entries.mapValues g :=
  List.map_congr_left fun entry hentry => congrArg (Prod.mk entry.1) (h entry hentry)

/-- A traversal that undoes a change of the values gives back the entries. -/
theorem traverse_mapValues {ε : Type} {f : α → β} {g : String → β → Except ε α}
    (h : ∀ name value, g name (f value) = .ok value) (entries : Entries α) :
    (entries.mapValues f).traverse g = .ok entries := by
  induction entries with
  | nil => rfl
  | cons entry rest ih =>
    rw [mapValues] at ih
    rw [mapValues, List.map_cons, traverse, h, ih]
    rfl

/-- Visiting entries is a traversal that keeps the names. -/
theorem traverse_eq_mapM {ε : Type} (f : String → α → Except ε β) (entries : Entries α) :
    entries.traverse f = entries.mapM fun entry => (f entry.1 entry.2).map (Prod.mk entry.1) := by
  induction entries with
  | nil => rfl
  | cons entry rest ih =>
    rw [traverse, ih, Except.mapM_cons]
    rcases f entry.1 entry.2 with e | value
    · rfl
    · cases rest.mapM fun entry => (f entry.1 entry.2).map (Prod.mk entry.1) <;> rfl

/-- Visiting succeeds with the results of the entries. -/
theorem traverse_eq_ok {ε : Type} {f : String → α → Except ε β} {entries : Entries α}
    {values : Entries β} : entries.traverse f = .ok values ↔
      List.Forall₂ (fun a b => a.1 = b.1 ∧ f a.1 a.2 = .ok b.2) entries values := by
  rw [traverse_eq_mapM, Except.mapM_eq_ok_iff]
  refine iff_of_eq (congrArg (List.Forall₂ · entries values) ?_)
  funext entry result
  rw [Except.map_eq_ok, eq_iff_iff]
  constructor
  · rintro ⟨value, hvalue, rfl⟩
    exact ⟨rfl, hvalue⟩
  · rintro ⟨hname, hvalue⟩
    exact ⟨result.2, hvalue, Prod.ext hname rfl⟩

/-- Visiting fails as the first entry that fails. -/
theorem failure?_traverse {ε : Type} (f : String → α → Except ε β) (entries : Entries α) :
    Except.failure? (entries.traverse f)
      = entries.findSome? fun entry => Except.failure? (f entry.1 entry.2) := by
  simp only [traverse_eq_mapM, Except.failure?_mapM, Except.failure?_map]

/-! ### What putting keeps -/

/-- Nothing else comes in. -/
theorem mem_put {entries : Entries α} {name : String} {value : α} {entry : String × α}
    (h : entry ∈ put entries name value) : entry = (name, value) ∨ entry ∈ entries := by
  induction entries with
  | nil => exact .inl (List.mem_singleton.mp h)
  | cons first rest ih =>
    rw [put] at h
    split at h
    · exact (List.mem_cons.mp h).imp_right (List.mem_cons_of_mem first)
    · rcases List.mem_cons.mp h with rfl | h
      · exact .inr List.mem_cons_self
      · exact (ih h).imp_right (List.mem_cons_of_mem first)

/-- Nothing is there that was not put. -/
theorem mem_of_mem_ofList {pairs : List (String × α)} {entry : String × α}
    (h : entry ∈ ofList pairs) : entry ∈ pairs := by
  have hfrom : ∀ (pairs : List (String × α)) (entries : Entries α),
      entry ∈ pairs.foldl (fun entries pair => put entries pair.1 pair.2) entries →
        entry ∈ entries ∨ entry ∈ pairs := by
    intro pairs
    induction pairs with
    | nil => exact fun _ h => .inl h
    | cons pair rest ih =>
      intro entries h
      rcases ih _ h with h | h
      · exact (mem_put h).elim (fun heq => .inr (heq ▸ List.mem_cons_self)) .inl
      · exact .inr (List.mem_cons_of_mem pair h)
  exact (hfrom pairs [] h).resolve_left (List.not_mem_nil)

/-- Every name that was put is there. -/
theorem mem_names_ofList {pairs : List (String × α)} {name : String} :
    name ∈ names (ofList pairs) ↔ name ∈ names pairs := by
  have hfrom : ∀ (pairs : List (String × α)) (entries : Entries α),
      name ∈ names (pairs.foldl (fun entries pair => put entries pair.1 pair.2) entries)
        ↔ name ∈ names entries ∨ name ∈ names pairs := by
    intro pairs
    induction pairs with
    | nil => exact fun _ => ⟨.inl, fun h => h.resolve_right List.not_mem_nil⟩
    | cons pair rest ih =>
      intro entries
      rw [List.foldl_cons, ih, names_put, names_cons, List.mem_cons]
      split
      · rename_i hknown
        constructor
        · exact Or.imp_right .inr
        · rintro (h | rfl | h)
          · exact .inl h
          · exact .inl hknown
          · exact .inr h
      · rw [List.mem_append, List.mem_singleton, or_assoc]
  exact (hfrom pairs []).trans ⟨fun h => h.resolve_left List.not_mem_nil, .inr⟩

/-- Names can be sorted out before a value is put or after. -/
theorem filter_put (test : String → Bool) (name : String) (value : α) (entries : Entries α) :
    (put entries name value).filter (fun entry => test entry.1)
      = if test name then put (entries.filter fun entry => test entry.1) name value
        else entries.filter fun entry => test entry.1 := by
  induction entries with
  | nil =>
    rw [put, List.filter_cons, List.filter_nil]
    rfl
  | cons entry rest ih =>
    rw [put]
    by_cases hname : entry.1 = name
    · subst hname
      rw [if_pos rfl, List.filter_cons, List.filter_cons]
      by_cases htest : test entry.1 = true
      · simp only [htest, if_true, put]
      · simp only [htest, if_false, Bool.false_eq_true]
    · rw [if_neg hname, List.filter_cons, List.filter_cons, ih]
      by_cases htest : test entry.1 = true
      · simp only [htest, if_true, put, if_neg hname]
        split <;> rfl
      · simp only [htest, if_false, Bool.false_eq_true]

/-- Leaving names out can be done before or after. -/
theorem filter_ofList (test : String → Bool) (pairs : List (String × α)) :
    (ofList pairs).filter (fun entry => test entry.1)
      = ofList (pairs.filter fun entry => test entry.1) := by
  have hfrom : ∀ (pairs : List (String × α)) (entries : Entries α),
      (pairs.foldl (fun entries pair => put entries pair.1 pair.2) entries).filter
          (fun entry => test entry.1)
        = (pairs.filter fun entry => test entry.1).foldl
            (fun entries pair => put entries pair.1 pair.2)
            (entries.filter fun entry => test entry.1) := by
    intro pairs
    induction pairs with
    | nil => exact fun _ => rfl
    | cons pair rest ih =>
      intro entries
      rw [List.foldl_cons, ih, filter_put, List.filter_cons]
      split <;> rfl
  exact hfrom pairs []

/-- Entries with the same names whose values are related. -/
abbrev Related (R : α → β → Prop) (first : Entries α) (second : Entries β) : Prop :=
  List.Forall₂ (fun a b => a.1 = b.1 ∧ R a.2 b.2) first second

/-- Entries that are related have the same names. -/
theorem Related.names {R : α → β → Prop} {first : Entries α} {second : Entries β}
    (h : Related R first second) : names first = names second := by
  induction h with
  | nil => rfl
  | cons hentry _ ih => rw [names_cons, names_cons, hentry.1, ih]

/-- Entries stay related when related values are put under one name. -/
theorem Related.put {R : α → β → Prop} {first : Entries α} {second : Entries β}
    (h : Related R first second) (name : String) {a : α} {b : β} (hab : R a b) :
    Related R (first.put name a) (second.put name b) := by
  induction h with
  | nil => exact .cons ⟨rfl, hab⟩ .nil
  | @cons x y _ _ hentry hrest ih =>
    rw [Entries.put, Entries.put, ← hentry.1]
    split
    · exact .cons ⟨rfl, hab⟩ hrest
    · exact .cons hentry ih

/-- Related pairs stay related when they are put one after the other. -/
theorem Related.ofList {R : α → β → Prop} {first : List (String × α)} {second : List (String × β)}
    (h : Related R first second) : Related R (ofList first) (ofList second) := by
  have hfrom : ∀ {entries : Entries α} {others : Entries β}, Related R entries others →
      Related R (first.foldl (fun entries pair => Entries.put entries pair.1 pair.2) entries)
        (second.foldl (fun entries pair => Entries.put entries pair.1 pair.2) others) := by
    induction h with
    | nil => exact id
    | @cons a b _ _ hentry _ ih =>
      intro entries others hentries
      rw [List.foldl_cons, List.foldl_cons, ← hentry.1]
      exact ih (hentries.put a.1 hentry.2)
  exact hfrom .nil

/-- To be related by a function is to be its values. -/
theorem related_mapValues {f : α → β} {entries : Entries α} {others : Entries β} :
    Related (fun a b => f a = b) entries others ↔ entries.mapValues f = others := by
  constructor
  · intro h
    induction h with
    | nil => rfl
    | cons hentry _ ih =>
      rw [mapValues] at ih
      rw [mapValues, List.map_cons, ih, hentry.1, hentry.2]
  · rintro rfl
    exact List.forall₂_map_right_iff.mpr (List.forall₂_same.mpr fun _ _ => ⟨rfl, rfl⟩)

/-- Values can be changed before or after. -/
theorem mapValues_ofList (f : α → β) (pairs : List (String × α)) :
    (ofList pairs).mapValues f = ofList (Entries.mapValues f pairs) :=
  related_mapValues.mp (related_mapValues.mpr rfl).ofList

/-! ### Looking up -/

/-- Only what has no name there is not found. -/
theorem get?_eq_none {entries : Entries α} {name : String} :
    entries.get? name = none ↔ name ∉ names entries := by
  induction entries with
  | nil => exact ⟨fun _ => nofun, fun _ => rfl⟩
  | cons entry rest ih =>
    rw [get?_cons, names_cons, List.mem_cons, not_or]
    by_cases h : entry.1 = name
    · simp [h]
    · simp [h, ih, Ne.symm h]

/-- Where no name stands twice, an entry is what is found under its name. -/
theorem get?_eq_some {entries : Entries α} (h : (names entries).Nodup) {name : String}
    {value : α} : entries.get? name = some value ↔ (name, value) ∈ entries := by
  induction entries with
  | nil => exact ⟨nofun, nofun⟩
  | cons entry rest ih =>
    obtain ⟨hnew, hrest⟩ := List.nodup_cons.mp h
    rw [get?_cons, List.mem_cons]
    by_cases hname : entry.1 = name
    · subst hname
      have hother : (entry.1, value) ∉ rest := fun hmem =>
        hnew (List.mem_map.mpr ⟨_, hmem, rfl⟩)
      rw [if_pos rfl, Option.some.injEq]
      exact ⟨fun hvalue => .inl (hvalue ▸ rfl),
        fun hmem => (congrArg Prod.snd (hmem.resolve_right hother)).symm⟩
    · rw [if_neg hname, ih hrest]
      exact ⟨.inr, fun hmem => hmem.resolve_left fun heq => hname (heq ▸ rfl)⟩

/-- Leaving other names out changes nothing about a name. -/
theorem get?_filter {test : String → Bool} {name : String} (h : test name = true)
    (entries : Entries α) :
    get? (entries.filter fun entry => test entry.1) name = entries.get? name := by
  induction entries with
  | nil => rfl
  | cons entry rest ih =>
    rw [List.filter_cons, get?_cons]
    by_cases htest : test entry.1 = true
    · rw [if_pos htest, get?_cons, ih]
    · have hname : entry.1 ≠ name := fun heq => htest (heq ▸ h)
      rw [if_neg htest, if_neg hname, ih]

/-- Where no name stands twice, the entries of a name are the one that is found. -/
theorem filter_name {entries : Entries α} (h : (names entries).Nodup) (name : String) :
    entries.filter (fun entry => entry.1 == name)
      = (entries.get? name).toList.map (Prod.mk name) := by
  induction entries with
  | nil => rfl
  | cons entry rest ih =>
    obtain ⟨hnew, hrest⟩ := List.nodup_cons.mp h
    rw [List.filter_cons, get?_cons, ih hrest]
    by_cases hname : entry.1 = name
    · subst hname
      rw [get?_eq_none.mpr hnew]
      simp
    · simp [hname]

/-- Under a name stands the value that was put there last. -/
theorem get?_ofList (pairs : List (String × α)) (name : String) :
    (ofList pairs).get? name = get? pairs.reverse name := by
  have hfrom : ∀ (pairs : List (String × α)) (entries : Entries α),
      get? (pairs.foldl (fun entries pair => put entries pair.1 pair.2) entries) name
        = (get? pairs.reverse name).or (get? entries name) := by
    intro pairs
    induction pairs with
    | nil => exact fun _ => rfl
    | cons pair rest ih =>
      intro entries
      have hlast : get? (pair :: rest).reverse name
          = (get? rest.reverse name).or (get? [pair] name) := by
        rw [List.reverse_cons]
        exact List.lookup_append
      rw [List.foldl_cons, ih, hlast, Option.or_assoc, get?_cons, get?_nil]
      by_cases hname : pair.1 = name
      · subst hname
        rw [get?_put_self, if_pos rfl, Option.some_or]
      · rw [get?_put_of_ne entries _ hname, if_neg hname, Option.none_or]
  rw [ofList, hfrom, get?_nil, Option.or_none]

/-- Names stand in the order in which they were put first. -/
theorem names_ofList (pairs : List (String × α)) :
    names (ofList pairs) = (names pairs).eraseDups := by
  have hfrom : ∀ (pairs : List (String × α)) (entries : Entries α),
      names (pairs.foldl (fun entries pair => put entries pair.1 pair.2) entries)
        = names entries
          ++ ((names pairs).filter fun name => !(names entries).contains name).eraseDups := by
    intro pairs
    induction pairs with
    | nil => exact fun entries => (List.append_nil _).symm
    | cons pair rest ih =>
      intro entries
      rw [List.foldl_cons, ih, names_put, names_cons, List.filter_cons]
      by_cases hname : pair.1 ∈ names entries
      · simp [hname]
      · have hnew : (names rest).filter (fun name => !(names entries ++ [pair.1]).contains name)
            = ((names rest).filter fun name => !(names entries).contains name).filter
                fun name => !name == pair.1 := by
          rw [List.filter_filter]
          refine List.filter_congr fun name _ => ?_
          rw [List.contains_append, Bool.not_or, Bool.and_comm, List.contains_cons,
            List.contains_nil, Bool.or_false]
        have hkept : (!(names entries).contains pair.1) = true := by simpa using hname
        rw [if_neg hname, if_pos hkept, hnew, List.eraseDups_cons, List.append_assoc]
        rfl
  rw [ofList, hfrom, names_nil, List.nil_append]
  simp

theorem get?_mapValues (f : α → β) (entries : Entries α) (name : String) :
    (entries.mapValues f).get? name = (entries.get? name).map f := by
  induction entries with
  | nil => rfl
  | cons entry rest ih =>
    rw [mapValues] at ih
    rw [mapValues, List.map_cons, get?_cons, get?_cons, ih]
    split <;> rfl

/-- Where no name stands twice, entries can be gone through by their names. -/
theorem filterMap_eq_names {entries : Entries α} (h : (names entries).Nodup)
    (f : String → α → Option β) :
    entries.filterMap (fun entry => f entry.1 entry.2)
      = (names entries).filterMap fun name => (entries.get? name).bind (f name) := by
  rw [names, List.filterMap_map]
  refine List.filterMap_congr fun entry hentry => ?_
  rw [Function.comp_apply, (get?_eq_some h).mpr hentry]
  rfl

end Entries

/-! ## Maps made from their entries -/

namespace OrderedMap

theorem ofList_entries (map : OrderedMap α) : ofList map.entries = map :=
  ext (Entries.ofList_of_nodup map.nodup)

/-- Applies a function to every value. -/
def mapValues (f : α → β) (map : OrderedMap α) : OrderedMap β :=
  ⟨map.entries.mapValues f, (Entries.names_mapValues f map.entries).symm ▸ map.nodup⟩

theorem map_entries_traverse {ε : Type} (f : String → α → Except ε β) (map : OrderedMap α) :
    (map.traverse f).map OrderedMap.entries = map.entries.traverse f := by
  unfold traverse
  split <;> exact (by assumption : map.entries.traverse f = _).symm

theorem traverse_eq_ok {ε : Type} {f : String → α → Except ε β} {map : OrderedMap α}
    {result : OrderedMap β} :
    map.traverse f = .ok result ↔ map.entries.traverse f = .ok result.entries := by
  rw [← map_entries_traverse, Except.map_eq_ok]
  constructor
  · exact fun h => ⟨result, h, rfl⟩
  · rintro ⟨made, hmade, hentries⟩
    rw [hmade, ext hentries]

theorem failure?_traverse {ε : Type} (f : String → α → Except ε β) (map : OrderedMap α) :
    Except.failure? (map.traverse f)
      = map.entries.findSome? fun entry => Except.failure? (f entry.1 entry.2) := by
  rw [← Entries.failure?_traverse, ← map_entries_traverse, Except.failure?_map]

end OrderedMap

namespace SortedMap

/-- A name beyond all others goes last. -/
theorem insertEntry_of_lt {entries : Entries α} {name : String}
    (h : ∀ other ∈ entries.names, other < name) (value : α) :
    insertEntry name value entries = entries ++ [(name, value)] := by
  induction entries with
  | nil => rfl
  | cons entry rest ih =>
    rw [insertEntry, if_pos (h entry.1 List.mem_cons_self),
      ih fun other hother => h other (List.mem_cons_of_mem _ hother), List.cons_append]

theorem entries_foldl_insert : ∀ (pairs : List (String × α)) (map : SortedMap α),
    Entries.Ascending (map.entries ++ pairs) →
      (pairs.foldl (fun map pair => map.insert pair.1 pair.2) map).entries = map.entries ++ pairs
  | [], map, _ => (List.append_nil map.entries).symm
  | pair :: rest, map, h => by
      have hinsert : (map.insert pair.1 pair.2).entries = map.entries ++ [pair] := by
        refine insertEntry_of_lt (fun other hother => ?_) pair.2
        rw [Entries.Ascending, Entries.names, List.map_append, List.pairwise_append] at h
        exact h.2.2 other hother pair.1 List.mem_cons_self
      rw [List.foldl_cons, entries_foldl_insert rest, hinsert, List.append_assoc,
        List.singleton_append]
      rwa [hinsert, List.append_assoc, List.singleton_append]

theorem ofList_entries (map : SortedMap α) : ofList map.entries = map :=
  ext (entries_foldl_insert map.entries empty map.ascending)

/-- Applies a function to every value. -/
def mapValues (f : α → β) (map : SortedMap α) : SortedMap β :=
  ⟨map.entries.mapValues f, by
    unfold Entries.Ascending
    rw [Entries.names_mapValues]
    exact map.ascending⟩

theorem map_entries_traverse {ε : Type} (f : String → α → Except ε β) (map : SortedMap α) :
    (map.traverse f).map SortedMap.entries = map.entries.traverse f := by
  unfold traverse
  split <;> exact (by assumption : map.entries.traverse f = _).symm

theorem traverse_eq_ok {ε : Type} {f : String → α → Except ε β} {map : SortedMap α}
    {result : SortedMap β} :
    map.traverse f = .ok result ↔ map.entries.traverse f = .ok result.entries := by
  rw [← map_entries_traverse, Except.map_eq_ok]
  constructor
  · exact fun h => ⟨result, h, rfl⟩
  · rintro ⟨made, hmade, hentries⟩
    rw [hmade, ext hentries]

theorem failure?_traverse {ε : Type} (f : String → α → Except ε β) (map : SortedMap α) :
    Except.failure? (map.traverse f)
      = map.entries.findSome? fun entry => Except.failure? (f entry.1 entry.2) := by
  rw [← Entries.failure?_traverse, ← map_entries_traverse, Except.failure?_map]

end SortedMap

end EntityQuery
