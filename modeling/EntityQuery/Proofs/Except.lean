import Mathlib.Data.List.Forall2

/-!
# Proofs/Except — computations that may fail, from the side of their results

A compiler is a chain of steps of which each may fail.  `bind_eq_ok` and `map_eq_ok` take a chain
that succeeded apart, and `mapM_map_right` moves what is done with every result out of a traversal.
`failure?` is the other side: a traversal fails as its first item that fails (`failure?_mapM`).
-/

namespace EntityQuery.Except

variable {ε α β γ : Type}

/-- A chain succeeds exactly when both of its steps do. -/
theorem bind_eq_ok {x : Except ε α} {f : α → Except ε β} {b : β} :
    x >>= f = .ok b ↔ ∃ a, x = .ok a ∧ f a = .ok b := by
  cases x with
  | error e =>
    constructor
    · rintro ⟨⟩
    · rintro ⟨_, ⟨⟩, _⟩
  | ok a =>
    constructor
    · exact fun h => ⟨a, rfl, h⟩
    · rintro ⟨_, ⟨⟩, h⟩
      exact h

/-- A chain fails where its first step does, or its second one. -/
theorem bind_eq_error {x : Except ε α} {f : α → Except ε β} {error : ε} :
    x >>= f = .error error ↔ x = .error error ∨ ∃ a, x = .ok a ∧ f a = .error error := by
  cases x with
  | error e =>
    constructor
    · exact fun h => .inl (congrArg _ (Except.error.inj h))
    · rintro (h | ⟨_, ⟨⟩, _⟩)
      exact congrArg _ (Except.error.inj h)
  | ok a =>
    constructor
    · exact fun h => .inr ⟨a, rfl, h⟩
    · rintro (h | ⟨_, ha, h⟩)
      · exact nomatch h
      · obtain rfl := Except.ok.inj ha
        exact h

/-- A result that is mapped is the image of a result. -/
theorem map_eq_ok {x : Except ε α} {f : α → β} {b : β} :
    x.map f = .ok b ↔ ∃ a, x = .ok a ∧ f a = b := by
  cases x with
  | error e =>
    constructor
    · rintro ⟨⟩
    · rintro ⟨_, ⟨⟩, _⟩
  | ok a =>
    constructor
    · exact fun h => ⟨a, rfl, Except.ok.inj h⟩
    · rintro ⟨_, ⟨⟩, rfl⟩
      rfl

theorem map_eq_error {x : Except ε α} {f : α → β} {error : ε} :
    x.map f = .error error ↔ x = .error error := by
  rcases x with e | a
  · exact ⟨fun h => congrArg _ (Except.error.inj h), fun h => congrArg _ (Except.error.inj h)⟩
  · exact ⟨nofun, nofun⟩

theorem exists_map_eq_ok {x : Except ε α} {f : α → β} :
    (∃ b, x.map f = .ok b) ↔ ∃ a, x = .ok a := by
  rcases x with e | a
  · exact ⟨nofun, nofun⟩
  · exact ⟨fun _ => ⟨a, rfl⟩, fun _ => ⟨f a, rfl⟩⟩

theorem mapError_eq_ok {x : Except ε α} {f : ε → γ} {a : α} :
    x.mapError f = .ok a ↔ x = .ok a := by
  rcases x with e | b
  · exact ⟨nofun, nofun⟩
  · exact ⟨fun h => congrArg _ (Except.ok.inj h), fun h => congrArg _ (Except.ok.inj h)⟩

/-- An error that is mapped is the image of an error. -/
theorem mapError_eq_error {x : Except ε α} {f : ε → γ} {error : γ} :
    x.mapError f = .error error ↔ ∃ e, x = .error e ∧ f e = error := by
  rcases x with e | a
  · exact ⟨fun h => ⟨e, rfl, Except.error.inj h⟩, by rintro ⟨_, ⟨⟩, rfl⟩; rfl⟩
  · exact ⟨nofun, nofun⟩

/-- Results and errors can be changed in any order. -/
theorem mapError_map (f : α → β) (g : ε → γ) (x : Except ε α) :
    (x.map f).mapError g = (x.mapError g).map f := by
  rcases x <;> rfl

/-- A traversal begins with its first item. -/
theorem mapM_cons (f : α → Except ε β) (a : α) (rest : List α) :
    (a :: rest).mapM f = (f a >>= fun b => (rest.mapM f).map (b :: ·)) := by
  rw [List.mapM_cons]
  cases f a <;> rfl

/-- Traversals that succeed can be done one after the other. -/
theorem mapM_append {f : α → Except ε β} {first second : List α} {results others : List β}
    (h : first.mapM f = .ok results) (hothers : second.mapM f = .ok others) :
    (first ++ second).mapM f = .ok (results ++ others) := by
  rw [List.mapM_append, h, hothers]
  rfl

/-- What is done with every result can be done in the end. -/
theorem mapM_map_right (f : α → Except ε β) (g : β → γ) (items : List α) :
    (items.mapM fun a => (f a).map g) = (items.mapM f).map (List.map g) := by
  induction items with
  | nil => rfl
  | cons a rest ih =>
    rw [mapM_cons, mapM_cons, ih]
    cases f a with
    | error e => rfl
    | ok b => cases rest.mapM f <;> rfl

/-- A traversal that succeeds gives every item its result. -/
theorem map_of_mapM {f : α → Except ε β} {g : α → β} (hg : ∀ a b, f a = .ok b → g a = b) :
    ∀ {items : List α} {results : List β}, items.mapM f = .ok results → items.map g = results
  | [], results, h => by
      cases h
      rfl
  | a :: rest, results, h => by
      rw [mapM_cons] at h
      obtain ⟨b, hb, h⟩ := bind_eq_ok.mp h
      obtain ⟨others, hothers, rfl⟩ := map_eq_ok.mp h
      rw [List.map_cons, hg a b hb, map_of_mapM hg hothers]

/-- A traversal that succeeds gives as many results as there are items. -/
theorem length_of_mapM {f : α → Except ε β} :
    ∀ {items : List α} {results : List β}, items.mapM f = .ok results →
      results.length = items.length
  | [], _, h => by
      cases h
      rfl
  | a :: rest, _, h => by
      rw [mapM_cons] at h
      obtain ⟨b, -, h⟩ := bind_eq_ok.mp h
      obtain ⟨others, hothers, rfl⟩ := map_eq_ok.mp h
      rw [List.length_cons, List.length_cons, length_of_mapM hothers]

/-- A traversal succeeds with the results of its items. -/
theorem mapM_eq_ok_iff {f : α → Except ε β} {items : List α} {results : List β} :
    items.mapM f = .ok results ↔ List.Forall₂ (fun a b => f a = .ok b) items results := by
  induction items generalizing results with
  | nil =>
    rw [List.forall₂_nil_left_iff]
    exact ⟨fun h => (Except.ok.inj h).symm, fun h => h ▸ rfl⟩
  | cons a rest ih =>
    rw [mapM_cons, List.forall₂_cons_left_iff, bind_eq_ok]
    simp only [map_eq_ok, ih]
    constructor
    · rintro ⟨b, hb, others, hothers, rfl⟩
      exact ⟨b, others, hb, hothers, rfl⟩
    · rintro ⟨b, others, hb, hothers, rfl⟩
      exact ⟨b, hb, others, hothers, rfl⟩

/-- A traversal of items that all have a result. -/
theorem mapM_map_eq_ok {f : β → Except ε γ} {g : α → β} {k : α → γ}
    (h : ∀ a, f (g a) = .ok (k a)) (items : List α) :
    (items.map g).mapM f = .ok (items.map k) := by
  rw [mapM_eq_ok_iff, List.forall₂_map_left_iff, List.forall₂_map_right_iff]
  exact List.forall₂_same.mpr fun a _ => h a

/-- Every result of a traversal is the result of an item. -/
theorem exists_of_mem_mapM {f : α → Except ε β} :
    ∀ {items : List α} {results : List β}, items.mapM f = .ok results →
      ∀ b ∈ results, ∃ a ∈ items, f a = .ok b
  | [], _, h, _, hb => by
      cases h
      exact nomatch hb
  | a :: rest, _, h, b, hb => by
      rw [mapM_cons] at h
      obtain ⟨first, hfirst, h⟩ := bind_eq_ok.mp h
      obtain ⟨others, hothers, rfl⟩ := map_eq_ok.mp h
      rcases List.mem_cons.mp hb with rfl | hb
      · exact ⟨a, List.mem_cons_self, hfirst⟩
      · obtain ⟨item, hitem, hresult⟩ := exists_of_mem_mapM hothers b hb
        exact ⟨item, List.mem_cons_of_mem a hitem, hresult⟩

/-- Traversals over lists whose items correspond. -/
theorem mapM_eq_of_forall₂ {f : α → Except ε γ} {g : β → Except ε γ} {first : List α}
    {second : List β} (h : List.Forall₂ (fun a b => f a = g b) first second) :
    first.mapM f = second.mapM g := by
  induction h with
  | nil => rfl
  | cons hab _ ih => rw [mapM_cons, mapM_cons, hab, ih]

/-- Computations with the same image fail alike, or have results with the same image. -/
theorem map_eq_map {x y : Except ε α} {f : α → β} (h : x.map f = y.map f) :
    (∃ e, x = .error e ∧ y = .error e) ∨ ∃ a b, x = .ok a ∧ y = .ok b ∧ f a = f b := by
  match x, y, h with
  | .error e, .error _, rfl => exact .inl ⟨e, rfl, rfl⟩
  | .ok a, .ok b, h => exact .inr ⟨a, b, rfl, rfl, Except.ok.inj h⟩

/-! ## How a computation fails -/

/-- The error of a computation that fails. -/
def failure? : Except ε α → Option ε
  | .error e => some e
  | .ok _ => none

theorem failure?_eq_some {x : Except ε α} {error : ε} :
    failure? x = some error ↔ x = .error error := by
  rcases x with e | a
  · exact ⟨fun h => congrArg _ (Option.some.inj h), fun h => congrArg _ (Except.error.inj h)⟩
  · exact ⟨nofun, nofun⟩

/-- What does not fail gives a result. -/
theorem failure?_eq_none {x : Except ε α} : failure? x = none ↔ ∃ a, x = .ok a := by
  rcases x with e | a
  · exact ⟨nofun, nofun⟩
  · exact ⟨fun _ => ⟨a, rfl⟩, fun _ => rfl⟩

@[simp] theorem failure?_map (f : α → β) (x : Except ε α) : failure? (x.map f) = failure? x := by
  rcases x <;> rfl

/-- Of two computations one after the other, the first that fails decides. -/
theorem failure?_both (x : Except ε α) (y : Except ε β) (f : α → β → γ) :
    failure? (x >>= fun a => y.map (f a)) = (failure? x).or (failure? y) := by
  rcases x with e | a
  · rfl
  · exact failure?_map (f a) y

/-- **A traversal fails as its first item that fails.** -/
theorem failure?_mapM (f : α → Except ε β) (items : List α) :
    failure? (items.mapM f) = items.findSome? fun a => failure? (f a) := by
  induction items with
  | nil => rfl
  | cons a rest ih =>
    rw [mapM_cons, failure?_both, ih, List.findSome?_cons]
    rcases f a <;> rfl

theorem findSome?_filterMap (f : β → Option γ) (g : α → Option β) (items : List α) :
    (items.filterMap g).findSome? f = items.findSome? fun a => (g a).bind f := by
  induction items with
  | nil => rfl
  | cons a rest ih =>
    rw [List.filterMap_cons, List.findSome?_cons, ← ih]
    rcases g a with _ | b <;> rfl

/-- A search in lists one after the other ends in the first that has a hit. -/
theorem findSome?_flatMap (f : β → Option γ) (g : α → List β) (items : List α) :
    (items.flatMap g).findSome? f = items.findSome? fun a => (g a).findSome? f := by
  induction items with
  | nil => rfl
  | cons a rest ih =>
    rw [List.flatMap_cons, List.findSome?_append, List.findSome?_cons, ← ih]
    rcases (g a).findSome? f with _ | b <;> rfl

/-- A traversal succeeds exactly if every item has a result. -/
theorem exists_mapM_eq_ok {f : α → Except ε β} {items : List α} :
    (∃ results, items.mapM f = .ok results) ↔ ∀ a ∈ items, ∃ b, f a = .ok b := by
  rw [← failure?_eq_none, failure?_mapM, List.findSome?_eq_none_iff]
  simp only [failure?_eq_none]

theorem mapM_eq_error {f : α → Except ε β} {items : List α} {error : ε} :
    items.mapM f = .error error ↔ ∃ before a after, items = before ++ a :: after
      ∧ f a = .error error ∧ ∀ earlier ∈ before, ∃ b, f earlier = .ok b := by
  rw [← failure?_eq_some, failure?_mapM, List.findSome?_eq_some_iff]
  simp only [failure?_eq_some, failure?_eq_none]

end EntityQuery.Except
