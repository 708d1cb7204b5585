/-!
# Entries — named values in the order their names first appeared

A document lists named values; a name written again replaces the value and keeps its place.
`Entries.put` is that rule, `Entries.ofList` applies it from left to right, and `get?` reads back:
`get?_put_self` and `get?_put_of_ne` say that writing one name changes that name only, and
`names_put` that a known name keeps its place and a new one goes last.
`Entries.traverse` visits the values in order with a function that may fail.
-/

namespace EntityQuery

/-- Named values, in the order the names first appeared. -/
abbrev Entries (α : Type) : Type := List (String × α)

namespace Entries

variable {α β : Type}

/-- The value under a name. -/
def get? (entries : Entries α) (name : String) : Option α :=
  entries.lookup name

/-- The names, in order. -/
def names (entries : Entries α) : List String :=
  entries.map Prod.fst

/-- Gives a name a value — in place when the name is known, at the end when it is new. -/
def put : Entries α → String → α → Entries α
  | [], name, value => [(name, value)]
  | entry :: rest, name, value =>
      if entry.1 = name then (name, value) :: rest else entry :: put rest name value

/-- Puts pairs one after the other, so the last value of a name stands in its first place. -/
def ofList (pairs : List (String × α)) : Entries α :=
  pairs.foldl (fun entries pair => put entries pair.1 pair.2) []

/-- Applies a function to every value. -/
def mapValues (f : α → β) (entries : Entries α) : Entries β :=
  entries.map fun entry => (entry.1, f entry.2)

/-- Applies a function that may fail to every name and value, in order. -/
def traverse {ε : Type} (f : String → α → Except ε β) : Entries α → Except ε (Entries β)
  | [] => .ok []
  | entry :: rest => do
      let value ← f entry.1 entry.2
      let values ← traverse f rest
      .ok ((entry.1, value) :: values)

/-! ## Reading after writing -/

@[simp] theorem get?_nil (name : String) : get? ([] : Entries α) name = none := rfl

theorem get?_cons (entry : String × α) (rest : Entries α) (name : String) :
    get? (entry :: rest) name = if entry.1 = name then some entry.2 else get? rest name := by
  obtain ⟨key, value⟩ := entry
  by_cases h : key = name
  · simp [get?, h]
  · have : (name == key) = false := by simpa using fun e : name = key => h e.symm
    simp [get?, List.lookup_cons, h, this]

@[simp] theorem get?_put_self (entries : Entries α) (name : String) (value : α) :
    get? (put entries name value) name = some value := by
  induction entries with
  | nil => simp [put, get?]
  | cons entry rest ih => by_cases h : entry.1 = name <;> simp [put, get?_cons, h, ih]

theorem get?_put_of_ne (entries : Entries α) {name other : String} (value : α) (h : name ≠ other) :
    get? (put entries name value) other = get? entries other := by
  induction entries with
  | nil => simp [put, get?_cons, h]
  | cons entry rest ih =>
    by_cases hn : entry.1 = name
    · have ho : entry.1 ≠ other := fun e => h (hn ▸ e)
      simp [put, hn, get?_cons, h]
    · by_cases ho : entry.1 = other
      · have hne : ¬ other = name := fun e => hn (ho.trans e)
        simp [put, get?_cons, ho, hne]
      · simp [put, hn, get?_cons, ho, ih]

/-! ## The order of the names -/

@[simp] theorem names_nil : names ([] : Entries α) = [] := rfl

@[simp] theorem names_cons (entry : String × α) (rest : Entries α) :
    names (entry :: rest) = entry.1 :: names rest := rfl

theorem names_put (entries : Entries α) (name : String) (value : α) :
    names (put entries name value) =
      if name ∈ names entries then names entries else names entries ++ [name] := by
  induction entries with
  | nil => simp [put]
  | cons entry rest ih =>
    by_cases h : entry.1 = name
    · simp [put, h]
    · have hn : ¬ name = entry.1 := fun e => h e.symm
      by_cases hr : name ∈ names rest <;> simp [put, h, hn, hr, ih]

theorem nodup_names_put {entries : Entries α} (h : (names entries).Nodup) (name : String)
    (value : α) : (names (put entries name value)).Nodup := by
  rw [names_put]
  split
  · exact h
  · rename_i hn
    exact List.nodup_append.2 ⟨h, by simp, fun a ha b hb => by
      rintro rfl
      exact hn (by simpa [List.mem_singleton.1 hb] using ha)⟩

/-- No name stands twice among entries put one after the other. -/
theorem nodup_names_ofList (pairs : List (String × α)) : (names (ofList pairs)).Nodup := by
  have step : ∀ (pairs : List (String × α)) (entries : Entries α), (names entries).Nodup →
      (names (pairs.foldl (fun entries pair => put entries pair.1 pair.2) entries)).Nodup := by
    intro pairs
    induction pairs with
    | nil => exact fun _ h => h
    | cons pair rest ih => exact fun _ h => ih _ (nodup_names_put h _ _)
  exact step pairs [] List.nodup_nil

theorem names_traverse {ε : Type} {f : String → α → Except ε β} :
    ∀ {entries : Entries α} {values : Entries β}, traverse f entries = .ok values →
      names values = names entries
  | [], values, h => by cases h; rfl
  | entry :: rest, values, h => by
      unfold traverse at h
      cases hv : f entry.1 entry.2 with
      | error e => simp [hv, bind, Except.bind] at h
      | ok value =>
        cases hr : traverse f rest with
        | error e => simp [hv, hr, bind, Except.bind] at h
        | ok others =>
          simp only [hv, hr, bind, Except.bind, Except.ok.injEq] at h
          simp [← h, names_traverse hr]

end Entries

end EntityQuery
