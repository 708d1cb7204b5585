import EntityQuery.Json.Fault

/-!
# Json/Scan — reading a piece off the front of a text

A scan either reads a value and leaves the rest of the text, or breaks off. When it breaks off, a
reader that wants the value and one that passes over it may notice different things.
`Scan.Within` says that the rest is no longer than a given text, and the scanners of this library
all leave a rest within what they were given.
-/

namespace EntityQuery

/-- The outcome of reading a piece off the front of a text. -/
inductive Scan (α : Type) where
  /-- The piece and the rest of the text. -/
  | read (value : α) (rest : List Char)
  /-- What a reader of the piece notices, and what one notices who passes over it. -/
  | broken (fault skipped : Fault)

namespace Scan

variable {α β : Type}

/-- Breaks off with the same fault for every reader. -/
def fail (fault : Fault) : Scan α := .broken fault fault

/-- Reads on in the rest. -/
def bind (scan : Scan α) (next : α → List Char → Scan β) : Scan β :=
  match scan with
  | .read value rest => next value rest
  | .broken fault skipped => .broken fault skipped

/-- Changes the value. -/
def map (f : α → β) (scan : Scan α) : Scan β :=
  scan.bind fun value rest => .read (f value) rest

/-- The rest, if there is one, is no longer than so many characters. -/
def Within (scan : Scan α) (bound : Nat) : Prop :=
  match scan with
  | .read _ rest => rest.length ≤ bound
  | .broken _ _ => True

@[simp] theorem within_read (value : α) (rest : List Char) (bound : Nat) :
    (Scan.read value rest).Within bound ↔ rest.length ≤ bound := Iff.rfl

theorem Within.mono {scan : Scan α} {bound bound' : Nat} (h : scan.Within bound)
    (hb : bound ≤ bound') : scan.Within bound' := by
  cases scan with
  | read value rest => exact Nat.le_trans h hb
  | broken => trivial

theorem Within.bind {scan : Scan α} {bound : Nat} (h : scan.Within bound)
    {next : α → List Char → Scan β}
    (hn : ∀ value rest, rest.length ≤ bound → (next value rest).Within bound) :
    (scan.bind next).Within bound := by
  cases scan with
  | read value rest => exact hn value rest h
  | broken => trivial

theorem Within.map {scan : Scan α} {bound : Nat} (h : scan.Within bound) (f : α → β) :
    (scan.map f).Within bound :=
  h.bind fun _ _ hr => hr

end Scan

end EntityQuery
