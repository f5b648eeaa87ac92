/-!
# Results that agree

Two ways of reading the same thing may find different faults in it first. They agree if both fail
or both succeed with the same value. Composed ways agree if their parts do.
-/

namespace MessageFormat

variable {ε δ α β : Type}

theorem ok_bind (a : α) (f : α → Except ε β) : (Except.ok a >>= f) = f a := rfl

theorem mapError_ok (a : α) (f : ε → δ) : (Except.ok a : Except ε α).mapError f = .ok a := rfl

theorem bind_eq_ok {x : Except ε α} {f : α → Except ε β} {b : β} :
    (x >>= f) = .ok b ↔ ∃ a, x = .ok a ∧ f a = .ok b := by
  cases x with
  | error e => simp [bind, Except.bind]
  | ok a => simp [bind, Except.bind]

theorem map_eq_ok {x : Except ε α} {f : α → β} {b : β} :
    x.map f = .ok b ↔ ∃ a, x = .ok a ∧ f a = b := by
  cases x with
  | error e => simp [Except.map]
  | ok a => simp [Except.map]

theorem bind_eq_error {x : Except ε α} {f : α → Except ε β} {e : ε} :
    (x >>= f) = .error e ↔ x = .error e ∨ ∃ a, x = .ok a ∧ f a = .error e := by
  cases x with
  | error e => simp [bind, Except.bind]
  | ok a => simp [bind, Except.bind]

theorem map_eq_error {x : Except ε α} {f : α → β} {e : ε} :
    x.map f = .error e ↔ x = .error e := by
  cases x <;> simp [Except.map]

theorem mapError_eq_ok {x : Except ε α} {f : ε → δ} {a : α} :
    x.mapError f = .ok a ↔ x = .ok a := by
  cases x with
  | error e =>
    constructor <;> intro h <;> cases h
  | ok b =>
    constructor
    · intro h
      cases h
      rfl
    · intro h
      rw [h, mapError_ok]

theorem toOption_eq_some {x : Except ε α} {a : α} : x.toOption = some a ↔ x = .ok a := by
  cases x <;> simp [Except.toOption]

/-- Both results are failures or both are the same value. -/
def Agree (x : Except ε α) (y : Except δ α) : Prop :=
  x.toOption = y.toOption

namespace Agree

theorem ok (a : α) : Agree (.ok a : Except ε α) (.ok a : Except δ α) := rfl

theorem error (e : ε) (d : δ) : Agree (.error e : Except ε α) (.error d : Except δ α) := rfl

theorem of_eq {x y : Except ε α} (h : x = y) : Agree x y :=
  congrArg Except.toOption h

theorem bind {x : Except ε α} {y : Except δ α} {f : α → Except ε β} {g : α → Except δ β}
    (h : Agree x y) (hf : ∀ a, Agree (f a) (g a)) : Agree (x >>= f) (y >>= g) := by
  cases x with
  | error e =>
    cases y with
    | error d => rfl
    | ok b => cases h
  | ok a =>
    cases y with
    | error d => cases h
    | ok b =>
      cases h
      exact hf a

theorem map {x : Except ε α} {y : Except δ α} (f : α → β) (h : Agree x y) :
    Agree (x.map f) (y.map f) :=
  h.bind fun a => ok (f a)

theorem mapError_left {ζ : Type} {x : Except ε α} {y : Except δ α} (f : ε → ζ) (h : Agree x y) :
    Agree (x.mapError f) y := by
  cases x <;> exact h

theorem mapError_right {ζ : Type} {x : Except ε α} {y : Except δ α} (f : δ → ζ) (h : Agree x y) :
    Agree x (y.mapError f) := by
  cases y <;> exact h

theorem eq_ok {x : Except ε α} {a : α} (h : Agree x (.ok a : Except δ α)) : x = .ok a := by
  cases x with
  | error e => cases h
  | ok b =>
    cases h
    rfl

end Agree

end MessageFormat
