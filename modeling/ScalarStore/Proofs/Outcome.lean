import Mathlib.Data.List.Forall2

/-! # Outcomes

A computation gives a value or a fault. What a composed computation gives is told by its parts. -/

namespace ScalarStore

variable {ε α β : Type}

/-- The fault of an outcome that is no value. -/
def fault? : Except ε α → Option ε
  | .ok _ => none
  | .error e => some e

theorem fault?_eq_some_iff {r : Except ε α} {e : ε} : fault? r = some e ↔ r = .error e := by
  cases r <;> simp [fault?]

theorem fault?_eq_none_iff {r : Except ε α} : fault? r = none ↔ ∃ a, r = .ok a := by
  cases r <;> simp [fault?]

theorem fault?_map (f : α → β) (r : Except ε α) : fault? (r.map f) = fault? r := by
  cases r <;> rfl

theorem map_eq_ok_iff {f : α → β} {r : Except ε α} {b : β} :
    r.map f = .ok b ↔ ∃ a, r = .ok a ∧ f a = b := by
  cases r <;> simp [Except.map]

theorem map_eq_error_iff {f : α → β} {r : Except ε α} {e : ε} :
    r.map f = .error e ↔ r = .error e := by
  cases r <;> simp [Except.map]

theorem mapError_eq_ok_iff {δ : Type} {f : ε → δ} {r : Except ε α} {a : α} :
    r.mapError f = .ok a ↔ r = .ok a := by
  cases r <;> simp [Except.mapError]

theorem ok_bind (a : α) (f : α → Except ε β) : (Except.ok a >>= f) = f a := rfl

theorem bind_eq_ok_iff {f : α → Except ε β} {r : Except ε α} {b : β} :
    (r >>= f) = .ok b ↔ ∃ a, r = .ok a ∧ f a = .ok b := by
  cases r <;> simp [bind, Except.bind]

theorem bind_eq_error_iff {f : α → Except ε β} {r : Except ε α} {e : ε} :
    (r >>= f) = .error e ↔ r = .error e ∨ ∃ a, r = .ok a ∧ f a = .error e := by
  cases r <;> simp [bind, Except.bind]

theorem toOption_eq_some_iff {r : Except ε α} {a : α} : r.toOption = some a ↔ r = .ok a := by
  cases r <;> simp [Except.toOption]

theorem mapM_eq_ok_iff {f : α → Except ε β} {xs : List α} {ys : List β} :
    xs.mapM f = .ok ys ↔ List.Forall₂ (fun x y => f x = .ok y) xs ys := by
  induction xs generalizing ys with
  | nil =>
      rw [List.mapM_nil]
      constructor
      · intro h
        cases h
        exact .nil
      · intro h
        cases h
        rfl
  | cons x xs ih =>
      rw [List.mapM_cons, bind_eq_ok_iff]
      constructor
      · rintro ⟨y, hy, h⟩
        obtain ⟨rest, hr, h⟩ := bind_eq_ok_iff.mp h
        cases h
        exact .cons hy (ih.mp hr)
      · intro h
        cases h with
        | cons hy hr => exact ⟨_, hy, bind_eq_ok_iff.mpr ⟨_, ih.mpr hr, rfl⟩⟩

/-! ## Outcomes of two runs -/

/-- Two outcomes match if both are values that are related, or both are one fault. -/
inductive Matched (R : α → β → Prop) : Except ε α → Except ε β → Prop
  | ok {a : α} {b : β} (h : R a b) : Matched R (.ok a) (.ok b)
  | error (e : ε) : Matched R (.error e) (.error e)

namespace Matched

variable {γ δ : Type} {R : α → β → Prop} {S : γ → δ → Prop} {x : Except ε α} {y : Except ε β}

theorem eq_or_eq (h : Matched R x y) :
    (∃ a b, x = .ok a ∧ y = .ok b ∧ R a b) ∨ ∃ e, x = .error e ∧ y = .error e := by
  cases h with
  | ok hab => exact .inl ⟨_, _, rfl, rfl, hab⟩
  | error e => exact .inr ⟨e, rfl, rfl⟩

theorem bind (h : Matched R x y) {f : α → Except ε γ} {g : β → Except ε δ}
    (hfg : ∀ a b, R a b → Matched S (f a) (g b)) : Matched S (x >>= f) (y >>= g) := by
  cases h with
  | ok hab => exact hfg _ _ hab
  | error e => exact .error e

theorem bind_eq (h : Matched R x y) {f : α → Except ε γ} {g : β → Except ε γ}
    (hfg : ∀ a b, R a b → g b = f a) : y >>= g = x >>= f := by
  cases h with
  | ok hab => exact hfg _ _ hab
  | error e => rfl

theorem map (h : Matched R x y) {f : α → γ} {g : β → δ} (hfg : ∀ a b, R a b → S (f a) (g b)) :
    Matched S (x.map f) (y.map g) := by
  cases h with
  | ok hab => exact .ok (hfg _ _ hab)
  | error e => exact .error e

end Matched

/-- A change of each outcome, in one of two runs, is a change of all of them together. -/
theorem mapM_eq_map {γ δ : Type} {R : α → β → Prop} {xs : List α} {ys : List β}
    (h : List.Forall₂ R xs ys) {f : α → Except ε γ} {g : β → Except ε δ} {change : γ → δ}
    (hfg : ∀ a b, R a b → g b = (f a).map change) :
    ys.mapM g = (xs.mapM f).map (List.map change) := by
  induction h with
  | nil => rfl
  | cons hab _ ih =>
      rw [List.mapM_cons, List.mapM_cons, hfg _ _ hab, ih]
      cases f _ with
      | error e => rfl
      | ok c =>
          cases List.mapM f _ with
          | error e => rfl
          | ok cs => rfl

end ScalarStore
