import Mathlib.Order.Basic

/-!
# Loops with fuel

A loop by recursion on its fuel, on states with a size. When every round
returns or leads on to a smaller state, fuel as large as the size suffices:
more of it changes nothing, and the loop ends as its last round does.
-/

namespace FuelledLoop

variable {σ β : Type*}

/-- A round returns a result that is good for its state, or goes on with a
smaller state for which no other results are good. -/
def Decreasing (loop : ℕ → σ → β) (size : σ → ℕ) (Good : σ → β → Prop) : Prop :=
  ∀ x, (∃ result, Good x result ∧ ∀ fuel, size x ≤ fuel → loop fuel x = result) ∨
    ∃ y, size y < size x ∧ (∀ result, Good y result → Good x result) ∧
      ∀ fuel, loop (fuel + 1) x = loop fuel y

variable {loop : ℕ → σ → β} {size : σ → ℕ} {Good : σ → β → Prop}

section Rounds

variable (loop size Good)

/-- A round by the fuel that is left for later ones. It does not look at the
fuel: it returns a good result, or hands the fuel on to a smaller state. -/
def Round (x : σ) (round : ℕ → β) : Prop :=
  (∃ result, Good x result ∧ ∀ fuel, round fuel = result) ∨
    ∃ y, size y < size x ∧ (∀ result, Good y result → Good x result) ∧
      ∀ fuel, round fuel = loop fuel y

end Rounds

theorem Round.ends {x : σ} {result : β} (h : Good x result) :
    Round loop size Good x fun _ => result :=
  Or.inl ⟨result, h, fun _ => rfl⟩

theorem Round.goesOn {x y : σ} (hsmaller : size y < size x)
    (hmono : ∀ result, Good y result → Good x result) :
    Round loop size Good x fun fuel => loop fuel y :=
  Or.inr ⟨y, hsmaller, hmono, fun _ => rfl⟩

theorem Round.ite {x : σ} {c : Prop} [Decidable c] {first second : ℕ → β}
    (hfirst : c → Round loop size Good x first) (hsecond : ¬c → Round loop size Good x second) :
    Round loop size Good x fun fuel => if c then first fuel else second fuel := by
  by_cases hc : c
  · simp only [if_pos hc]
    exact hfirst hc
  · simp only [if_neg hc]
    exact hsecond hc

/-- A loop whose last round takes fuel as well. -/
theorem Decreasing.of_rounds (hpos : ∀ x, 0 < size x)
    (h : ∀ x, Round loop size Good x fun fuel => loop (fuel + 1) x) :
    Decreasing loop size Good := by
  intro x
  rcases h x with ⟨result, hgood, hends⟩ | hgoes
  · refine Or.inl ⟨result, hgood, fun fuel hfuel => ?_⟩
    have hsome := hpos x
    obtain ⟨fuel, rfl⟩ := Nat.exists_eq_add_one_of_ne_zero (show fuel ≠ 0 by omega)
    exact hends fuel
  · exact Or.inr hgoes

/-- Two amounts of fuel that suffice give the same result. -/
theorem Decreasing.congr (h : Decreasing loop size Good) {x : σ} {fuel₁ fuel₂ : ℕ}
    (h₁ : size x ≤ fuel₁) (h₂ : size x ≤ fuel₂) : loop fuel₁ x = loop fuel₂ x := by
  induction fuel₁ generalizing x fuel₂ with
  | zero =>
    rcases h x with ⟨result, _, hends⟩ | ⟨y, hsmaller, _⟩
    · rw [hends 0 h₁, hends fuel₂ h₂]
    · omega
  | succ fuel₁ ih =>
    rcases h x with ⟨result, _, hends⟩ | ⟨y, hsmaller, _, hgoes⟩
    · rw [hends _ h₁, hends fuel₂ h₂]
    · obtain ⟨fuel₂, rfl⟩ := Nat.exists_eq_add_one_of_ne_zero (show fuel₂ ≠ 0 by omega)
      rw [hgoes, hgoes]
      exact ih (by omega) (by omega)

/-- With fuel that suffices the result is good. -/
theorem Decreasing.good (h : Decreasing loop size Good) {x : σ} {fuel : ℕ}
    (hfuel : size x ≤ fuel) : Good x (loop fuel x) := by
  induction fuel generalizing x with
  | zero =>
    rcases h x with ⟨result, hgood, hends⟩ | ⟨y, hsmaller, _⟩
    · rw [hends 0 hfuel]
      exact hgood
    · omega
  | succ fuel ih =>
    rcases h x with ⟨result, hgood, hends⟩ | ⟨y, hsmaller, hmono, hgoes⟩
    · rw [hends _ hfuel]
      exact hgood
    · rw [hgoes]
      exact hmono _ (ih (by omega))

end FuelledLoop
