import Mathlib.Tactic

/-!
# Flags that events set and clear

A flag of a system that takes step after step is a latch: in every step it is set, or cleared, or
stays as it is, and a step that does both leaves it set.  So its value is a matter of history.
-/

set_option autoImplicit false

namespace Xeros.Foundations

variable {on set clear : ℕ → Prop} {m n k : ℕ}

/-- From step `m` to step `n`, the flag `on` is set by `set` and cleared by `clear`. -/
def Latch (on set clear : ℕ → Prop) (m n : ℕ) : Prop :=
  ∀ k, m ≤ k → k < n → (on (k + 1) ↔ set k ∨ on k ∧ ¬ clear k)

/-- The flag was set in the steps from `m` on, and not cleared since. -/
def SetSince (set clear : ℕ → Prop) (m n : ℕ) : Prop :=
  ∃ k, m ≤ k ∧ k < n ∧ set k ∧ ∀ j, k < j → j < n → ¬ clear j

namespace Latch

theorem mono (h : Latch on set clear m n) (hmk : m ≤ k) : Latch on set clear k n :=
  fun j hj hjn => h j (hmk.trans hj) hjn

theorem before (h : Latch on set clear m n) (hkn : k ≤ n) : Latch on set clear m k :=
  fun j hj hjk => h j hj (by omega)

/-- The flag is on when it was set and not cleared since, or was on at first and never cleared. -/
theorem on_iff (h : Latch on set clear m n) (hmn : m ≤ n) :
    on n ↔ SetSince set clear m n ∨ on m ∧ ∀ j, m ≤ j → j < n → ¬ clear j := by
  induction n, hmn using Nat.le_induction with
  | base =>
    constructor
    · intro hon
      exact .inr ⟨hon, fun j hj hjm => absurd hjm (by omega)⟩
    · rintro (⟨k, hk, hkm, -⟩ | ⟨hon, -⟩)
      · omega
      · exact hon
  | succ n hmn ih =>
    rw [h n hmn n.lt_succ_self, ih (h.before n.le_succ)]
    constructor
    · rintro (hset | ⟨⟨k, hk, hkn, hset, hno⟩ | ⟨hon, hno⟩, hn⟩)
      · exact .inl ⟨n, hmn, n.lt_succ_self, hset, fun j hj hjn => absurd hjn (by omega)⟩
      · refine .inl ⟨k, hk, by omega, hset, fun j hj hjn => ?_⟩
        rcases Nat.lt_succ_iff_lt_or_eq.mp hjn with hlt | rfl
        · exact hno j hj hlt
        · exact hn
      · refine .inr ⟨hon, fun j hj hjn => ?_⟩
        rcases Nat.lt_succ_iff_lt_or_eq.mp hjn with hlt | rfl
        · exact hno j hj hlt
        · exact hn
    · rintro (⟨k, hk, hkn, hset, hno⟩ | ⟨hon, hno⟩)
      · rcases Nat.lt_succ_iff_lt_or_eq.mp hkn with hlt | rfl
        · refine .inr ⟨.inl ⟨k, hk, hlt, hset, fun j hj hjn => hno j hj (by omega)⟩, ?_⟩
          exact hno n hlt n.lt_succ_self
        · exact .inl hset
      · exact .inr ⟨.inr ⟨hon, fun j hj hjn => hno j hj (by omega)⟩, hno n hmn n.lt_succ_self⟩

/-- A flag that was off at first is on exactly when it was set and not cleared since. -/
theorem on_iff_setSince (h : Latch on set clear m n) (hmn : m ≤ n) (hoff : ¬ on m) :
    on n ↔ SetSince set clear m n := by
  rw [h.on_iff hmn]
  simp [hoff]

/-- A flag that was on at first is on exactly when every clearing was followed by a setting. -/
theorem on_iff_answered (h : Latch on set clear m n) (hmn : m ≤ n) (hon : on m) :
    on n ↔ ∀ j, m ≤ j → j < n → clear j → ∃ k, j ≤ k ∧ k < n ∧ set k := by
  constructor
  · intro hn j hmj hjn hclear
    rcases ((h.mono hmj).on_iff hjn.le).mp hn with ⟨k, hjk, hkn, hset, -⟩ | ⟨-, hno⟩
    · exact ⟨k, hjk, hkn, hset⟩
    · exact absurd hclear (hno j le_rfl hjn)
  · intro hanswered
    by_contra hoff
    -- the last clearing would have no answer
    obtain ⟨j, hmj, hjn, hclear, hno⟩ : ∃ j, m ≤ j ∧ j < n ∧ clear j ∧
        ∀ k, j ≤ k → k < n → ¬ set k := by
      clear hanswered
      induction n, hmn using Nat.le_induction with
      | base => exact absurd hon hoff
      | succ n hmn ih =>
        rw [h n hmn n.lt_succ_self] at hoff
        simp only [not_or, not_and, not_not] at hoff
        obtain ⟨hset, hclear⟩ := hoff
        by_cases hn : on n
        · refine ⟨n, hmn, n.lt_succ_self, hclear hn, fun k hk hkn => ?_⟩
          obtain rfl : k = n := by omega
          exact hset
        · obtain ⟨j, hmj, hjn, hcj, hno⟩ := ih (h.before n.le_succ) hn
          refine ⟨j, hmj, by omega, hcj, fun k hk hkn => ?_⟩
          rcases Nat.lt_succ_iff_lt_or_eq.mp hkn with hlt | rfl
          · exact hno k hk hlt
          · exact hset
    obtain ⟨k, hjk, hkn, hset⟩ := hanswered j hmj hjn hclear
    exact hno k hjk hkn hset

end Latch

end Xeros.Foundations
