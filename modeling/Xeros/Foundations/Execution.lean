import Mathlib.Data.List.Basic
import Mathlib.Order.Interval.Finset.Nat
import Mathlib.Tactic

/-!
# Executions of a partial transition system

A system is a partial step function on states and inputs, with a condition on the inputs that the
environment may supply.  An `Execution` records its states and inputs up to a length; the states
and inputs beyond that are arbitrary.  `Execution.invariant` is the induction every result about
whole runs is an instance of, and `exists_execution` builds executions from lists of inputs.
-/

set_option autoImplicit false

namespace Xeros.Foundations

variable {σ ι : Type} {step : σ → ι → Option σ} {allowed : σ → ι → Prop}

/-- A run: `state n` and `input n` give `state (n + 1)`, for every `n` below `len`. -/
structure Execution (step : σ → ι → Option σ) (allowed : σ → ι → Prop) where
  state : ℕ → σ
  input : ℕ → ι
  len : ℕ
  allows : ∀ n < len, allowed (state n) (input n)
  next : ∀ n < len, step (state n) (input n) = some (state (n + 1))

namespace Execution

variable (e : Execution step allowed)

/-- What holds at `m` and is kept by every step from there to `n` holds at `n`. -/
theorem invariant {I : ℕ → Prop} {m n : ℕ} (hmn : m ≤ n) (hn : n ≤ e.len) (h0 : I m)
    (hstep : ∀ k, m ≤ k → k < n → allowed (e.state k) (e.input k) →
      step (e.state k) (e.input k) = some (e.state (k + 1)) → I k → I (k + 1)) : I n := by
  induction n, hmn using Nat.le_induction with
  | base => exact h0
  | succ k hk ih =>
    refine hstep k hk k.lt_succ_self (e.allows k hn) (e.next k hn) (ih (by omega) ?_)
    exact fun j hj hjk => hstep j hj (by omega)

/-- When the invariant `P`, which is stronger than `R`, is kept by the steps that meet the condition
`C`, and only these lead to `R`, then `R` holds in all states up to `n` exactly if all steps before
meet it. -/
theorem always_iff {P R : σ → Prop} {C : σ → ι → Prop} {n : ℕ} (hn : n ≤ e.len)
    (h0 : P (e.state 0)) (hPR : ∀ s, P s → R s)
    (hkeep : ∀ k < e.len, P (e.state k) → C (e.state k) (e.input k) → P (e.state (k + 1)))
    (honly : ∀ k < e.len, P (e.state k) → R (e.state (k + 1)) → C (e.state k) (e.input k)) :
    (∀ k ≤ n, R (e.state k)) ↔ ∀ k < n, C (e.state k) (e.input k) := by
  constructor
  · intro h
    have hboth : ∀ m ≤ n, P (e.state m) ∧ ∀ k < m, C (e.state k) (e.input k) := by
      intro m hm
      induction m with
      | zero => exact ⟨h0, fun k hk => absurd hk (Nat.not_lt_zero k)⟩
      | succ m ih =>
        obtain ⟨hP, hC⟩ := ih (by omega)
        have hCm := honly m (by omega) hP (h (m + 1) hm)
        refine ⟨hkeep m (by omega) hP hCm, fun k hk => ?_⟩
        rcases Nat.lt_succ_iff_lt_or_eq.mp hk with hlt | rfl
        · exact hC k hlt
        · exact hCm
    exact (hboth n le_rfl).2
  · intro h k hk
    apply hPR
    induction k with
    | zero => exact h0
    | succ k ih => exact hkeep k (by omega) (ih (by omega)) (h k hk)

/-- The number of steps from `m` up to, not including, `n` whose input satisfies `p`. -/
def count (p : ι → Prop) [DecidablePred p] (m n : ℕ) : ℕ :=
  ((List.range' m (n - m)).filter fun k => p (e.input k)).length

/-- An execution is one under any weaker condition on the inputs. -/
def mono {allowed' : σ → ι → Prop} (h : ∀ s i, allowed s i → allowed' s i) :
    Execution step allowed' :=
  ⟨e.state, e.input, e.len, fun n hn => h _ _ (e.allows n hn), e.next⟩

variable {p : ι → Prop} [DecidablePred p]

@[simp] theorem count_self (m : ℕ) : e.count p m m = 0 := by
  simp [count]

theorem count_succ {m n : ℕ} (h : m ≤ n) :
    e.count p m (n + 1) = e.count p m n + if p (e.input n) then 1 else 0 := by
  have hlen : n + 1 - m = (n - m) + 1 := by omega
  unfold count
  rw [hlen, List.range'_concat, List.filter_append, List.length_append]
  have hlast : m + 1 * (n - m) = n := by omega
  rw [hlast]
  split_ifs with hp <;> simp [hp]

/-- A quantity that no step increases, and every step that is counted decreases, bounds the count. -/
theorem count_le {f : ℕ → ℕ} {m n : ℕ} (hmn : m ≤ n)
    (hf : ∀ k, m ≤ k → k < n → f (k + 1) + (if p (e.input k) then 1 else 0) ≤ f k) :
    e.count p m n + f n ≤ f m := by
  induction n, hmn using Nat.le_induction with
  | base =>
    rw [count_self]
    omega
  | succ n hn ih =>
    have hstep := hf n hn n.lt_succ_self
    have hbefore := ih fun k hk hkn => hf k hk (by omega)
    rw [count_succ e hn]
    omega

end Execution

/-- Let the environment choose inputs by looking at the state, and check that all of them are
allowed and that the `k`-th state passes the test `f k`. -/
def checkRun (step : σ → ι → Option σ) (allowed : σ → ι → Prop) [∀ s i, Decidable (allowed s i)]
    (f : ℕ → σ → Bool) : ℕ → σ → List (σ → ι) → Bool
  | k, s, [] => f k s
  | k, s, i :: l =>
    f k s && (decide (allowed s (i s)) && match step s (i s) with
      | none => false
      | some s' => checkRun step allowed f (k + 1) s' l)

/-- Choices that pass the check make an execution. -/
theorem exists_execution [∀ s i, Decidable (allowed s i)] (i0 : ι) {f : ℕ → σ → Bool} {s : σ}
    {l : List (σ → ι)} {k : ℕ} (h : checkRun step allowed f k s l = true) :
    ∃ e : Execution step allowed, e.state 0 = s ∧ e.len = l.length ∧
      (∀ n i, l[n]? = some i → e.input n = i (e.state n)) ∧
      ∀ n ≤ l.length, f (k + n) (e.state n) = true := by
  induction l generalizing s k with
  | nil =>
    refine ⟨⟨fun _ => s, fun _ => i0, 0, fun _ hn => absurd hn (Nat.not_lt_zero _),
      fun _ hn => absurd hn (Nat.not_lt_zero _)⟩, rfl, rfl, fun n i hi => by simp at hi,
      fun n hn => ?_⟩
    obtain rfl := Nat.le_zero.mp hn
    exact h
  | cons i l ih =>
    unfold checkRun at h
    rw [Bool.and_eq_true, Bool.and_eq_true] at h
    obtain ⟨hf, hi, h⟩ := h
    cases hs1 : step s (i s) with
    | none =>
      rw [hs1] at h
      exact absurd h (by simp)
    | some s1 =>
      rw [hs1] at h
      obtain ⟨e, he0, hlen, hin, htest⟩ := ih h
      refine ⟨⟨fun n => match n with | 0 => s | n + 1 => e.state n,
        fun n => match n with | 0 => i s | n + 1 => e.input n, e.len + 1, ?_, ?_⟩, rfl, ?_, ?_, ?_⟩
      · rintro (_ | n) hn
        · exact of_decide_eq_true hi
        · exact e.allows n (by omega)
      · rintro (_ | n) hn
        · show step s (i s) = some (e.state 0)
          rw [he0]
          exact hs1
        · exact e.next n (by omega)
      · show e.len + 1 = l.length + 1
        rw [hlen]
      · rintro (_ | n) j hj
        · obtain rfl := Option.some.inj hj
          rfl
        · exact hin n j hj
      · rintro (_ | n) hn
        · exact hf
        · have ht := htest n (by simpa using hn)
          rwa [Nat.add_right_comm k 1 n] at ht

end Xeros.Foundations
