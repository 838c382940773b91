import Mathlib.Data.List.Basic
import Mathlib.Logic.Relation
import Mathlib.Tactic

/-!
# Bounded loops in `Option`

A loop body takes a state to `none` (the program stops making progress: a failed
assertion, a null dereference), to `again s` (one more round from `s`) or to `done a`
(the loop is left with `a`).  `loop body n s` runs at most `n` rounds and is `none` when
they do not suffice.

Few rules are ever used of it: a partial rule for a loop that returned (`loop_inv`), a total
rule with a measure (`loop_total`), and that a loop may be entered after some of its rounds
(`loop_after_rounds`).
-/

set_option autoImplicit false

namespace Xeros.Foundations

variable {σ α : Type}

/-- What one round of a loop does: go round again, or leave with a result. -/
inductive Iter (σ α : Type) where
  | again (s : σ)
  | done (a : α)

/-- Run `body` for at most the given number of rounds. -/
def loop (body : σ → Option (Iter σ α)) : ℕ → σ → Option α
  | 0, _ => none
  | n + 1, s =>
    match body s with
    | none => none
    | some (.done a) => some a
    | some (.again s') => loop body n s'

theorem loop_succ_again {body : σ → Option (Iter σ α)} {s s' : σ} (n : ℕ)
    (h : body s = some (.again s')) : loop body (n + 1) s = loop body n s' := by
  simp [loop, h]

theorem loop_succ_done {body : σ → Option (Iter σ α)} {s : σ} {a : α} (n : ℕ)
    (h : body s = some (.done a)) : loop body (n + 1) s = some a := by
  simp [loop, h]

/-- Partial rule: an invariant kept by every round holds of the result of a loop that
returned. -/
theorem loop_inv {body : σ → Option (Iter σ α)} {I : σ → Prop} {Q : α → Prop}
    (hagain : ∀ s s', I s → body s = some (.again s') → I s')
    (hdone : ∀ s a, I s → body s = some (.done a) → Q a)
    {n : ℕ} {s : σ} {a : α} (hs : I s) (hrun : loop body n s = some a) : Q a := by
  induction n generalizing s with
  | zero => simp [loop] at hrun
  | succ n ih =>
    cases hb : body s with
    | none => simp [loop, hb] at hrun
    | some r =>
      cases r with
      | again s' => exact ih (hagain s s' hs hb) (by simpa [loop, hb] using hrun)
      | done b =>
        have hab : b = a := by simpa [loop, hb] using hrun
        exact hab ▸ hdone s b hs hb

/-- Total rule: when every round succeeds and lowers `μ`, a bound above `μ` suffices. -/
theorem loop_total {body : σ → Option (Iter σ α)} {I : σ → Prop} {Q : α → Prop} (μ : σ → ℕ)
    (hstep : ∀ s, I s → (∃ s', body s = some (.again s') ∧ I s' ∧ μ s' < μ s) ∨
      ∃ a, body s = some (.done a) ∧ Q a)
    {n : ℕ} {s : σ} (hs : I s) (hn : μ s < n) : ∃ a, loop body n s = some a ∧ Q a := by
  induction n generalizing s with
  | zero => omega
  | succ n ih =>
    obtain ⟨s', hb, hs', hμ⟩ | ⟨a, hb, ha⟩ := hstep s hs
    · rw [loop_succ_again n hb]
      exact ih hs' (by omega)
    · exact ⟨a, loop_succ_done n hb, ha⟩

/-- A loop that returned still returns the same after some of its rounds. -/
theorem loop_after_rounds {body : σ → Option (Iter σ α)} {s s' : σ} {a : α}
    (h : Relation.ReflTransGen (fun u v => body u = some (.again v)) s s') {n : ℕ}
    (hrun : loop body n s = some a) : ∃ m, loop body m s' = some a := by
  induction h with
  | refl => exact ⟨n, hrun⟩
  | tail _ hround ih =>
    obtain ⟨m, hm⟩ := ih
    cases m with
    | zero => simp [loop] at hm
    | succ m =>
      rw [loop_succ_again m hround] at hm
      exact ⟨m, hm⟩

end Xeros.Foundations
