import Mathlib.Data.List.Basic
import Mathlib.Data.List.Nodup
import Mathlib.Order.Interval.Finset.Nat
import Mathlib.Tactic

/-!
# Queues with arbitrary removal

A queue changes by elements that leave, wherever they stand, and by elements that join at its end
(`Ages`).  Over a sequence of such changes the order of a queue is the order of waiting: whoever
stands in front of `q` has been in the queue for as long as `q` has (`waits_longest`).
-/

set_option autoImplicit false

namespace Xeros.Foundations

variable {α : Type} {l l' : List α} {p q : α}

/-- From `l` to `l'`, some elements left, and others joined at the end. -/
def Ages (l l' : List α) : Prop :=
  ∃ kept joined, kept.Sublist l ∧ l' = kept ++ joined ∧ ∀ x ∈ joined, x ∉ l

theorem Ages.of_sublist (h : l'.Sublist l) : Ages l l' := by
  refine ⟨l', [], h, (List.append_nil l').symm, ?_⟩
  intro x hx
  exact absurd hx List.not_mem_nil

theorem Ages.refl (l : List α) : Ages l l := Ages.of_sublist (List.Sublist.refl l)

theorem Ages.join (hp : p ∉ l) : Ages l (l ++ [p]) := by
  refine ⟨l, [p], List.Sublist.refl l, rfl, ?_⟩
  intro x hx
  rw [List.mem_singleton.mp hx]
  exact hp

theorem Ages.leave {l'' : List α} (h : Ages l l') (h' : l''.Sublist l') : Ages l l'' := by
  obtain ⟨kept, joined, hkept, rfl, hjoined⟩ := h
  obtain ⟨a, b, hab, ha, hb⟩ := List.sublist_append_iff.mp h'
  refine ⟨a, b, ha.trans hkept, hab, ?_⟩
  intro x hx
  exact hjoined x (hb.subset hx)

/-- From `l` to `l'`, some elements joined and none left. -/
def Grows (l l' : List α) : Prop := ∃ joined, l' = l ++ joined ∧ ∀ x ∈ joined, x ∉ l

theorem Grows.refl (l : List α) : Grows l l :=
  ⟨[], (List.append_nil l).symm, fun _ hx => absurd hx List.not_mem_nil⟩

theorem Grows.trans {l'' : List α} (h : Grows l l') (h' : Grows l' l'') : Grows l l'' := by
  obtain ⟨a, rfl, ha⟩ := h
  obtain ⟨b, rfl, hb⟩ := h'
  refine ⟨a ++ b, List.append_assoc l a b, ?_⟩
  intro x hx hxl
  rcases List.mem_append.mp hx with hxa | hxb
  · exact ha x hxa hxl
  · exact hb x hxb (List.mem_append_left a hxl)

theorem Grows.ages (h : Grows l l') : Ages l l' := by
  obtain ⟨joined, hl, hnew⟩ := h
  exact ⟨l, joined, List.Sublist.refl l, hl, hnew⟩

/-- Two elements that were in the queue before are in the order they were in. -/
theorem Ages.order (h : Ages l l') (hpq : [p, q].Sublist l') (hq : q ∈ l) : [p, q].Sublist l := by
  obtain ⟨kept, joined, hkept, hl, hjoined⟩ := h
  rw [hl] at hpq
  obtain ⟨a, b, hab, ha, hb⟩ := List.sublist_append_iff.mp hpq
  cases b with
  | nil =>
    rw [List.append_nil] at hab
    rw [hab]
    exact ha.trans hkept
  | cons x b =>
    -- the last of the two would have joined
    have hmem : q ∈ x :: b := by
      have hlast : (a ++ x :: b).getLast? = some q := by rw [← hab]; rfl
      rw [List.getLast?_append_of_ne_nil _ (List.cons_ne_nil x b)] at hlast
      exact List.mem_of_getLast? hlast
    exact absurd hq (hjoined q (hb.subset hmem))

/-! ## Positions -/

/-- Nobody who joins stands in front of those who were in the queue before. -/
theorem Grows.idxOf_eq [DecidableEq α] (h : Grows l l') (hp : p ∈ l) : l'.idxOf p = l.idxOf p := by
  obtain ⟨joined, rfl, -⟩ := h
  exact List.idxOf_append_of_mem hp

/-- When the first one leaves, the others move up. -/
theorem idxOf_tail [DecidableEq α] (hp : p ∈ l.tail) (hnd : l.Nodup) :
    l.tail.idxOf p + 1 = l.idxOf p := by
  cases l with
  | nil => exact absurd hp List.not_mem_nil
  | cons x l =>
    have hne : x ≠ p := by
      intro hx
      rw [hx] at hnd
      exact (List.nodup_cons.mp hnd).1 hp
    rw [List.idxOf_cons_ne l hne]
    rfl

/-! ## Order of waiting -/

/-- `p` has been waiting for as long as `q`, at time `n`. -/
def WaitsLonger (waits : ℕ → α → Prop) (n : ℕ) (p q : α) : Prop :=
  ∀ m ≤ n, (∀ k, m ≤ k → k ≤ n → waits k q) → ∀ k, m ≤ k → k ≤ n → waits k p

/-- Whoever stands in front of `q` has been in the queue for as long. -/
theorem waits_longest {l : ℕ → List α} {n : ℕ} (hl : ∀ k < n, Ages (l k) (l (k + 1)))
    (hpq : [p, q].Sublist (l n)) : WaitsLonger (fun k x => x ∈ l k) n p q := by
  intro m hmn hq
  have horder : ∀ d, m + d ≤ n → [p, q].Sublist (l (n - d)) := by
    intro d
    induction d with
    | zero => exact fun _ => hpq
    | succ d ih =>
      intro hd
      have hk : n - (d + 1) + 1 = n - d := by omega
      have hstep := hl (n - (d + 1)) (by omega)
      rw [hk] at hstep
      exact hstep.order (ih (by omega)) (hq _ (by omega) (by omega))
  intro k hmk hkn
  have hsub := horder (n - k) (by omega)
  rw [show n - (n - k) = k by omega] at hsub
  exact hsub.subset (List.mem_cons_self ..)

/-- The head of a queue has been in it longest. -/
theorem head_waits_longest {l : ℕ → List α} {n : ℕ} (hl : ∀ k < n, Ages (l k) (l (k + 1)))
    (hp : (l n).head? = some p) (hq : q ∈ l n) : WaitsLonger (fun k x => x ∈ l k) n p q := by
  obtain ⟨rest, hrest⟩ : ∃ rest, l n = p :: rest := by
    cases hcase : l n with
    | nil =>
      rw [hcase] at hp
      exact absurd hp (by simp)
    | cons x rest =>
      rw [hcase] at hp
      exact ⟨rest, by rw [Option.some.inj hp]⟩
  rw [hrest] at hq
  rcases List.mem_cons.mp hq with rfl | hmem
  · exact fun m _ hall => hall
  · apply waits_longest hl
    rw [hrest]
    exact (List.singleton_sublist.mpr hmem).cons_cons p

end Xeros.Foundations
