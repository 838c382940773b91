import Mathlib.Data.List.FinRange
import Mathlib.Data.List.Perm.Basic
import Mathlib.Data.List.Perm.Lattice

/-!
# What the owners hold

Finitely many owners hold a list of things each.  When one owner's list changes and the others keep
theirs, the list of all that is held changes by that owner's things, up to the order.
-/

set_option autoImplicit false

namespace Xeros.Foundations

variable {α β : Type} {n : ℕ} {own own' : Fin n → List α} {i : Fin n} {x : α}

/-- All that is held. -/
def holdings (own : Fin n → List α) : List α := (List.finRange n).flatMap own

/-- What the owners other than `i` hold. -/
def othersHold (own : Fin n → List α) (i : Fin n) : List α :=
  ((List.finRange n).erase i).flatMap own

theorem mem_holdings : x ∈ holdings own ↔ ∃ i, x ∈ own i := by
  unfold holdings
  rw [List.mem_flatMap]
  constructor
  · rintro ⟨i, -, hx⟩
    exact ⟨i, hx⟩
  · rintro ⟨i, hx⟩
    exact ⟨i, List.mem_finRange i, hx⟩

theorem holdings_eq_nil : holdings own = [] ↔ ∀ i, own i = [] := by
  constructor
  · intro h i
    apply List.eq_nil_iff_forall_not_mem.mpr
    intro x hx
    have hmem := mem_holdings.mpr ⟨i, hx⟩
    rw [h] at hmem
    exact List.not_mem_nil hmem
  · intro h
    apply List.eq_nil_iff_forall_not_mem.mpr
    intro x hx
    obtain ⟨i, hi⟩ := mem_holdings.mp hx
    rw [h i] at hi
    exact List.not_mem_nil hi

theorem holdings_congr (h : ∀ j, own' j = own j) : holdings own' = holdings own := by
  rw [funext h]

/-- One owner's things come first, in some order. -/
theorem holdings_perm (own : Fin n → List α) (i : Fin n) :
    (holdings own).Perm (own i ++ othersHold own i) := by
  have hperm := List.perm_cons_erase (List.mem_finRange i)
  have hflat := hperm.flatMap_right own
  rwa [List.flatMap_cons] at hflat

theorem othersHold_congr (h : ∀ j, j ≠ i → own' j = own j) :
    othersHold own' i = othersHold own i := by
  unfold othersHold
  apply List.flatMap_congr
  intro j hj
  have hne := ((List.nodup_finRange n).mem_erase_iff.mp hj).1
  exact h j hne

theorem mem_othersHold {j : Fin n} (hj : j ≠ i) (hx : x ∈ own j) : x ∈ othersHold own i := by
  unfold othersHold
  rw [List.mem_flatMap]
  exact ⟨j, (List.nodup_finRange n).mem_erase_iff.mpr ⟨hj, List.mem_finRange j⟩, hx⟩

/-- An owner who held nothing gets something. -/
theorem holdings_acquire (hi : own i = []) (h : ∀ j, j ≠ i → own' j = own j) :
    (holdings own').Perm (own' i ++ holdings own) := by
  have hold := holdings_perm own i
  rw [hi, List.nil_append] at hold
  have hnew := holdings_perm own' i
  rw [othersHold_congr h] at hnew
  exact hnew.trans (hold.symm.append_left (own' i))

end Xeros.Foundations
