import Mathlib.Algebra.BigOperators.Group.List.Basic
import Mathlib.Data.List.Nodup
import Mathlib.Tactic

/-!
# Delta lists

A delta list stores deadlines as differences: the node `x` of the list `l` is due after
`remaining δ l x`, the sum of the differences up to and including its own.  Inserting a node at
the place that `splitAtDelay` finds, taking a node out and counting down the first difference each
change all deadlines as they should: not at all, not at all, and by one.
-/

set_option autoImplicit false

namespace Xeros.Foundations

variable {α : Type} [DecidableEq α]

/-- The sum of the differences up to and including that of `x`. -/
def remaining (δ : α → ℤ) : List α → α → ℤ
  | [], _ => 0
  | y :: l, x => if y = x then δ y else δ y + remaining δ l x

/-- The sum of all differences of a list: the last deadline. -/
def total (δ : α → ℤ) (l : List α) : ℤ := (l.map δ).sum

omit [DecidableEq α] in
@[simp] theorem total_nil (δ : α → ℤ) : total δ [] = 0 := rfl

omit [DecidableEq α] in
@[simp] theorem total_cons (δ : α → ℤ) (x : α) (l : List α) :
    total δ (x :: l) = δ x + total δ l := by
  simp [total]

omit [DecidableEq α] in
@[simp] theorem total_append (δ : α → ℤ) (a b : List α) :
    total δ (a ++ b) = total δ a + total δ b := by
  simp [total]

omit [DecidableEq α] in
theorem total_congr {δ ε : α → ℤ} {l : List α} (h : ∀ x ∈ l, ε x = δ x) :
    total ε l = total δ l := by
  unfold total
  rw [List.map_congr_left h]

omit [DecidableEq α] in
theorem total_nonneg {δ : α → ℤ} {l : List α} (h : ∀ x ∈ l, 0 ≤ δ x) : 0 ≤ total δ l := by
  induction l with
  | nil => simp
  | cons x l ih =>
    have h1 := h x (by simp)
    have h2 := ih fun y hy => h y (by simp [hy])
    rw [total_cons]
    omega

theorem remaining_congr {δ ε : α → ℤ} {l : List α} (h : ∀ x ∈ l, ε x = δ x) (x : α) :
    remaining ε l x = remaining δ l x := by
  induction l with
  | nil => rfl
  | cons y l ih =>
    unfold remaining
    rw [h y (by simp), ih fun z hz => h z (by simp [hz])]

theorem remaining_append_left {δ : α → ℤ} {a b : List α} {x : α} (hx : x ∈ a) :
    remaining δ (a ++ b) x = remaining δ a x := by
  induction a with
  | nil => simp at hx
  | cons y a ih =>
    by_cases hyx : y = x
    · simp [remaining, hyx]
    · have hxa : x ∈ a := by simpa [Ne.symm hyx] using hx
      simp [remaining, hyx, ih hxa]

theorem remaining_append_right {δ : α → ℤ} {a b : List α} {x : α} (hx : x ∉ a) :
    remaining δ (a ++ b) x = total δ a + remaining δ b x := by
  induction a with
  | nil => simp
  | cons y a ih =>
    rw [List.mem_cons, not_or] at hx
    simp only [List.cons_append, remaining, Ne.symm hx.1, if_false, ih hx.2, total_cons]
    omega

/-- Every deadline is at least the first difference. -/
theorem le_remaining {δ : α → ℤ} {l : List α} (h : ∀ x ∈ l, 0 ≤ δ x) {x : α} (hx : x ∈ l) :
    ∀ y, l.head? = some y → δ y ≤ remaining δ l x := by
  cases l with
  | nil => simp at hx
  | cons y l =>
    intro z hz
    rw [List.head?_cons, Option.some.injEq] at hz
    subst hz
    unfold remaining
    split_ifs with hyx
    · exact le_refl _
    · have hrest : ∀ l' : List α, (∀ w ∈ l', 0 ≤ δ w) → 0 ≤ remaining δ l' x := by
        intro l' hl'
        induction l' with
        | nil => simp [remaining]
        | cons w l' ih =>
          have hw := hl' w (by simp)
          have hr := ih fun u hu => hl' u (by simp [hu])
          unfold remaining
          split_ifs <;> omega
      have := hrest l fun w hw => h w (by simp [hw])
      omega

/-- No deadline is before the node's own difference. -/
theorem delta_le_remaining {δ : α → ℤ} {l : List α} (h : ∀ x ∈ l, 0 ≤ δ x) {x : α} (hx : x ∈ l) :
    δ x ≤ remaining δ l x := by
  induction l with
  | nil => simp at hx
  | cons y l ih =>
    unfold remaining
    split_ifs with hyx
    · rw [hyx]
    · have hxl : x ∈ l := by simpa [Ne.symm hyx] using hx
      have hy := h y (by simp)
      have hrec := ih (fun z hz => h z (by simp [hz])) hxl
      omega

/-- Adding to the first difference moves every deadline of the list. -/
theorem remaining_shift {δ ε : α → ℤ} {x : α} {l : List α} {c : ℤ} (hx : ε x = δ x + c)
    (hl : ∀ y ∈ l, ε y = δ y) (y : α) :
    remaining ε (x :: l) y = remaining δ (x :: l) y + c := by
  unfold remaining
  split_ifs with hxy
  · exact hx
  · rw [hx, remaining_congr hl]
    omega

/-! ## Insertion -/

/-- Where a node that is due after `t` goes: the nodes that are due before it, its difference, and
the others. -/
def splitAtDelay (δ : α → ℤ) : ℤ → List α → List α × ℤ × List α
  | t, [] => ([], t, [])
  | t, e :: l =>
    if δ e < t then
      let r := splitAtDelay δ (t - δ e) l
      (e :: r.1, r.2)
    else ([], t, e :: l)

omit [DecidableEq α] in
theorem splitAtDelay_append (δ : α → ℤ) (t : ℤ) (l : List α) :
    (splitAtDelay δ t l).1 ++ (splitAtDelay δ t l).2.2 = l := by
  induction l generalizing t with
  | nil => rfl
  | cons e l ih =>
    unfold splitAtDelay
    split_ifs
    · simp [ih]
    · rfl

omit [DecidableEq α] in
theorem splitAtDelay_total (δ : α → ℤ) (t : ℤ) (l : List α) :
    (splitAtDelay δ t l).2.1 = t - total δ (splitAtDelay δ t l).1 := by
  induction l generalizing t with
  | nil => simp [splitAtDelay]
  | cons e l ih =>
    unfold splitAtDelay
    split_ifs
    · simp only [ih, total_cons]
      omega
    · simp

omit [DecidableEq α] in
/-- The difference of the new node is positive, and no larger than that of the node after it. -/
theorem splitAtDelay_bounds (δ : α → ℤ) {t : ℤ} (ht : 1 ≤ t) (l : List α) :
    1 ≤ (splitAtDelay δ t l).2.1 ∧
      ∀ e, (splitAtDelay δ t l).2.2.head? = some e → (splitAtDelay δ t l).2.1 ≤ δ e := by
  induction l generalizing t with
  | nil => simp [splitAtDelay, ht]
  | cons e l ih =>
    unfold splitAtDelay
    split_ifs with h
    · exact ih (by omega)
    · refine ⟨ht, fun e' he' => ?_⟩
      rw [List.head?_cons, Option.some.injEq] at he'
      exact he' ▸ not_lt.mp h

/-- Inserting a node leaves the other deadlines alone. -/
theorem remaining_insert {δ ε : α → ℤ} {a b : List α} {x : α} (hx : x ∉ a ++ b)
    (ha : ∀ y ∈ a, ε y = δ y) (hb : ∀ y ∈ b.tail, ε y = δ y)
    (he : ∀ e, b.head? = some e → ε e = δ e - ε x) :
    remaining ε (a ++ x :: b) x = total δ a + ε x ∧
      ∀ y ∈ a ++ b, remaining ε (a ++ x :: b) y = remaining δ (a ++ b) y := by
  rw [List.mem_append, not_or] at hx
  constructor
  · rw [remaining_append_right hx.1, total_congr ha]
    simp [remaining]
  · intro y hy
    by_cases hya : y ∈ a
    · rw [remaining_append_left hya, remaining_append_left hya, remaining_congr ha]
    · have hyb : y ∈ b := by simpa [hya] using hy
      have hxy : x ≠ y := fun h => hx.2 (h ▸ hyb)
      rw [remaining_append_right hya, remaining_append_right hya, total_congr ha]
      cases b with
      | nil => simp at hyb
      | cons e b =>
        have hshift : remaining ε (e :: b) y = remaining δ (e :: b) y + -ε x :=
          remaining_shift (by rw [he e rfl]; omega) (fun z hz => hb z (by simpa using hz)) y
        have hcons : remaining ε (x :: e :: b) y = ε x + remaining ε (e :: b) y := by
          simp [remaining, hxy]
        rw [hcons, hshift]
        omega

/-! ## Removal -/

/-- Taking a node out, and giving its difference to the node after it, leaves the other deadlines
alone. -/
theorem remaining_erase {δ ε : α → ℤ} {a b : List α} {x : α} (hnd : (a ++ x :: b).Nodup)
    (ha : ∀ y ∈ a, ε y = δ y) (hb : ∀ y ∈ b.tail, ε y = δ y)
    (he : ∀ e, b.head? = some e → ε e = δ e + δ x) {y : α} (hy : y ∈ a ++ b) :
    remaining ε (a ++ b) y = remaining δ (a ++ x :: b) y := by
  by_cases hya : y ∈ a
  · rw [remaining_append_left hya, remaining_append_left hya, remaining_congr ha]
  · have hyb : y ∈ b := by simpa [hya] using hy
    have hxy : x ≠ y := by
      rintro rfl
      exact (List.nodup_cons.mp (List.nodup_append.mp hnd).2.1).1 hyb
    rw [remaining_append_right hya, remaining_append_right hya, total_congr ha]
    cases b with
    | nil => simp at hyb
    | cons e b =>
      have hshift : remaining ε (e :: b) y = remaining δ (e :: b) y + δ x :=
        remaining_shift (he e rfl) (fun z hz => hb z (by simpa using hz)) y
      have hcons : remaining δ (x :: e :: b) y = δ x + remaining δ (e :: b) y := by
        simp [remaining, hxy]
      rw [hshift, hcons]
      omega

end Xeros.Foundations
