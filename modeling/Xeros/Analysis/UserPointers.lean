import Xeros.Model.CopyInOut

/-!
# The check of user pointers

`verify_usrptr` looks at the two end points of a range only.  That is enough, because no forbidden
interval fits between them, as long as the end point itself is computed without overflow.
-/

set_option autoImplicit false

namespace Xeros.Analysis

open Xeros.Foundations Xeros.Model

/-- The memory layout that booting sets up. -/
structure MemoryLayout (h : Heap) : Prop where
  kstack : 0 < h.kmemFreemem - kernelStack
  freemem : h.kmemFreemem ≤ holeStart
  maxaddr : (holeEnd : ℤ) < h.kmemMaxaddr

/-- User programs may use this address. -/
def Accessible (h : Heap) (a : ℤ) : Prop :=
  1 ≤ a ∧ a ≤ h.kmemMaxaddr ∧ ¬ ((holeStart : ℤ) ≤ a ∧ a < holeEnd) ∧
    ¬ (h.kmemFreemem - kernelStack ≤ a ∧ a < h.kmemFreemem)

/-- User programs may use the `len` addresses from `a` on. -/
def AccessibleRange (h : Heap) (a len : ℤ) : Prop := ∀ x, a ≤ x → x ≤ a + len - 1 → Accessible h x

theorem kmemMaxaddr_range (h : Heap) : h.kmemMaxaddr < 2147483648 := (wrapInt_range _).2

/-- The kernel stack, with the subtraction that the code makes. -/
theorem fallsInKstack_iff {h : Heap} (hl : MemoryLayout h) (a : ℤ) :
    h.fallsInKstack a ↔ h.kmemFreemem - kernelStack ≤ a ∧ a < h.kmemFreemem := by
  have hpos := hl.kstack
  have hmax : h.kmemFreemem < 2147483648 := (wrapInt_range _).2
  unfold Heap.fallsInKstack
  rw [wrapInt_of_range (by omega) (by unfold kernelStack; omega)]

/-- Two accessible end points close to each other make an accessible range. -/
theorem accessibleRange_iff {h : Heap} {a len : ℤ} (h0 : 0 < len) (h1 : len < kernelStack) :
    AccessibleRange h a len ↔ Accessible h a ∧ Accessible h (a + len - 1) := by
  constructor
  · intro hr
    exact ⟨hr a le_rfl (by omega), hr (a + len - 1) (by omega) le_rfl⟩
  · rintro ⟨⟨ha1, ha2, ha3, ha4⟩, ⟨hb1, hb2, hb3, hb4⟩⟩ x hax hxb
    have hsize : (holeEnd : ℤ) - holeStart > kernelStack := by decide
    exact ⟨by omega, by omega, by omega, by omega⟩

/-- What `verify_usrptr` answers, with the end point that it computes. -/
theorem verifyUsrptr_eq_ok {h : Heap} {usrptr : ℕ} {len : ℤ} (h0 : 0 < len)
    (h1 : len < kernelStack) : h.verifyUsrptr usrptr len = some ok ↔
      0 < toInt usrptr ∧ wrapInt (toInt usrptr + len - 1) ≤ h.kmemMaxaddr ∧
        ¬ Heap.fallsInHole (toInt usrptr) ∧
        ¬ Heap.fallsInHole (wrapInt (toInt usrptr + len - 1)) ∧
        ¬ h.fallsInKstack (toInt usrptr) ∧
        ¬ h.fallsInKstack (wrapInt (toInt usrptr + len - 1)) := by
  have hne : einval ≠ ok := by decide
  unfold Heap.verifyUsrptr
  rw [cAssert_pos ⟨h0, h1⟩, Option.bind_eq_bind, Option.bind_some]
  dsimp only
  split_ifs with hout hin
  · simp only [Option.some.injEq, hne, false_iff, not_and]
    rcases hout with hout | hout
    · exact fun hc => absurd hc (not_lt.mpr hout)
    · exact fun _ hc => absurd hc (not_le.mpr hout)
  · simp only [Option.some.injEq, hne, false_iff]
    rintro ⟨-, -, c1, c2, c3, c4⟩
    rcases hin with hin | hin | hin | hin
    · exact c1 hin
    · exact c2 hin
    · exact c3 hin
    · exact c4 hin
  · simp only [true_iff]
    rw [not_or, not_le, not_lt] at hout
    rw [not_or, not_or, not_or] at hin
    exact ⟨hout.1, hout.2, hin⟩

/-- `verify_usrptr` accepts exactly the accessible ranges, except that it also accepts ranges whose
end point overflows. -/
theorem verifyUsrptr_exact {h : Heap} (hl : MemoryLayout h) (usrptr : ℕ) (len : ℤ) (h0 : 0 < len)
    (h1 : len < kernelStack) :
    (h.verifyUsrptr usrptr len = some ok ↔ AccessibleRange h (toInt usrptr) len) ↔
      toInt usrptr + len - 1 < 2147483648 := by
  obtain ⟨hlo, hhi⟩ := wrapInt_range (usrptr : ℤ)
  have hmax := kmemMaxaddr_range h
  have hk := hl.kstack
  have hf := hl.freemem
  have hm := hl.maxaddr
  rw [verifyUsrptr_eq_ok h0 h1, accessibleRange_iff h0 h1]
  simp only [fallsInKstack_iff hl]
  obtain ⟨a, ha⟩ : ∃ a, toInt usrptr = a := ⟨_, rfl⟩
  have halo : -2147483648 ≤ a := ha ▸ hlo
  have hahi : a < 2147483648 := ha ▸ hhi
  rw [ha]
  by_cases hover : a + len - 1 < 2147483648
  · rw [wrapInt_of_range (by omega) hover]
    simp only [hover, iff_true]
    unfold Accessible Heap.fallsInHole
    constructor
    · rintro ⟨c1, c2, c3, c4, c5, c6⟩
      exact ⟨⟨by omega, by omega, c3, c5⟩, ⟨by omega, c2, c4, c6⟩⟩
    · rintro ⟨⟨c1, c2, c3, c5⟩, ⟨c1', c2', c4, c6⟩⟩
      exact ⟨by omega, c2', c3, c4, c5, c6⟩
  · -- the end point wraps to a negative number, which passes all the tests
    have hwrap : wrapInt (a + len - 1) = a + len - 1 - 4294967296 := by
      unfold kernelStack at h1
      unfold wrapInt
      omega
    simp only [hover, iff_false]
    intro hiff
    have hok : 0 < a ∧ wrapInt (a + len - 1) ≤ h.kmemMaxaddr ∧ ¬ Heap.fallsInHole a ∧
        ¬ Heap.fallsInHole (wrapInt (a + len - 1)) ∧
        ¬ (h.kmemFreemem - kernelStack ≤ a ∧ a < h.kmemFreemem) ∧
        ¬ (h.kmemFreemem - kernelStack ≤ wrapInt (a + len - 1) ∧
          wrapInt (a + len - 1) < h.kmemFreemem) := by
      rw [hwrap]
      unfold holeStart at hf
      unfold holeEnd at hm
      unfold kernelStack at h1 hk
      unfold Heap.fallsInHole holeStart holeEnd kernelStack
      refine ⟨by omega, by omega, ?_, ?_, ?_, ?_⟩ <;> omega
    have hacc := (hiff.mp hok).2.2.1
    omega

/-- A heap on a machine with 4 MB of memory. -/
def smallHeap : Heap :=
  ⟨⟨131072, 4194303, 40000, 40100, 40200, 131040, 130900⟩, fun _ => 0, 0⟩

theorem smallHeap_layout : MemoryLayout smallHeap := ⟨by decide, by decide, by decide⟩

/-- The check is right about four bytes of the low memory. -/
theorem verifyUsrptr_exact_low : smallHeap.verifyUsrptr 60000 4 = some ok ↔
    AccessibleRange smallHeap (toInt 60000) 4 :=
  (verifyUsrptr_exact smallHeap_layout 60000 4 (by decide) (by decide)).mpr (by decide)

/-- The last address of the positive range is accepted, with the one after it. -/
theorem verifyUsrptr_overflow : smallHeap.verifyUsrptr 2147483647 2 = some ok ∧
    ¬ AccessibleRange smallHeap (toInt 2147483647) 2 := by
  refine ⟨by decide, fun h => ?_⟩
  have hacc := (h 2147483647 (by decide) (by decide)).2.1
  exact absurd hacc (by decide)

end Xeros.Analysis
