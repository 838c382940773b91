import Xeros.Model.Memory

/-!
# User pointer checks (copyinout.c)
-/

set_option autoImplicit false

namespace Xeros.Model.Heap

open Xeros.Foundations

/-- `falls_in_hole` -/
def fallsInHole (addr : ℤ) : Prop := (holeStart : ℤ) ≤ addr ∧ addr < (holeEnd : ℤ)

instance (addr : ℤ) : Decidable (fallsInHole addr) := inferInstanceAs (Decidable (_ ∧ _))

/-- `falls_in_kstack` -/
def fallsInKstack (h : Heap) (addr : ℤ) : Prop :=
  wrapInt (h.kmemFreemem - kernelStack) ≤ addr ∧ addr < h.kmemFreemem

instance (h : Heap) (addr : ℤ) : Decidable (h.fallsInKstack addr) :=
  inferInstanceAs (Decidable (_ ∧ _))

/-- `verify_usrptr` -/
def verifyUsrptr (h : Heap) (usrptr : ℕ) (len : ℤ) : Option ℤ := do
  cAssert (0 < len ∧ len < kernelStack)
  let addr := toInt usrptr
  let endAddr := wrapInt (addr + len - 1)
  if addr ≤ 0 ∨ endAddr > h.kmemMaxaddr then
    some einval
  else if fallsInHole addr ∨ fallsInHole endAddr ∨ h.fallsInKstack addr ∨
      h.fallsInKstack endAddr then
    some einval
  else some ok

/-- One round of the `do .. while` loop of `verify_usrstr`. -/
def usrstrRound (h : Heap) (str : ℕ) : Option (Iter ℕ ℤ) := do
  let ret ← h.verifyUsrptr str 1
  if ret ≠ ok then
    some (.done ret)
  else if load8 h.mem str ≠ 0 then
    some (.again ((str + 1) % 4294967296))
  else some (.done ok)

/-- `verify_usrstr` -/
def verifyUsrstr (h : Heap) (str : ℕ) : Option ℤ := loop h.usrstrRound loopBound str

end Xeros.Model.Heap
