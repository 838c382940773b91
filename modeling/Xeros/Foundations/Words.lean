import Mathlib.Logic.Function.Basic
import Mathlib.Tactic

/-!
# 32-bit words and byte-addressed memory

Machine integers are kept as `ℕ` (unsigned, below `2 ^ 32`) or `ℤ` (signed); `wrapInt`,
`toWord` and `toInt` are the reductions a 32-bit machine applies.  Memory is a function from
addresses to bytes; every access reduces its address modulo `2 ^ 32`, and words are stored
little-endian.
-/

set_option autoImplicit false

namespace Xeros.Foundations

/-! ## Two's complement -/

/-- The signed 32-bit value congruent to `x`. -/
def wrapInt (x : ℤ) : ℤ := (2147483648 + x) % 4294967296 - 2147483648

/-- The unsigned 32-bit word congruent to `x`. -/
def toWord (x : ℤ) : ℕ := (x % 4294967296).toNat

/-- A word read as a signed integer. -/
def toInt (w : ℕ) : ℤ := wrapInt w

/-- Unsigned subtraction modulo `2 ^ 32`. -/
def subWord (a b : ℕ) : ℕ := (4294967296 - b % 4294967296 + a) % 4294967296

theorem wrapInt_of_range {x : ℤ} (hlo : -2147483648 ≤ x) (hhi : x < 2147483648) :
    wrapInt x = x := by
  unfold wrapInt
  omega

theorem wrapInt_range (x : ℤ) : -2147483648 ≤ wrapInt x ∧ wrapInt x < 2147483648 := by
  unfold wrapInt
  omega

theorem toWord_lt (x : ℤ) : toWord x < 4294967296 := by
  unfold toWord
  omega

theorem toWord_of_range {x : ℤ} (hlo : 0 ≤ x) (hhi : x < 4294967296) : (toWord x : ℤ) = x := by
  unfold toWord
  omega

theorem toWord_toInt {w : ℕ} (hw : w < 4294967296) : toWord (toInt w) = w := by
  unfold toInt toWord wrapInt
  omega

theorem toWord_wrapInt (x : ℤ) : toWord (wrapInt x) = toWord x := by
  unfold toWord wrapInt
  omega

theorem subWord_of_le {a b : ℕ} (ha : a < 4294967296) (hb : b ≤ a) : subWord a b = a - b := by
  unfold subWord
  omega

/-! ## Memory -/

/-- The contents of memory, one byte an address. -/
abbrev Memory := ℕ → UInt8

def load8 (m : Memory) (a : ℕ) : UInt8 := m (a % 4294967296)

def store8 (m : Memory) (a : ℕ) (b : UInt8) : Memory := Function.update m (a % 4294967296) b

def load32 (m : Memory) (a : ℕ) : ℕ :=
  (load8 m a).toNat + 256 * (load8 m (a + 1)).toNat + 65536 * (load8 m (a + 2)).toNat
    + 16777216 * (load8 m (a + 3)).toNat

def store32 (m : Memory) (a w : ℕ) : Memory :=
  store8 (store8 (store8 (store8 m a (UInt8.ofNat w)) (a + 1) (UInt8.ofNat (w / 256)))
    (a + 2) (UInt8.ofNat (w / 65536))) (a + 3) (UInt8.ofNat (w / 16777216))

theorem load8_store8 (m : Memory) (a c : ℕ) (b : UInt8) :
    load8 (store8 m a b) c = if c % 4294967296 = a % 4294967296 then b else load8 m c := by
  simp [load8, store8, Function.update_apply]

theorem load32_lt (m : Memory) (a : ℕ) : load32 m a < 4294967296 := by
  have h0 := (load8 m a).toNat_lt
  have h1 := (load8 m (a + 1)).toNat_lt
  have h2 := (load8 m (a + 2)).toNat_lt
  have h3 := (load8 m (a + 3)).toNat_lt
  unfold load32
  omega

/-- Addresses count modulo `2 ^ 32`. -/
theorem store32_mod (m : Memory) (a w : ℕ) : store32 m (a % 4294967296) w = store32 m a w := by
  simp [store32, store8]

/-- A word is determined by its four bytes. -/
theorem load32_congr {m m' : Memory} {a : ℕ}
    (h : ∀ i < 4, load8 m' (a + i) = load8 m (a + i)) : load32 m' a = load32 m a := by
  have h0 := h 0 (by omega)
  rw [Nat.add_zero] at h0
  simp only [load32, h0, h 1 (by omega), h 2 (by omega), h 3 (by omega)]

/-- A stored word differs from memory at its own four bytes only. -/
theorem load8_store32_of_ne (m : Memory) (a w c : ℕ)
    (h : ∀ i < 4, c % 4294967296 ≠ (a + i) % 4294967296) :
    load8 (store32 m a w) c = load8 m c := by
  have h0 := h 0 (by omega)
  rw [Nat.add_zero] at h0
  simp [store32, load8_store8, h0, h 1 (by omega), h 2 (by omega), h 3 (by omega)]

theorem load32_store32_same (m : Memory) (a w : ℕ) :
    load32 (store32 m a w) a = w % 4294967296 := by
  have e1 : (a + 1) % 4294967296 ≠ a % 4294967296 := by omega
  have e2 : (a + 2) % 4294967296 ≠ a % 4294967296 := by omega
  have e3 : (a + 3) % 4294967296 ≠ a % 4294967296 := by omega
  have e4 : (a + 2) % 4294967296 ≠ (a + 1) % 4294967296 := by omega
  have e5 : (a + 3) % 4294967296 ≠ (a + 1) % 4294967296 := by omega
  have e6 : (a + 3) % 4294967296 ≠ (a + 2) % 4294967296 := by omega
  simp only [load32, store32, load8_store8, e1, e2, e3, e4, e5, e6, e1.symm, e2.symm, e3.symm,
    e4.symm, e5.symm, e6.symm, if_true, if_false, UInt8.toNat_ofNat']
  omega

/-- Storing a word leaves every word alone that shares no byte with it. -/
theorem load32_store32_of_disjoint (m : Memory) (a w c : ℕ)
    (h : ∀ i < 4, ∀ j < 4, (c + i) % 4294967296 ≠ (a + j) % 4294967296) :
    load32 (store32 m a w) c = load32 m c :=
  load32_congr fun i hi => load8_store32_of_ne m a w (c + i) fun j hj => h i hi j hj

/-- On aligned addresses memory behaves like an array of words. -/
theorem load32_store32_aligned (m : Memory) {a c : ℕ} (w : ℕ) (ha : a % 4 = 0) (hc : c % 4 = 0)
    (ha' : a < 4294967296) (hc' : c < 4294967296) :
    load32 (store32 m a w) c = if c = a then w % 4294967296 else load32 m c := by
  split_ifs with h
  · subst h
    exact load32_store32_same m c w
  · refine load32_store32_of_disjoint m a w c fun i hi j hj => ?_
    omega

end Xeros.Foundations
