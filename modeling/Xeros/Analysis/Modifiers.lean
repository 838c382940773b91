import Xeros.Model.Keyboard

/-!
# Modifier keys

The keystate flag after any sequence of scancodes.  CTRL and CAPSLOCK are tracked as they should be.
SHIFT is lost when CTRL is released, because the bit number of CTRL is also used as a mask.
-/

set_option autoImplicit false

namespace Xeros.Analysis

open Xeros.Foundations Xeros.Model

/-- The last of the given codes in a sequence. -/
def lastOf (keys codes : List UInt8) : Option UInt8 := (codes.filter (· ∈ keys)).getLast?

/-- The two shift keys, pressed. -/
def shiftPresses : List UInt8 := [0x2A, 0x36]

/-- The two shift keys, pressed and released. -/
def shiftCodes : List UInt8 := [0x2A, 0x36, 0xAA, 0xB6]

/-- `g_keyboard_keystate_flag` after a sequence of scancodes, from the cleared state. -/
def keystateAfter (codes : List UInt8) : BitVec 32 :=
  codes.foldl (fun flag code => (keyboardProcessScancode flag code.toNat).2) 0

/-- The modifier keys are tracked through the sequence. -/
structure ModifiersTracked (codes : List UInt8) : Prop where
  shift : flagBitCheck (keystateAfter codes) keyboardStateShiftBit = true ↔
    ∃ c ∈ shiftPresses, lastOf shiftCodes codes = some c
  ctrl : flagBitCheck (keystateAfter codes) keyboardStateCtrlBit = true ↔
    lastOf [0x1D, 0x9D] codes = some 0x1D
  capslock : flagBitCheck (keystateAfter codes) keyboardStateCaplockBit = true ↔
    Odd (codes.count 0x3A)
  inRange : ∀ code ∈ codes, code.toNat < 0x54 →
    code.toNat < lower.length ∧ code.toNat < upper.length ∧ code.toNat < Model.ctrl.length

/-- CTRL is released while the last of the shift codes is a press. -/
def CtrlReleasedInShift (codes : List UInt8) : Prop :=
  (∃ c ∈ shiftPresses, lastOf shiftCodes codes = some c) ∧
    lastOf (0x9D :: shiftCodes) codes = some 0x9D

/-! ## One scancode -/

/-- The scancodes that change the flag. -/
def modifierCodes : List ℕ := [0x2A, 0x36, 0xAA, 0xB6, 0x1D, 0x9D, 0x3A]

/-- No table has a character for them. -/
theorem modifierCodes_tables : ∀ data ∈ modifierCodes,
    lower.getD data 0 = 0 ∧ upper.getD data 0 = 0 ∧ ctrl.getD data 0 = 0 := by decide

/-- The flag after a scancode that stands for no character. -/
def modifierUpdate (flag : BitVec 32) (data : ℕ) : BitVec 32 :=
  if data = 0x2A ∨ data = 0x36 then flagBitSet flag keyboardStateShiftBit
  else if data = 0xAA ∨ data = 0xB6 then flagBitClear flag keyboardStateShiftBit
  else if data = 0x1D then flagBitSet flag keyboardStateCtrlBit
  else if data = 0x9D then
    flagBitClear flag keyboardStateCtrlBit &&& ~~~(BitVec.ofNat 32 keyboardStateCtrlBit)
  else if data = 0x3A then flagBitToggle flag keyboardStateCaplockBit
  else flag

theorem modifierUpdate_of_not_mem {data : ℕ} (h : data ∉ modifierCodes) (flag : BitVec 32) :
    modifierUpdate flag data = flag := by
  simp only [modifierCodes, List.mem_cons, List.not_mem_nil, or_false, not_or] at h
  obtain ⟨h1, h2, h3, h4, h5, h6, h7⟩ := h
  unfold modifierUpdate
  rw [if_neg (not_or.mpr ⟨h1, h2⟩), if_neg (not_or.mpr ⟨h3, h4⟩), if_neg h5, if_neg h6, if_neg h7]

/-- The flag does not depend on the mode: a scancode of a modifier key stands for no character. -/
theorem keystate_step (flag : BitVec 32) (data : ℕ) :
    (keyboardProcessScancode flag data).2 = modifierUpdate flag data := by
  unfold keyboardProcessScancode
  dsimp only
  generalize hc : (if data < 0x54 then
      if flagBitCheck flag keyboardStateCtrlBit then ctrl.getD data 0
      else if xor (flagBitCheck flag keyboardStateShiftBit)
          (flagBitCheck flag keyboardStateCaplockBit) then upper.getD data 0
      else lower.getD data 0
    else 0) = c
  by_cases hzero : c = 0
  · rw [if_pos hzero]
    rfl
  · rw [if_neg hzero, modifierUpdate_of_not_mem]
    intro hmem
    obtain ⟨hl, hu, hctrl⟩ := modifierCodes_tables data hmem
    apply hzero
    rw [← hc, hl, hu, hctrl]
    simp

/-! ## Bits -/

section Bits

variable (flag : BitVec 32) (b : ℕ) {j : ℕ} (hj : j < 32)

theorem getLsbD_bit (hj : j < 32) : (1#32 <<< b).getLsbD j = decide (j = b) := by
  rw [BitVec.getLsbD_shiftLeft, BitVec.getLsbD_one]
  by_cases hb : j < b
  · have hne : j ≠ b := by omega
    simp [hb, hne]
  · have hiff : j - b = 0 ↔ j = b := by omega
    simp [hj, hb, hiff]

theorem flagBitCheck_set (hj : j < 32) :
    flagBitCheck (flagBitSet flag b) j = (flagBitCheck flag j || decide (j = b)) := by
  unfold flagBitCheck flagBitSet
  rw [BitVec.getLsbD_or, getLsbD_bit b hj]

theorem flagBitCheck_clear (hj : j < 32) :
    flagBitCheck (flagBitClear flag b) j = (flagBitCheck flag j && !decide (j = b)) := by
  unfold flagBitCheck flagBitClear
  rw [BitVec.getLsbD_and, BitVec.getLsbD_not, getLsbD_bit b hj]
  simp [hj]

theorem flagBitCheck_toggle (hj : j < 32) :
    flagBitCheck (flagBitToggle flag b) j = (flagBitCheck flag j ^^ decide (j = b)) := by
  unfold flagBitCheck flagBitToggle
  rw [BitVec.getLsbD_xor, getLsbD_bit b hj]

/-- The bit number of CTRL, used as a mask, is the bit of SHIFT. -/
theorem flagBitCheck_ctrlMask (hj : j < 32) :
    flagBitCheck (flag &&& ~~~(BitVec.ofNat 32 keyboardStateCtrlBit)) j =
      (flagBitCheck flag j && !decide (j = keyboardStateShiftBit)) :=
  flagBitCheck_clear flag keyboardStateShiftBit hj

end Bits

/-- SHIFT after a scancode: the release of CTRL clears it as well. -/
theorem shift_step (flag : BitVec 32) (data : ℕ) :
    flagBitCheck (modifierUpdate flag data) keyboardStateShiftBit =
      if data = 0x2A ∨ data = 0x36 then true
      else if data = 0xAA ∨ data = 0xB6 ∨ data = 0x9D then false
      else flagBitCheck flag keyboardStateShiftBit := by
  have h32 : keyboardStateShiftBit < 32 := by decide
  unfold modifierUpdate
  split_ifs <;> first
    | omega
    | simp [flagBitCheck_set, flagBitCheck_clear, flagBitCheck_toggle, flagBitCheck_ctrlMask, h32]

theorem ctrl_step (flag : BitVec 32) (data : ℕ) :
    flagBitCheck (modifierUpdate flag data) keyboardStateCtrlBit =
      if data = 0x1D then true
      else if data = 0x9D then false
      else flagBitCheck flag keyboardStateCtrlBit := by
  have h32 : keyboardStateCtrlBit < 32 := by decide
  unfold modifierUpdate
  split_ifs <;> first
    | omega
    | simp [flagBitCheck_set, flagBitCheck_clear, flagBitCheck_toggle, flagBitCheck_ctrlMask, h32]

theorem capslock_step (flag : BitVec 32) (data : ℕ) :
    flagBitCheck (modifierUpdate flag data) keyboardStateCaplockBit =
      xor (flagBitCheck flag keyboardStateCaplockBit) (decide (data = 0x3A)) := by
  have h32 : keyboardStateCaplockBit < 32 := by decide
  unfold modifierUpdate
  split_ifs with h1 h2 h3 h4 h5
  · have hne : data ≠ 0x3A := by omega
    simp [flagBitCheck_set, h32, hne]
  · have hne : data ≠ 0x3A := by omega
    simp [flagBitCheck_clear, h32, hne]
  · simp [flagBitCheck_set, h32, h3]
  · simp [flagBitCheck_clear, flagBitCheck_ctrlMask, h32, h4]
  · simp [flagBitCheck_toggle, h32, h5]
  · simp [h5]

/-! ## Sequences -/

theorem lastOf_append (keys codes : List UInt8) (c : UInt8) :
    lastOf keys (codes ++ [c]) = if c ∈ keys then some c else lastOf keys codes := by
  unfold lastOf
  rw [List.filter_append]
  split_ifs with hc
  · rw [List.filter_cons_of_pos (by simpa using hc), List.filter_nil, List.getLast?_concat]
  · rw [List.filter_cons_of_neg (by simpa using hc), List.filter_nil, List.append_nil]

theorem keystateAfter_append (codes : List UInt8) (c : UInt8) :
    keystateAfter (codes ++ [c]) = modifierUpdate (keystateAfter codes) c.toNat := by
  unfold keystateAfter
  rw [List.foldl_append]
  exact keystate_step _ _

theorem mem_shiftPresses (c : UInt8) : c ∈ shiftPresses ↔ c.toNat = 0x2A ∨ c.toNat = 0x36 := by
  simp only [shiftPresses, List.mem_cons, List.not_mem_nil, or_false, ← UInt8.toNat_inj]
  rfl

theorem mem_shiftCodes (c : UInt8) : c ∈ shiftCodes ↔
    c.toNat = 0x2A ∨ c.toNat = 0x36 ∨ c.toNat = 0xAA ∨ c.toNat = 0xB6 := by
  simp only [shiftCodes, List.mem_cons, List.not_mem_nil, or_false, ← UInt8.toNat_inj]
  rfl

theorem mem_cons_iff_toNat (c d : UInt8) (keys : List UInt8) :
    c ∈ d :: keys ↔ c.toNat = d.toNat ∨ c ∈ keys := by
  rw [List.mem_cons, UInt8.toNat_inj]

/-- SHIFT is set when the last code that concerns it, the release of CTRL included, is a press. -/
theorem shift_after (codes : List UInt8) :
    flagBitCheck (keystateAfter codes) keyboardStateShiftBit = true ↔
      ∃ c ∈ shiftPresses, lastOf (0x9D :: shiftCodes) codes = some c := by
  induction codes using List.reverseRecOn with
  | nil => simp [keystateAfter, lastOf, flagBitCheck]
  | append_singleton codes c ih =>
    have hpress := mem_shiftPresses c
    have hcodes : c ∈ 0x9D :: shiftCodes ↔ c.toNat = 0x9D ∨ c.toNat = 0x2A ∨ c.toNat = 0x36 ∨
        c.toNat = 0xAA ∨ c.toNat = 0xB6 := by
      rw [mem_cons_iff_toNat, mem_shiftCodes]
      rfl
    rw [keystateAfter_append, shift_step, lastOf_append]
    by_cases h1 : c.toNat = 0x2A ∨ c.toNat = 0x36
    · rw [if_pos h1, if_pos (hcodes.mpr (by omega))]
      simp [hpress.mpr h1]
    · rw [if_neg h1]
      by_cases h2 : c.toNat = 0xAA ∨ c.toNat = 0xB6 ∨ c.toNat = 0x9D
      · rw [if_pos h2, if_pos (hcodes.mpr (by omega))]
        have hno : c ∉ shiftPresses := fun h => h1 (hpress.mp h)
        simpa using hno
      · rw [if_neg h2, if_neg (fun h => by have := hcodes.mp h; omega)]
        exact ih

theorem ctrl_after (codes : List UInt8) :
    flagBitCheck (keystateAfter codes) keyboardStateCtrlBit = true ↔
      lastOf [0x1D, 0x9D] codes = some 0x1D := by
  induction codes using List.reverseRecOn with
  | nil => simp [keystateAfter, lastOf, flagBitCheck]
  | append_singleton codes c ih =>
    have hpress : c = 0x1D ↔ c.toNat = 0x1D := UInt8.toNat_inj.symm
    have hrelease : c = 0x9D ↔ c.toNat = 0x9D := UInt8.toNat_inj.symm
    rw [keystateAfter_append, ctrl_step, lastOf_append]
    by_cases h1 : c.toNat = 0x1D
    · rw [if_pos h1, hpress.mpr h1]
      simp
    · rw [if_neg h1]
      by_cases h2 : c.toNat = 0x9D
      · rw [if_pos h2, hrelease.mpr h2]
        simp
      · have hno : c ∉ [0x1D, 0x9D] := by
          simp [hpress, hrelease, h1, h2]
        rw [if_neg h2, if_neg hno]
        exact ih

theorem capslock_after (codes : List UInt8) :
    flagBitCheck (keystateAfter codes) keyboardStateCaplockBit = true ↔ Odd (codes.count 0x3A) := by
  induction codes using List.reverseRecOn with
  | nil => simp [keystateAfter, flagBitCheck]
  | append_singleton codes c ih =>
    have hkey : c = 0x3A ↔ c.toNat = 0x3A := UInt8.toNat_inj.symm
    rw [keystateAfter_append, capslock_step, List.count_append, List.count_singleton]
    by_cases hc : c.toNat = 0x3A
    · rw [hkey.mpr hc]
      simp only [beq_self_eq_true, if_true]
      rw [Nat.odd_add_one, ← ih]
      simp
    · have hne : (c == 0x3A) = false := by simpa [hkey] using hc
      rw [hne]
      simpa [hc] using ih

/-! ## The claim about all sequences -/

/-- With the codes of SHIFT alone, or with the release of CTRL among them. -/
theorem lastOf_shift (codes : List UInt8) :
    lastOf (0x9D :: shiftCodes) codes = some 0x9D ∨
      lastOf (0x9D :: shiftCodes) codes = lastOf shiftCodes codes := by
  induction codes using List.reverseRecOn with
  | nil => exact .inr rfl
  | append_singleton codes c ih =>
    rw [lastOf_append, lastOf_append]
    by_cases h1 : c = 0x9D
    · left
      rw [h1]
      rfl
    · by_cases h2 : c ∈ shiftCodes
      · right
        rw [if_pos h2, if_pos (List.mem_cons_of_mem _ h2)]
      · rw [if_neg h2, if_neg (fun h => (List.mem_cons.mp h).elim h1 h2)]
        exact ih

theorem tables_inRange (codes : List UInt8) : ∀ code ∈ codes, code.toNat < 0x54 →
    code.toNat < lower.length ∧ code.toNat < upper.length ∧ code.toNat < ctrl.length := by
  intro code _ hlt
  exact ⟨hlt, hlt, hlt⟩

/-- After any sequence of scancodes the modifiers are tracked, unless CTRL was released while a
shift key was held. -/
theorem modifiers_tracked_iff (codes : List UInt8) :
    ModifiersTracked codes ↔ ¬ CtrlReleasedInShift codes := by
  constructor
  · rintro h ⟨hheld, hreleased⟩
    obtain ⟨c, hc, hlast⟩ := (shift_after codes).mp (h.shift.mpr hheld)
    rw [hreleased] at hlast
    rw [← Option.some.inj hlast] at hc
    exact absurd hc (by decide)
  · intro h
    refine ⟨?_, ctrl_after codes, capslock_after codes, tables_inRange codes⟩
    rw [shift_after]
    rcases lastOf_shift codes with hreleased | hsame
    · constructor
      · rintro ⟨c, hc, hlast⟩
        rw [hreleased] at hlast
        rw [← Option.some.inj hlast] at hc
        exact absurd hc (by decide)
      · intro hheld
        exact absurd ⟨hheld, hreleased⟩ h
    · rw [hsame]

/-- SHIFT pressed, CTRL pressed and released: SHIFT is still held, and its bit is clear. -/
theorem modifiers_lost : ¬ ModifiersTracked [0x2A, 0x1D, 0x9D] := by
  intro h
  have hset := h.shift.mpr ⟨0x2A, by decide, by decide⟩
  exact absurd hset (by decide)

end Xeros.Analysis
