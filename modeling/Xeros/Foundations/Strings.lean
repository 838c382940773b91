import Xeros.Foundations.Words

/-!
# Strings in memory

A string is the list of its bytes, none of which is zero; in memory a zero byte follows it.
`CString` says where a string stands, `storeBytes` writes one, `readByte` is a read of a program
that may look at some addresses only.
-/

set_option autoImplicit false

namespace Xeros.Foundations

variable {m m' : Memory} {a x : ℕ} {s t : List UInt8} {readable : ℕ → Bool}

/-- The string `s` stands at `a`. -/
def CString (m : Memory) : ℕ → List UInt8 → Prop
  | a, [] => load8 m a = 0
  | a, c :: s => load8 m a = c ∧ c ≠ 0 ∧ CString m (a + 1) s

/-- Write the bytes of a list from `a` on. -/
def storeBytes (m : Memory) : ℕ → List UInt8 → Memory
  | _, [] => m
  | a, c :: s => storeBytes (store8 m a c) (a + 1) s

/-- Write a string and its zero at `a`. -/
def storeString (m : Memory) (a : ℕ) (s : List UInt8) : Memory :=
  store8 (storeBytes m a s) (a + s.length) 0

/-- The address after `a`. -/
def ptrSucc (a : ℕ) : ℕ := (a + 1) % 4294967296

/-- Read the byte at `a`, where the program may look at the addresses in `readable`. -/
def readByte (readable : ℕ → Bool) (m : Memory) (a : ℕ) : Option UInt8 :=
  if readable a then some (load8 m a) else none

theorem ptrSucc_of_lt (h : a + 1 < 4294967296) : ptrSucc a = a + 1 := Nat.mod_eq_of_lt h

theorem readByte_of_readable (h : readable a = true) : readByte readable m a = some (load8 m a) :=
  if_pos h

/-- Memories that agree on the bytes of a string, its zero included, have it at the same place. -/
theorem CString.congr (h : CString m a s)
    (hm : ∀ j ≤ s.length, load8 m' (a + j) = load8 m (a + j)) : CString m' a s := by
  induction s generalizing a with
  | nil => exact (hm 0 (le_refl 0)).trans h
  | cons c s ih =>
    obtain ⟨hc, hne, hs⟩ := h
    refine ⟨(hm 0 (Nat.zero_le _)).trans hc, hne, ih hs fun j hj => ?_⟩
    have hj' := hm (j + 1) (by rw [List.length_cons]; omega)
    rwa [Nat.add_assoc, Nat.add_comm 1 j]

/-- The rest of a string stands after its beginning. -/
theorem CString.drop (h : CString m a (s ++ t)) : CString m (a + s.length) t := by
  induction s generalizing a with
  | nil => exact h
  | cons c s ih =>
    obtain ⟨-, -, hs⟩ := h
    rw [List.length_cons, Nat.add_comm s.length 1, ← Nat.add_assoc]
    exact ih hs

theorem CString.byte (h : CString m a s) {j : ℕ} (hj : j < s.length) :
    load8 m (a + j) = s[j] ∧ s[j] ≠ 0 := by
  induction s generalizing a j with
  | nil => simp at hj
  | cons c s ih =>
    obtain ⟨hc, hne, hs⟩ := h
    cases j with
    | zero => exact ⟨hc, hne⟩
    | succ j =>
      have hbyte := ih hs (by simpa using hj)
      rw [Nat.add_assoc, Nat.add_comm 1 j] at hbyte
      exact hbyte

theorem CString.ne_zero (h : CString m a s) : ∀ c ∈ s, c ≠ 0 := by
  intro c hc
  obtain ⟨j, hj, rfl⟩ := List.mem_iff_getElem.mp hc
  exact (h.byte hj).2

theorem CString.zero (h : CString m a s) : load8 m (a + s.length) = 0 := by
  rw [← List.append_nil s] at h
  exact h.drop

/-- The bytes of a string with its zero. -/
theorem CString.getD (h : CString m a s) {j : ℕ} (hj : j ≤ s.length) :
    load8 m (a + j) = s.getD j 0 := by
  rcases Nat.eq_or_lt_of_le hj with rfl | hlt
  · rw [h.zero, List.getD_eq_getElem?_getD, List.getElem?_eq_none (le_refl _)]
    rfl
  · rw [(h.byte hlt).1, List.getD_eq_getElem?_getD, List.getElem?_eq_getElem hlt]
    rfl

theorem load8_store8_of_lt (m : Memory) {a c : ℕ} (b : UInt8) (ha : a < 4294967296)
    (hc : c < 4294967296) : load8 (store8 m a b) c = if c = a then b else load8 m c := by
  rw [load8_store8, Nat.mod_eq_of_lt ha, Nat.mod_eq_of_lt hc]

/-- Bytes elsewhere are left alone. -/
theorem load8_storeBytes_of_ne (ha : a + s.length ≤ 4294967296) (hx : x < 4294967296)
    (hout : x < a ∨ a + s.length ≤ x) : load8 (storeBytes m a s) x = load8 m x := by
  induction s generalizing a m with
  | nil => rfl
  | cons c s ih =>
    rw [List.length_cons] at ha hout
    unfold storeBytes
    rw [ih (by omega) (by omega), load8_store8_of_lt _ _ (by omega) hx, if_neg (by omega)]

theorem load8_storeBytes (ha : a + s.length ≤ 4294967296) {j : ℕ} (hj : j < s.length) :
    load8 (storeBytes m a s) (a + j) = s[j] := by
  induction s generalizing a m j with
  | nil => simp at hj
  | cons c s ih =>
    rw [List.length_cons] at ha
    unfold storeBytes
    cases j with
    | zero =>
      rw [load8_storeBytes_of_ne (by omega) (by omega) (.inl (by omega)),
        load8_store8_of_lt _ _ (by omega) (by omega), if_pos (Nat.add_zero a)]
      rfl
    | succ j =>
      have hj' : j < s.length := by simpa using hj
      have hshift : a + (j + 1) = a + 1 + j := by omega
      rw [hshift, ih (by omega) hj']
      rfl

theorem storeBytes_append (m : Memory) (a : ℕ) (s t : List UInt8) :
    storeBytes m a (s ++ t) = storeBytes (storeBytes m a s) (a + s.length) t := by
  induction s generalizing m a with
  | nil => rfl
  | cons c s ih =>
    rw [List.cons_append, List.length_cons, Nat.add_comm s.length 1, ← Nat.add_assoc]
    exact ih _ _

/-- A string that is written changes its own bytes only. -/
theorem load8_storeString_of_ne (ha : a + s.length < 4294967296) (hx : x < 4294967296)
    (hout : x < a ∨ a + s.length < x) : load8 (storeString m a s) x = load8 m x := by
  unfold storeString
  rw [load8_store8_of_lt _ _ ha hx, if_neg (by omega),
    load8_storeBytes_of_ne (by omega) hx (by omega)]

theorem load8_storeString (ha : a + s.length < 4294967296) {j : ℕ} (hj : j ≤ s.length) :
    load8 (storeString m a s) (a + j) = s.getD j 0 := by
  unfold storeString
  rw [load8_store8_of_lt _ _ ha (by omega)]
  rcases Nat.eq_or_lt_of_le hj with rfl | hlt
  · rw [if_pos rfl, List.getD_eq_getElem?_getD, List.getElem?_eq_none (le_refl _)]
    rfl
  · rw [if_neg (by omega), load8_storeBytes ha.le hlt, List.getD_eq_getElem?_getD,
      List.getElem?_eq_getElem hlt]
    rfl

/-- Bytes without a zero among them, and then a zero, are a string. -/
theorem cString_storeString (hs : ∀ c ∈ s, c ≠ 0) (ha : a + s.length < 4294967296) :
    CString (storeString m a s) a s := by
  have hbyte : ∀ j ≤ s.length, load8 (storeString m a s) (a + j) = s.getD j 0 :=
    fun j hj => load8_storeString ha hj
  generalize storeString m a s = m' at hbyte ⊢
  clear ha
  induction s generalizing a with
  | nil => exact hbyte 0 (le_refl 0)
  | cons c s ih =>
    refine ⟨hbyte 0 (Nat.zero_le _), hs c (by simp), ih (fun d hd => hs d (by simp [hd])) ?_⟩
    intro j hj
    have hj' := hbyte (j + 1) (by rw [List.length_cons]; omega)
    rwa [List.getD_cons_succ, Nat.add_comm j 1, ← Nat.add_assoc] at hj'

/-- A string stays where it is when another one is written somewhere else. -/
theorem CString.storeString {b : ℕ} (hs : CString m a s) (ha : a + s.length < 4294967296)
    (hb : b + t.length < 4294967296) (hapart : b + t.length < a ∨ a + s.length < b) :
    CString (storeString m b t) a s := by
  apply hs.congr
  intro j hj
  exact load8_storeString_of_ne hb (by omega) (by omega)

end Xeros.Foundations
