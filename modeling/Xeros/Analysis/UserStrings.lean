import Xeros.Analysis.UserPointers
import Xeros.Foundations.Strings

/-!
# User strings are checked to their end

`verify_usrstr` looks at one address after the other.  It stops at the first zero byte or at the
first address that user programs may not use, at the latest just above the memory.
-/

set_option autoImplicit false

namespace Xeros.Analysis

open Xeros.Foundations Xeros.Model

/-- The string at `str` has its terminating zero at the offset `k`, and user programs may use all
its addresses. -/
structure StringEndsAt (h : Heap) (str k : ℕ) : Prop where
  zero : load8 h.mem (str + k) = 0
  first : ∀ j < k, load8 h.mem (str + j) ≠ 0
  accessible : ∀ j ≤ k, Accessible h ((str + j : ℕ) : ℤ)

/-- The same machine with other contents of its memory. -/
def withMem (h : Heap) (m : Memory) : Heap := { h with mem := m }

variable {h : Heap} {str k : ℕ}

/-! ## One address -/

theorem verifyUsrptr_byte (hl : MemoryLayout h) (hstr : str < 4294967296) :
    h.verifyUsrptr str 1 = some ok ∧ Accessible h str ∨
      h.verifyUsrptr str 1 = some einval ∧ ¬ Accessible h str := by
  have hmax := kmemMaxaddr_range h
  have hiff : h.verifyUsrptr str 1 = some ok ↔ Accessible h str := by
    rw [verifyUsrptr_eq_ok (by decide) (by decide)]
    simp only [fallsInKstack_iff hl]
    unfold Heap.fallsInHole Accessible
    obtain ⟨a, ha⟩ : ∃ a, toInt str = a := ⟨_, rfl⟩
    obtain ⟨hlo, hhi⟩ := wrapInt_range (str : ℤ)
    have hlo' : -2147483648 ≤ a := ha ▸ hlo
    have hhi' : a < 2147483648 := ha ▸ hhi
    have hend : wrapInt (toInt str + 1 - 1) = a := by
      rw [ha, wrapInt_of_range (by omega) (by omega)]
      omega
    have hvalue : a = str ∧ str < 2147483648 ∨ a = (str : ℤ) - 4294967296 ∧ 2147483648 ≤ str := by
      rw [← ha]
      unfold toInt wrapInt
      omega
    rw [hend, ha]
    constructor
    · rintro ⟨h1, h2, h3, -, h5, -⟩
      rcases hvalue with ⟨rfl, -⟩ | ⟨hneg, -⟩
      · exact ⟨by omega, h2, h3, h5⟩
      · omega
    · rintro ⟨h1, h2, h3, h4⟩
      rcases hvalue with ⟨rfl, -⟩ | ⟨-, hbig⟩
      · exact ⟨by omega, h2, h3, h3, h4, h4⟩
      · omega
  by_cases hacc : Accessible h str
  · exact .inl ⟨hiff.mpr hacc, hacc⟩
  · right
    refine ⟨?_, hacc⟩
    have hno := fun hok => hacc (hiff.mp hok)
    unfold Heap.verifyUsrptr at hno ⊢
    rw [cAssert_pos (by decide), Option.bind_eq_bind, Option.bind_some] at hno ⊢
    dsimp only at hno ⊢
    split_ifs at hno ⊢ <;> first | rfl | exact absurd rfl hno

/-! ## The loop -/

theorem usrstrRound_rejects (hl : MemoryLayout h) (hstr : str < 4294967296)
    (hacc : ¬ Accessible h str) : h.usrstrRound str = some (.done einval) := by
  rcases verifyUsrptr_byte hl hstr with ⟨-, hyes⟩ | ⟨hv, -⟩
  · exact absurd hyes hacc
  · unfold Heap.usrstrRound
    rw [hv]
    rfl

theorem usrstrRound_accepts (hl : MemoryLayout h) (hstr : str < 4294967296)
    (hacc : Accessible h str) : h.usrstrRound str =
      if load8 h.mem str = 0 then some (.done ok) else some (.again (str + 1)) := by
  have hmax := kmemMaxaddr_range h
  have hle := hacc.2.1
  rcases verifyUsrptr_byte hl hstr with ⟨hv, -⟩ | ⟨-, hno⟩
  · unfold Heap.usrstrRound
    rw [hv, Option.bind_eq_bind, Option.bind_some, if_neg (by simp),
      Nat.mod_eq_of_lt (by omega : str + 1 < 4294967296)]
    by_cases hz : load8 h.mem str = 0
    · rw [if_pos hz, if_neg (not_not.mpr hz)]
    · rw [if_neg hz, if_pos hz]
  · exact absurd hacc hno

/-- The string goes on after its first byte. -/
theorem stringEndsAt_succ (hacc : Accessible h str) (hne : load8 h.mem str ≠ 0) :
    StringEndsAt h str (k + 1) ↔ StringEndsAt h (str + 1) k := by
  have hshift : ∀ j, str + 1 + j = str + (j + 1) := fun j => by omega
  constructor
  · intro hend
    constructor
    · rw [hshift]
      exact hend.zero
    · intro j hj
      rw [hshift]
      exact hend.first (j + 1) (by omega)
    · intro j hj
      rw [hshift]
      exact hend.accessible (j + 1) (by omega)
  · intro hend
    constructor
    · rw [← hshift]
      exact hend.zero
    · intro j hj
      cases j with
      | zero => exact hne
      | succ j =>
        rw [← hshift]
        exact hend.first j (by omega)
    · intro j hj
      cases j with
      | zero => exact hacc
      | succ j =>
        rw [← hshift]
        exact hend.accessible j (by omega)

/-- What the loop answers from `str` on. -/
structure Answered (h : Heap) (str : ℕ) (r : ℤ) : Prop where
  code : r = ok ∨ r = einval
  accepts : r = ok ↔ ∃ k, StringEndsAt h str k

theorem answered_rejected (hacc : ¬ Accessible h str) : Answered h str einval := by
  refine ⟨.inr rfl, ?_⟩
  constructor
  · intro heq
    exact absurd heq (by decide)
  · rintro ⟨k, hend⟩
    exact absurd (hend.accessible 0 (Nat.zero_le k)) hacc

theorem answered_succ {r : ℤ} (hacc : Accessible h str) (hne : load8 h.mem str ≠ 0)
    (hr : Answered h (str + 1) r) : Answered h str r := by
  refine ⟨hr.code, hr.accepts.trans ?_⟩
  constructor
  · rintro ⟨k, hend⟩
    exact ⟨k + 1, (stringEndsAt_succ hacc hne).mpr hend⟩
  · rintro ⟨k, hend⟩
    cases k with
    | zero => exact absurd hend.zero hne
    | succ k => exact ⟨k, (stringEndsAt_succ hacc hne).mp hend⟩

/-- The loop ends at the latest above the memory: the distance to `kmem_maxaddr` bounds its
rounds. -/
theorem usrstrLoop_answers (hl : MemoryLayout h) {n d : ℕ} (hstr : str < 4294967296)
    (hd : h.kmemMaxaddr < str + d) (hn : d < n) :
    ∃ r, loop h.usrstrRound n str = some r ∧ Answered h str r := by
  induction d generalizing str n with
  | zero =>
    have hacc : ¬ Accessible h str := by
      intro hacc
      have hle := hacc.2.1
      omega
    obtain ⟨n, rfl⟩ := Nat.exists_eq_succ_of_ne_zero (by omega : n ≠ 0)
    exact ⟨einval, loop_succ_done n (usrstrRound_rejects hl hstr hacc), answered_rejected hacc⟩
  | succ d ih =>
    obtain ⟨n, rfl⟩ := Nat.exists_eq_succ_of_ne_zero (by omega : n ≠ 0)
    by_cases hacc : Accessible h str
    · have hround := usrstrRound_accepts hl hstr hacc
      by_cases hz : load8 h.mem str = 0
      · rw [if_pos hz] at hround
        refine ⟨ok, loop_succ_done n hround, .inl rfl, ?_⟩
        constructor
        · intro _
          exact ⟨0, hz, by simp, fun j hj => by rw [Nat.le_zero.mp hj]; exact hacc⟩
        · intro _
          rfl
      · rw [if_neg hz] at hround
        have hle := hacc.2.1
        have hmax := kmemMaxaddr_range h
        have hlt : str + 1 < 4294967296 := by omega
        have hreach : h.kmemMaxaddr < ((str + 1 : ℕ) : ℤ) + d := by
          push_cast
          omega
        obtain ⟨r, hr, hans⟩ := ih (n := n) hlt hreach (by omega)
        exact ⟨r, (loop_succ_again n hround).trans hr, answered_succ hacc hz hans⟩
    · exact ⟨einval, loop_succ_done n (usrstrRound_rejects hl hstr hacc), answered_rejected hacc⟩

theorem verifyUsrstr_answers (hl : MemoryLayout h) (hstr : str < 4294967296) :
    ∃ r, h.verifyUsrstr str = some r ∧ Answered h str r := by
  have hmax := kmemMaxaddr_range h
  apply usrstrLoop_answers hl (d := 2147483648) hstr
  · push_cast
    omega
  · decide

/-- Memories that agree where user programs may look give the same rounds. -/
theorem usrstrRound_congr (hl : MemoryLayout h) {m : Memory}
    (hm : ∀ a : ℕ, Accessible h a → load8 m a = load8 h.mem a) (hstr : str < 4294967296) :
    (withMem h m).usrstrRound str = h.usrstrRound str := by
  have hl' : MemoryLayout (withMem h m) := ⟨hl.kstack, hl.freemem, hl.maxaddr⟩
  by_cases hacc : Accessible h str
  · rw [usrstrRound_accepts hl' hstr hacc, usrstrRound_accepts hl hstr hacc, ← hm str hacc]
    rfl
  · rw [usrstrRound_rejects hl' hstr hacc, usrstrRound_rejects hl hstr hacc]

theorem usrstrLoop_congr (hl : MemoryLayout h) {m : Memory}
    (hm : ∀ a : ℕ, Accessible h a → load8 m a = load8 h.mem a) (hstr : str < 4294967296) (n : ℕ) :
    loop (withMem h m).usrstrRound n str = loop h.usrstrRound n str := by
  induction n generalizing str with
  | zero => rfl
  | succ n ih =>
    have hround := usrstrRound_congr hl hm hstr
    by_cases hacc : Accessible h str
    · have hround' := usrstrRound_accepts hl hstr hacc
      by_cases hz : load8 h.mem str = 0
      · rw [if_pos hz] at hround'
        rw [loop_succ_done n (hround.trans hround'), loop_succ_done n hround']
      · rw [if_neg hz] at hround'
        have hle := hacc.2.1
        have hmax := kmemMaxaddr_range h
        rw [loop_succ_again n (hround.trans hround'), loop_succ_again n hround']
        exact ih (by omega)
    · have hround' := usrstrRound_rejects hl hstr hacc
      rw [loop_succ_done n (hround.trans hround'), loop_succ_done n hround']

/-- For every memory and every start address `verify_usrstr` terminates.  It accepts exactly the
strings that end in accessible memory, answers `EINVAL` otherwise, and depends on no byte that
`verify_usrptr` does not accept. -/
theorem verifyUsrstr_exact (hl : MemoryLayout h) (hstr : str < 4294967296) :
    ((∃ k, StringEndsAt h str k) ∧ h.verifyUsrstr str = some ok ∨
      (¬ ∃ k, StringEndsAt h str k) ∧ h.verifyUsrstr str = some einval) ∧
    ∀ m : Memory, (∀ a < 4294967296, h.verifyUsrptr a 1 = some ok → load8 m a = load8 h.mem a) →
      (withMem h m).verifyUsrstr str = h.verifyUsrstr str := by
  obtain ⟨r, hr, hans⟩ := verifyUsrstr_answers hl hstr
  constructor
  · rcases hans.code with rfl | rfl
    · exact .inl ⟨hans.accepts.mp rfl, hr⟩
    · exact .inr ⟨fun hend => absurd (hans.accepts.mpr hend) (by decide), hr⟩
  · intro m hm
    apply usrstrLoop_congr hl ?_ hstr
    intro a hacc
    have hle := hacc.2.1
    have hmax := kmemMaxaddr_range h
    have ha : a < 4294967296 := by omega
    rcases verifyUsrptr_byte hl ha with ⟨hv, -⟩ | ⟨-, hno⟩
    · exact hm a ha hv
    · exact absurd hacc hno

/-- The bytes up to the zero are a string. -/
theorem StringEndsAt.cString (hend : StringEndsAt h str k) : ∃ s, CString h.mem str s := by
  induction k generalizing str with
  | zero => exact ⟨[], hend.zero⟩
  | succ k ih =>
    have hne : load8 h.mem str ≠ 0 := hend.first 0 (by omega)
    obtain ⟨s, hs⟩ := ih ((stringEndsAt_succ (hend.accessible 0 (Nat.zero_le _)) hne).mp hend)
    exact ⟨load8 h.mem str :: s, rfl, hne, hs⟩

/-- A memory with one string in it, at 60000. -/
def oneString (s : List UInt8) : Memory := storeString (fun _ => 0) 60000 s

/-- The string `"hi"` is accepted, also when something else is on the kernel stack. -/
theorem verifyUsrstr_exact_hi :
    (withMem smallHeap (oneString [104, 105])).verifyUsrstr 60000 = some ok ∧
      (withMem smallHeap (store8 (oneString [104, 105]) 120000 7)).verifyUsrstr 60000 =
        some ok := by
  have hl : MemoryLayout (withMem smallHeap (oneString [104, 105])) :=
    ⟨smallHeap_layout.kstack, smallHeap_layout.freemem, smallHeap_layout.maxaddr⟩
  have hstr : 60000 < 4294967296 := by decide
  obtain ⟨hans, hsame⟩ := verifyUsrstr_exact hl hstr
  have hend : ∃ k, StringEndsAt (withMem smallHeap (oneString [104, 105])) 60000 k := by
    refine ⟨2, by decide, by decide, fun j hj => ?_⟩
    interval_cases j <;> exact ⟨by decide, by decide, by decide, by decide⟩
  have hok : (withMem smallHeap (oneString [104, 105])).verifyUsrstr 60000 = some ok := by
    rcases hans with ⟨-, hok⟩ | ⟨hno, -⟩
    · exact hok
    · exact absurd hend hno
  refine ⟨hok, ?_⟩
  rw [← hok]
  refine hsame _ fun a ha hv => ?_
  by_cases hstack : a = 120000
  · rw [hstack] at hv
    exact absurd hv (by decide)
  · rw [load8_store8_of_lt _ _ (by decide) ha, if_neg hstack]
    rfl

end Xeros.Analysis
