import Xeros.Model.Doprnt

/-!
# What the formatter puts out

Ordinary characters are handed on one by one, whatever the output function does.  The rules below
describe the loops of `_doprnt` for any output function that leaves the format alone.
-/

set_option autoImplicit false

namespace Xeros.Analysis

open Xeros.Foundations Xeros.Model

section Formatting

variable {κ : Type} {readable : ℕ → Bool} {put : Memory → κ → UInt8 → Memory × κ}
  {m : Memory} {out : κ} {fmt args string : ℕ} {s t rest : List UInt8}

/-- Hand on the characters of a list. -/
def putAll (put : Memory → κ → UInt8 → Memory × κ) : Memory → κ → List UInt8 → Memory × κ
  | m, out, [] => (m, out)
  | m, out, c :: t => putAll put (put m out c).1 (put m out c).2 t

/-- The characters put out leave the format where it is. -/
def KeepsFormat (put : Memory → κ → UInt8 → Memory × κ) (m : Memory) (out : κ) (t : List UInt8)
    (fmt : ℕ) (s : List UInt8) : Prop :=
  ∀ k ≤ t.length, CString (putAll put m out (t.take k)).1 fmt s

theorem KeepsFormat.start (h : KeepsFormat put m out t fmt s) : CString m fmt s :=
  h 0 (Nat.zero_le _)

/-- After the first character, the rest of the format is kept. -/
theorem KeepsFormat.tail {c d : UInt8} (h : KeepsFormat put m out (c :: t) fmt (d :: s)) :
    KeepsFormat put (put m out c).1 (put m out c).2 t (fmt + 1) s := by
  intro k hk
  have hnext := h (k + 1) (by rw [List.length_cons]; omega)
  rw [List.take_succ_cons] at hnext
  exact hnext.2.2

/-! ## The echo loop -/

theorem echoRound_char {c : UInt8} (hc : readByte readable m fmt = some c) (hne : c ≠ 0)
    (hp : c ≠ percent) (hfmt : fmt + 1 < 4294967296) :
    echoRound readable put ⟨m, out, fmt, args⟩ =
      some (.again ⟨(put m out c).1, (put m out c).2, fmt + 1, args⟩) := by
  unfold echoRound
  dsimp only
  rw [hc, Option.bind_eq_bind, Option.bind_some, if_pos hp, if_neg hne]
  unfold Doprnt.advance Doprnt.emit
  dsimp only
  rw [ptrSucc_of_lt hfmt]
  rfl

/-- The loop hands on the characters up to the first percent sign or the end of the format. -/
theorem echo_loop {n : ℕ} (ht : percent ∉ t) (hrest : rest = [] ∨ rest.head? = some percent)
    (hs : KeepsFormat put m out t fmt (t ++ rest))
    (hread : ∀ j ≤ t.length, readable (fmt + j) = true)
    (hfmt : fmt + t.length + 1 < 4294967296) (hn : t.length < n) :
    loop (echoRound readable put) n ⟨m, out, fmt, args⟩ =
      some (decide (rest = []),
        ⟨(putAll put m out t).1, (putAll put m out t).2, fmt + t.length + 1, args⟩) := by
  induction t generalizing m out fmt n with
  | nil =>
    obtain ⟨n, rfl⟩ := Nat.exists_eq_succ_of_ne_zero (by omega : n ≠ 0)
    have hreadable : readable fmt = true := hread 0 (le_refl 0)
    apply loop_succ_done
    rcases hrest with rfl | hhead
    · have hc : load8 m fmt = 0 := hs.start
      unfold echoRound
      dsimp only
      rw [readByte_of_readable hreadable, hc, Option.bind_eq_bind, Option.bind_some,
        if_pos (by decide), if_pos rfl]
      unfold Doprnt.advance
      rw [ptrSucc_of_lt (by simpa using hfmt)]
      rfl
    · obtain ⟨rest, rfl⟩ : ∃ u, rest = percent :: u := by
        cases rest with
        | nil => simp at hhead
        | cons c u => exact ⟨u, by rw [Option.some.inj hhead]⟩
      have hc : load8 m fmt = percent := hs.start.1
      unfold echoRound
      dsimp only
      rw [readByte_of_readable hreadable, hc, Option.bind_eq_bind, Option.bind_some,
        if_neg (by decide)]
      unfold Doprnt.advance
      rw [ptrSucc_of_lt (by simpa using hfmt)]
      rfl
  | cons c t ih =>
    obtain ⟨n, rfl⟩ := Nat.exists_eq_succ_of_ne_zero (by omega : n ≠ 0)
    rw [List.length_cons] at hread hfmt hn
    obtain ⟨hc, hne, -⟩ := hs.start
    have hfirst : readByte readable m fmt = some c := by
      rw [readByte_of_readable (show readable fmt = true from hread 0 (Nat.zero_le _)), hc]
    have hp : c ≠ percent := fun h => ht (by rw [h]; exact List.mem_cons_self)
    rw [loop_succ_again n (echoRound_char hfirst hne hp (by omega)),
      ih (fun h => ht (List.mem_cons_of_mem c h)) hs.tail (fun j hj => ?_) (by omega) (by omega)]
    · rw [show fmt + 1 + t.length + 1 = fmt + (c :: t).length + 1 by
        rw [List.length_cons]; omega]
      rfl
    · rw [Nat.add_assoc, Nat.add_comm 1 j]
      exact hread (j + 1) (by omega)

/-! ## One round of the main loop -/

/-- A format without percent sign is handed on, and the formatter returns. -/
theorem doprntRound_plain (ht : percent ∉ t) (hs : KeepsFormat put m out t fmt t)
    (hread : ∀ j ≤ t.length, readable (fmt + j) = true)
    (hfmt : fmt + t.length + 1 < 4294967296) :
    doprntRound readable put string ⟨m, out, fmt, args⟩ = some (.done
      ⟨(putAll put m out t).1, (putAll put m out t).2, fmt + t.length + 1, args⟩) := by
  have hrounds : (4294967296 : ℕ) < loopBound := by decide
  have hkeep : KeepsFormat put m out t fmt (t ++ []) := by rwa [List.append_nil]
  unfold doprntRound
  rw [echo_loop ht (.inl rfl) hkeep hread hfmt (by omega)]
  rfl

/-- Up to a percent sign the characters are handed on; a directive follows. -/
theorem doprntRound_percent {u : List UInt8} (ht : percent ∉ t)
    (hs : KeepsFormat put m out t fmt (t ++ percent :: u))
    (hread : ∀ j ≤ t.length, readable (fmt + j) = true)
    (hfmt : fmt + t.length + 1 < 4294967296) :
    doprntRound readable put string ⟨m, out, fmt, args⟩ = directive readable put string
      ⟨(putAll put m out t).1, (putAll put m out t).2, fmt + t.length + 1, args⟩ := by
  have hrounds : (4294967296 : ℕ) < loopBound := by decide
  unfold doprntRound
  rw [echo_loop ht (.inr rfl) hs hread hfmt (by omega), decide_eq_false (by simp)]
  rfl

/-! ## Directives -/

/-- `%%` -/
theorem directive_percent (hc : readByte readable m fmt = some percent)
    (hfmt : fmt + 1 < 4294967296) :
    directive readable put string ⟨m, out, fmt, args⟩ =
      some (.again ⟨(put m out percent).1, (put m out percent).2, fmt + 1, args⟩) := by
  unfold directive
  dsimp only
  rw [hc, Option.bind_eq_bind, Option.bind_some, if_pos rfl]
  unfold Doprnt.advance Doprnt.emit
  dsimp only
  rw [ptrSucc_of_lt hfmt]
  rfl

/-- A character that cannot belong to a field specification. -/
structure NoField (c : UInt8) : Prop where
  minus : c ≠ '-'.toUInt8
  zero : c ≠ '0'.toUInt8
  star : c ≠ '*'.toUInt8
  digit : ¬ ('0'.toUInt8 ≤ c ∧ c ≤ '9'.toUInt8)
  dot : c ≠ '.'.toUInt8
  long : c ≠ 'l'.toUInt8

/-- Such a character leaves the field as it is by default. -/
theorem readField_none {c : UInt8} (hc : readByte readable m fmt = some c) (hno : NoField c) :
    readField readable (⟨m, out, fmt, args⟩ : Doprnt κ) =
      some (⟨false, ' '.toUInt8, 0, 0⟩, ⟨m, out, fmt, args⟩) := by
  obtain ⟨hminus, hzero, hstar, hdigit, hdot, hlong⟩ := hno
  have hwidth : readWidth readable (⟨m, out, fmt, args⟩ : Doprnt κ) =
      some (0, ⟨m, out, fmt, args⟩) := by
    have hround : digitsRound readable m (fmt, 0) = some (.done (fmt, 0)) := by
      unfold digitsRound
      dsimp only
      rw [hc, Option.bind_eq_bind, Option.bind_some, if_neg hdigit]
      rfl
    unfold readWidth
    dsimp only
    rw [hc, Option.bind_eq_bind, Option.bind_some, if_neg hstar,
      show loop (digitsRound readable m) loopBound (fmt, 0) = some (fmt, 0) from
        loop_succ_done (loopBound - 1) hround]
    rfl
  have hprecision : readPrecision readable (⟨m, out, fmt, args⟩ : Doprnt κ) =
      some (0, ⟨m, out, fmt, args⟩) := by
    unfold readPrecision
    dsimp only
    rw [hc, Option.bind_eq_bind, Option.bind_some, if_neg hdot]
    rfl
  unfold readField
  simp only [hc, Option.bind_eq_bind, Option.bind_some, hminus, hzero, hlong, hwidth, hprecision,
    decide_false, if_false, Bool.false_eq_true, Option.pure_def]

/-- A percent sign at the end of the format is put out. -/
theorem directive_end (hc : readByte readable m fmt = some 0) :
    directive readable put string ⟨m, out, fmt, args⟩ = some (.done
      ⟨(put m out percent).1, (put m out percent).2, ptrSucc fmt, args⟩) := by
  have hno : NoField 0 := by constructor <;> decide
  unfold directive
  dsimp only
  rw [hc, Option.bind_eq_bind, Option.bind_some, if_neg (by decide), readField_none hc hno,
    Option.bind_eq_bind, Option.bind_some]
  dsimp only
  rw [hc, Option.bind_eq_bind, Option.bind_some, if_pos rfl]
  rfl

/-! ## The conversion `%s` -/

/-- The length of a string, counted from `i` on. -/
theorem length_loop {w : List UInt8} {str n i : ℕ} (hs : CString m str w)
    (hread : ∀ j ≤ w.length, readable (str + j) = true) (hstr : str + w.length < 4294967296)
    (hmax : w.length < 2147483648) (hi : i ≤ w.length) (hn : w.length - i < n) :
    loop (lengthRound readable m str) n i = some (w.length : ℤ) := by
  obtain ⟨k, hk⟩ : ∃ k, w.length - i = k := ⟨_, rfl⟩
  have haddr : toWord ((str : ℤ) + i) = str + i := by
    unfold toWord
    omega
  induction k generalizing i n with
  | zero =>
    obtain ⟨n, rfl⟩ := Nat.exists_eq_succ_of_ne_zero (by omega : n ≠ 0)
    obtain rfl : i = w.length := by omega
    apply loop_succ_done
    unfold lengthRound
    rw [haddr, readByte_of_readable (hread _ hi), hs.zero]
    rfl
  | succ k ih =>
    obtain ⟨n, rfl⟩ := Nat.exists_eq_succ_of_ne_zero (by omega : n ≠ 0)
    obtain ⟨hbyte, hne⟩ := hs.byte (show i < w.length by omega)
    have hround : lengthRound readable m str i = some (.again ((i + 1 : ℕ) : ℤ)) := by
      unfold lengthRound
      rw [haddr, readByte_of_readable (hread _ hi), hbyte, Option.bind_eq_bind, Option.bind_some,
        if_pos hne, wrapInt_of_range (by omega) (by omega)]
      rfl
    rw [loop_succ_again n hround]
    apply ih (by omega) (by omega) (by omega)
    unfold toWord
    omega

theorem putString_text {w : List UInt8} {str : ℕ} (hs : KeepsFormat put m out w str w)
    (hread : ∀ j ≤ w.length, readable (str + j) = true) (hstr : str + w.length < 4294967296) :
    putString readable put w.length str ⟨m, out, fmt, args⟩ =
      some ⟨(putAll put m out w).1, (putAll put m out w).2, fmt, args⟩ := by
  induction w generalizing m out str with
  | nil => rfl
  | cons c w ih =>
    rw [List.length_cons] at hread hstr
    have hc : readByte readable m str = some c := by
      rw [readByte_of_readable (show readable str = true from hread 0 (Nat.zero_le _)),
        hs.start.1]
    rw [List.length_cons, putString]
    dsimp only
    rw [hc, Option.bind_eq_bind, Option.bind_some, ptrSucc_of_lt (by omega)]
    apply ih hs.tail (fun j hj => ?_) (by omega)
    rw [Nat.add_assoc, Nat.add_comm 1 j]
    exact hread (j + 1) (by omega)

/-- `%s` puts out the string that the next argument points to. -/
theorem directive_string {w : List UInt8} {str : ℕ}
    (hc : readByte readable m fmt = some 's'.toUInt8) (hfmt : fmt + 1 < 4294967296)
    (hargs : readInt readable m args = some (toInt str))
    (hs : KeepsFormat put m out w str w) (hread : ∀ j ≤ w.length, readable (str + j) = true)
    (hstr : str + w.length < 4294967296) (hmax : w.length < 2147483648) :
    directive readable put string ⟨m, out, fmt, args⟩ = some (.again
      ⟨(putAll put m out w).1, (putAll put m out w).2, fmt + 1, intSucc args⟩) := by
  have hno : NoField 's'.toUInt8 := by constructor <;> decide
  have hrounds : (2147483648 : ℕ) < loopBound := by decide
  have hptr : toWord (toInt str) = str := by
    unfold toWord toInt wrapInt
    omega
  have hconvert : convert readable put string 's'.toUInt8 ⟨false, ' '.toUInt8, 0, 0⟩
      (⟨m, out, fmt + 1, args⟩ : Doprnt κ) =
      some (⟨str, 0, ' '.toUInt8, 0⟩, ⟨m, out, fmt + 1, args⟩) := by
    unfold convert
    rw [if_neg (by decide), if_pos rfl]
    dsimp only
    rw [hargs, Option.bind_eq_bind, Option.bind_some, hptr]
    rfl
  have hput : putField readable put ⟨false, ' '.toUInt8, 0, 0⟩ ⟨str, 0, ' '.toUInt8, 0⟩
      (⟨m, out, fmt + 1, args⟩ : Doprnt κ) =
      some ⟨(putAll put m out w).1, (putAll put m out w).2, fmt + 1, intSucc args⟩ := by
    have hlen : loop (lengthRound readable m str) loopBound 0 = some (w.length : ℤ) :=
      length_loop hs.start hread hstr hmax (Nat.zero_le _) (by omega)
    unfold putField
    dsimp only
    have hplus : ¬ (0 : UInt8) = '-'.toUInt8 := by decide
    simp only [hlen, Option.bind_eq_bind, Option.bind_some, ite_self, ne_eq, not_true_eq_false,
      false_and, or_self, if_false, hplus, Int.toNat_zero, putFill, Bool.false_eq_true,
      Int.toNat_natCast, putString_text hs hread hstr]
    rfl
  unfold directive
  dsimp only
  rw [hc, Option.bind_eq_bind, Option.bind_some, if_neg (by decide), readField_none hc hno,
    Option.bind_eq_bind, Option.bind_some]
  dsimp only
  rw [hc, Option.bind_eq_bind, Option.bind_some, if_neg (by decide)]
  unfold Doprnt.advance
  dsimp only
  rw [ptrSucc_of_lt hfmt, hconvert, Option.bind_eq_bind, Option.bind_some]
  dsimp only
  rw [hput]
  rfl

end Formatting

end Xeros.Analysis
