import Mathlib.Data.List.TakeWhile
import Xeros.Model.Shell

/-!
# Parsing a command line

`get_command` walks through the line with one cursor: over the command, the separators, the argument
and the rest, and then back over the final blanks.  Each loop is described once, for a string in
memory, and the function is their composition.
-/

set_option autoImplicit false

namespace Xeros.Analysis

open Xeros.Foundations Xeros.Model

/-- Neither a blank nor an ampersand. -/
def isWordChar (c : UInt8) : Bool := !isSeparator c

/-- The longest prefix of a line without blank or ampersand. -/
def commandOf (text : List UInt8) : List UInt8 := text.takeWhile isWordChar

/-- What follows the command and the next run of blanks and ampersands. -/
def afterCommand (text : List UInt8) : List UInt8 :=
  (text.dropWhile isWordChar).dropWhile isSeparator

/-- The longest run without blank or ampersand there. -/
def argumentOf (text : List UInt8) : List UInt8 := (afterCommand text).takeWhile isWordChar

/-- Among the characters up to `i`, the last one that is not a blank is an ampersand, and not the
first character. -/
def AmpersandUpTo (text : List UInt8) (i : ℕ) : Prop :=
  ∃ j, 1 ≤ j ∧ j ≤ i ∧ (text[j]? = some ampersandChar) ∧
    ∀ k, j < k → k ≤ i → (text[k]? = some blank)

/-- The last character that is not a blank is an ampersand, at index 1 or later. -/
def EndsInAmpersand (text : List UInt8) : Prop :=
  ∃ j, 1 ≤ j ∧ (text[j]? = some ampersandChar) ∧
    ∀ k, j < k → k < text.length → (text[k]? = some blank)

/-- Where the line and the two buffers are: the buffers have room for the words and their zeros, and
nothing overlaps. -/
structure LineLayout (text : List UInt8) (str command arg : ℕ) : Prop where
  count : text.length < 2147483648
  fitsLine : str + text.length < 4294967296
  fitsCommand : command + (commandOf text).length < 4294967296
  fitsArg : arg + (argumentOf text).length < 4294967296
  lineCommand : command + (commandOf text).length < str ∨ str + text.length < command
  lineArg : arg + (argumentOf text).length < str ∨ str + text.length < arg
  commandArg : command + (commandOf text).length < arg ∨ arg + (argumentOf text).length < command

/-! ## The loops -/

section Loops

variable {readable : ℕ → Bool} {m : Memory} {s : List UInt8} {str dst n : ℕ} {len : ℤ}

/-- The copying loop stores the word at its cursor and goes to the word's end. -/
theorem copyWord_loop (hs : CString m str s) (hread : ∀ j ≤ s.length, readable (str + j) = true)
    (hstr : str + s.length < 4294967296)
    (hdst : dst + (s.takeWhile isWordChar).length < 4294967296)
    (hapart : dst + (s.takeWhile isWordChar).length ≤ str ∨ str + s.length < dst)
    (hlen : 0 ≤ len) (hmax : len + s.length < 2147483648) (hn : s.length < n) :
    loop (copyWordRound readable) n ⟨m, str, dst, len⟩ =
      some ⟨storeBytes m dst (s.takeWhile isWordChar), str + (s.takeWhile isWordChar).length,
        dst + (s.takeWhile isWordChar).length, len + (s.takeWhile isWordChar).length⟩ := by
  induction s generalizing m str dst len n with
  | nil =>
    obtain ⟨n, rfl⟩ := Nat.exists_eq_succ_of_ne_zero (by omega : n ≠ 0)
    have hround : copyWordRound readable ⟨m, str, dst, len⟩ = some (.done ⟨m, str, dst, len⟩) := by
      unfold copyWordRound
      dsimp only
      rw [readByte_of_readable (show readable str = true from hread 0 (le_refl 0)),
        show load8 m str = 0 from hs]
      rfl
    rw [loop_succ_done n hround]
    simp [storeBytes]
  | cons c s ih =>
    obtain ⟨n, rfl⟩ := Nat.exists_eq_succ_of_ne_zero (by omega : n ≠ 0)
    obtain ⟨hc, hne, hs⟩ := hs
    have hfirst : readByte readable m str = some c := by
      rw [readByte_of_readable (show readable str = true from hread 0 (Nat.zero_le _)), hc]
    rw [List.length_cons] at hread hstr hmax hn hapart
    by_cases hword : isWordChar c = true
    · have hsep : ¬ isSeparator c = true := by simpa [isWordChar] using hword
      rw [List.takeWhile_cons_of_pos hword, List.length_cons] at hdst hapart ⊢
      have hround : copyWordRound readable ⟨m, str, dst, len⟩ =
          some (.again ⟨store8 m dst c, str + 1, dst + 1, len + 1⟩) := by
        unfold copyWordRound
        dsimp only
        rw [hfirst, Option.bind_eq_bind, Option.bind_some, if_pos ⟨hne, hsep⟩,
          ptrSucc_of_lt (by omega), ptrSucc_of_lt (by omega),
          wrapInt_of_range (by omega) (by push_cast at hmax; omega)]
        rfl
      rw [loop_succ_again n hround]
      have hkept : CString (store8 m dst c) (str + 1) s := by
        apply hs.congr
        intro j hj
        have hbyte := load8_store8_of_lt m (a := dst) (c := str + 1 + j) c (by omega) (by omega)
        rwa [if_neg (by omega)] at hbyte
      have hrest := @ih (store8 m dst c) (str + 1) (dst + 1) n (len + 1) hkept (fun j hj => ?_)
        (by omega) (by omega) (by omega) (by omega) (by push_cast at hmax; omega) (by omega)
      · rw [hrest]
        simp only [storeBytes, Option.some.injEq, WordCursor.mk.injEq, true_and]
        push_cast
        omega
      · rw [Nat.add_assoc, Nat.add_comm 1 j]
        exact hread (j + 1) (by omega)
    · have hsep : isSeparator c = true := by simpa [isWordChar] using hword
      have hround : copyWordRound readable ⟨m, str, dst, len⟩ = some (.done ⟨m, str, dst, len⟩) := by
        unfold copyWordRound
        dsimp only
        rw [hfirst, Option.bind_eq_bind, Option.bind_some, if_neg (by simp [hsep])]
        rfl
      rw [loop_succ_done n hround, List.takeWhile_cons_of_neg hword]
      simp [storeBytes]

/-- A loop that only moves the cursor goes past the characters it accepts. -/
theorem walk_loop {p : UInt8 → Bool} {round : ℕ × ℤ → Option (Iter (ℕ × ℤ) (ℕ × ℤ))}
    (hround : ∀ a l c, readByte readable m a = some c → round (a, l) =
      some (if c ≠ 0 ∧ p c = true then .again (ptrSucc a, wrapInt (l + 1)) else .done (a, l)))
    (hs : CString m str s) (hread : ∀ j ≤ s.length, readable (str + j) = true)
    (hstr : str + s.length < 4294967296) (hlen : 0 ≤ len) (hmax : len + s.length < 2147483648)
    (hn : s.length < n) :
    loop round n (str, len) =
      some (str + (s.takeWhile p).length, len + (s.takeWhile p).length) := by
  induction s generalizing str len n with
  | nil =>
    obtain ⟨n, rfl⟩ := Nat.exists_eq_succ_of_ne_zero (by omega : n ≠ 0)
    have hc : load8 m str = 0 := hs
    have hstop := hround str len 0
      (by rw [readByte_of_readable (show readable str = true from hread 0 (le_refl 0)), hc])
    rw [if_neg (by simp)] at hstop
    rw [loop_succ_done n hstop]
    simp
  | cons c s ih =>
    obtain ⟨n, rfl⟩ := Nat.exists_eq_succ_of_ne_zero (by omega : n ≠ 0)
    obtain ⟨hc, hne, hs⟩ := hs
    have hfirst := hround str len c
      (by rw [readByte_of_readable (show readable str = true from hread 0 (Nat.zero_le _)), hc])
    rw [List.length_cons] at hread hstr hmax hn
    by_cases hp : p c = true
    · rw [if_pos ⟨hne, hp⟩, ptrSucc_of_lt (by omega),
        wrapInt_of_range (by omega) (by push_cast at hmax; omega)] at hfirst
      rw [loop_succ_again n hfirst, List.takeWhile_cons_of_pos hp, List.length_cons]
      have hrest := @ih (str + 1) n (len + 1) hs (fun j hj => ?_) (by omega)
        (Int.le_add_one hlen) (by push_cast at hmax; omega) (by omega)
      · rw [hrest]
        simp only [Option.some.injEq, Prod.mk.injEq]
        push_cast
        omega
      · rw [Nat.add_assoc, Nat.add_comm 1 j]
        exact hread (j + 1) (by omega)
    · rw [if_neg (by simp [hp])] at hfirst
      rw [loop_succ_done n hfirst, List.takeWhile_cons_of_neg hp]
      simp

theorem skip_loop (hs : CString m str s) (hread : ∀ j ≤ s.length, readable (str + j) = true)
    (hstr : str + s.length < 4294967296) (hlen : 0 ≤ len) (hmax : len + s.length < 2147483648)
    (hn : s.length < n) :
    loop (skipRound readable m) n (str, len) =
      some (str + (s.takeWhile isSeparator).length, len + (s.takeWhile isSeparator).length) := by
  apply walk_loop _ hs hread hstr hlen hmax hn
  intro a l c hc
  unfold skipRound
  dsimp only
  rw [hc, Option.bind_eq_bind, Option.bind_some]
  split <;> rfl

theorem lineEnd_loop (hs : CString m str s) (hread : ∀ j ≤ s.length, readable (str + j) = true)
    (hstr : str + s.length < 4294967296) (hlen : 0 ≤ len) (hmax : len + s.length < 2147483648)
    (hn : s.length < n) :
    loop (lineEndRound readable m) n (str, len) = some (str + s.length, len + s.length) := by
  have hall : s.takeWhile (fun _ => true) = s := List.takeWhile_eq_self_iff.mpr (by simp)
  have hwalk : loop (lineEndRound readable m) n (str, len) =
      some (str + (s.takeWhile fun _ => true).length, len + (s.takeWhile fun _ => true).length) := by
    apply walk_loop _ hs hread hstr hlen hmax hn
    intro a l c hc
    unfold lineEndRound
    dsimp only
    rw [hc, Option.bind_eq_bind, Option.bind_some]
    by_cases h0 : c = 0
    · rw [if_neg (by simp [h0]), if_neg (by simp [h0])]
      rfl
    · rw [if_pos h0, if_pos ⟨h0, rfl⟩]
      rfl
  rwa [hall] at hwalk

/-! ## The final ampersand -/

/-- A character that is not a blank decides. -/
theorem ampersandUpTo_of_ne {i : ℕ} {c : UInt8} (hi : s[i]? = some c) (hne : c ≠ blank) :
    AmpersandUpTo s i ↔ 1 ≤ i ∧ c = ampersandChar := by
  constructor
  · rintro ⟨j, hj, hji, hamp, hblank⟩
    rcases Nat.eq_or_lt_of_le hji with rfl | hlt
    · exact ⟨hj, Option.some.inj (hi.symm.trans hamp)⟩
    · exact absurd (Option.some.inj (hi.symm.trans (hblank i hlt (le_refl i)))) hne
  · rintro ⟨hone, rfl⟩
    exact ⟨i, hone, le_refl i, hi, fun k hk hki => absurd hk (by omega)⟩

/-- A blank is passed. -/
theorem ampersandUpTo_succ {i : ℕ} (hi : s[i + 1]? = some blank) :
    AmpersandUpTo s (i + 1) ↔ AmpersandUpTo s i := by
  constructor
  · rintro ⟨j, hj, hji, hamp, hblank⟩
    rcases Nat.eq_or_lt_of_le hji with rfl | hlt
    · exact absurd (Option.some.inj (hi.symm.trans hamp)) (by decide)
    · exact ⟨j, hj, by omega, hamp, fun k hk hki => hblank k hk (by omega)⟩
  · rintro ⟨j, hj, hji, hamp, hblank⟩
    refine ⟨j, hj, by omega, hamp, fun k hk hki => ?_⟩
    rcases Nat.eq_or_lt_of_le hki with rfl | hlt
    · exact hi
    · exact hblank k hk (by omega)

/-- The backward loop finds the final ampersand. -/
theorem lastChar_loop (hs : CString m str s) (hread : ∀ j ≤ s.length, readable (str + j) = true)
    (hstr : str + s.length < 4294967296) {i : ℕ} (hi : i < s.length)
    (hmax : s.length < 2147483648) (hn : i < n) :
    ∃ r : ℤ, loop (lastCharRound readable m) n (str + i, i, 0) = some r ∧
      (r = 1 ∧ AmpersandUpTo s i ∨ r = 0 ∧ ¬ AmpersandUpTo s i) := by
  induction i generalizing n with
  | zero =>
    obtain ⟨n, rfl⟩ := Nat.exists_eq_succ_of_ne_zero (by omega : n ≠ 0)
    refine ⟨0, loop_succ_done n ?_, .inr ⟨rfl, ?_⟩⟩
    · unfold lastCharRound
      exact if_neg (by simp)
    · rintro ⟨j, hj, hj0, -⟩
      omega
  | succ i ih =>
    obtain ⟨n, rfl⟩ := Nat.exists_eq_succ_of_ne_zero (by omega : n ≠ 0)
    have hget : s[i + 1]? = some s[i + 1] := List.getElem?_eq_getElem hi
    have hbyte : readByte readable m (str + (i + 1)) = some s[i + 1] := by
      rw [readByte_of_readable (hread _ hi.le), (hs.byte hi).1]
    generalize s[i + 1] = c at hget hbyte
    have hround : lastCharRound readable m (str + (i + 1), ((i + 1 : ℕ) : ℤ), 0) =
        some (if c = blank then .again (str + i, (i : ℤ), 0)
          else .done (if c = ampersandChar then 1 else 0)) := by
      have hback : ptrPred (str + (i + 1)) = str + i := by
        unfold ptrPred
        rw [subWord_of_le (by omega) (by omega)]
        omega
      have hcount : wrapInt (((i + 1 : ℕ) : ℤ) - 1) = i := by
        rw [wrapInt_of_range (by omega) (by omega)]
        omega
      unfold lastCharRound
      dsimp only
      rw [if_pos (by omega), hbyte, Option.bind_eq_bind, Option.bind_some, hback, hcount]
      by_cases hblank : c = blank
      · subst hblank
        rfl
      · by_cases hamp : c = ampersandChar
        · subst hamp
          rfl
        · rw [if_neg (by simp [isSeparator, hblank, hamp]), if_neg hblank, if_neg hamp]
          rfl
    by_cases hblank : c = blank
    · subst hblank
      rw [if_pos rfl] at hround
      rw [loop_succ_again n hround, ampersandUpTo_succ hget]
      exact ih (by omega) (by omega)
    · rw [if_neg hblank] at hround
      refine ⟨_, loop_succ_done n hround, ?_⟩
      rw [ampersandUpTo_of_ne hget hblank]
      by_cases hamp : c = ampersandChar
      · exact .inl ⟨if_pos hamp, by omega, hamp⟩
      · exact .inr ⟨if_neg hamp, fun h => hamp h.2⟩

/-- The last index of a line decides how it ends. -/
theorem endsInAmpersand_iff {i : ℕ} (hi : i + 1 = s.length) :
    EndsInAmpersand s ↔ AmpersandUpTo s i := by
  constructor
  · rintro ⟨j, hj, hamp, hblank⟩
    have hlt : j < s.length := (List.getElem?_eq_some_iff.mp hamp).1
    exact ⟨j, hj, by omega, hamp, fun k hk hki => hblank k hk (by omega)⟩
  · rintro ⟨j, hj, hji, hamp, hblank⟩
    exact ⟨j, hj, hamp, fun k hk hki => hblank k hk (by omega)⟩

/-- From the end of the line, the backward loop answers whether it ends in an ampersand. -/
theorem lastChar_answers (hs : CString m str s)
    (hread : ∀ j ≤ s.length, readable (str + j) = true) (hstr : str + s.length < 4294967296)
    (hmax : s.length < 2147483648) :
    ∃ r : ℤ, loop (lastCharRound readable m) loopBound
        (ptrPred (str + s.length), wrapInt (s.length - 1), 0) = some r ∧
      (r = 1 ∧ EndsInAmpersand s ∨ r = 0 ∧ ¬ EndsInAmpersand s) := by
  rcases Nat.eq_zero_or_pos s.length with hzero | hpos
  · refine ⟨0, ?_, .inr ⟨rfl, ?_⟩⟩
    · have hdone : lastCharRound readable m
          (ptrPred (str + s.length), wrapInt (s.length - 1), 0) = some (.done 0) := by
        unfold lastCharRound
        dsimp only
        rw [hzero, if_neg (by decide)]
      exact loop_succ_done (loopBound - 1) hdone
    · rintro ⟨j, -, hj, -⟩
      have hlt := (List.getElem?_eq_some_iff.mp hj).1
      omega
  · have hback : ptrPred (str + s.length) = str + (s.length - 1) := by
      unfold ptrPred
      rw [subWord_of_le (by omega) (by omega)]
      omega
    have hcounter : wrapInt ((s.length : ℤ) - 1) = ((s.length - 1 : ℕ) : ℤ) := by
      rw [wrapInt_of_range (by omega) (by omega)]
      omega
    rw [hback, hcounter, endsInAmpersand_iff (i := s.length - 1) (by omega)]
    have hrounds : s.length < loopBound := hmax.trans (by decide)
    exact lastChar_loop hs hread hstr (by omega) hmax (by omega)

end Loops

/-! ## The function -/

section Parsing

variable {readable : ℕ → Bool} {m : Memory} {text : List UInt8} {str command arg : ℕ}

/-- The memory after the two words have been copied. -/
def wordsCopied (m : Memory) (text : List UInt8) (command arg : ℕ) : Memory :=
  storeString (storeString m command (commandOf text)) arg (argumentOf text)

theorem length_takeWhile_add (p : UInt8 → Bool) (s : List UInt8) :
    (s.takeWhile p).length + (s.dropWhile p).length = s.length := by
  rw [← List.length_append, List.takeWhile_append_dropWhile]

/-- The rest of a string after its longest prefix of some kind. -/
theorem cString_dropWhile {s : List UInt8} {a : ℕ} (p : UInt8 → Bool) (hs : CString m a s) :
    CString m (a + (s.takeWhile p).length) (s.dropWhile p) := by
  apply CString.drop
  rwa [List.takeWhile_append_dropWhile]

/-- The copying loops leave the two words in memory, and the last one finds the ampersand. -/
theorem getCommand_eq (hl : LineLayout text str command arg) (hs : CString m str text)
    (hread : ∀ j ≤ text.length, readable (str + j) = true) :
    ∃ r : ℤ, getCommand readable m str command arg =
        some (r, wordsCopied m text command arg) ∧
      (r = 1 ∧ EndsInAmpersand text ∨ r = 0 ∧ ¬ EndsInAmpersand text) := by
  obtain ⟨hcount, hline, hcommand, harg, hlc, hla, -⟩ := hl
  have hrounds : text.length < loopBound := hcount.trans (by decide)
  obtain ⟨tail, htail⟩ : ∃ tail, text.dropWhile isWordChar = tail := ⟨_, rfl⟩
  obtain ⟨seps, hseps⟩ : ∃ seps, tail.takeWhile isSeparator = seps := ⟨_, rfl⟩
  have hafter : tail.dropWhile isSeparator = afterCommand text := by rw [← htail]; rfl
  obtain ⟨rest, hrest⟩ : ∃ rest, (afterCommand text).dropWhile isWordChar = rest := ⟨_, rfl⟩
  have hlen1 : (commandOf text).length + tail.length = text.length := by
    rw [← htail]
    exact length_takeWhile_add isWordChar text
  have hlen2 : seps.length + (afterCommand text).length = tail.length := by
    rw [← hseps, ← hafter]
    exact length_takeWhile_add isSeparator tail
  have hlen3 : (argumentOf text).length + rest.length = (afterCommand text).length := by
    rw [← hrest]
    exact length_takeWhile_add isWordChar (afterCommand text)
  -- the command
  have hloop1 : loop (copyWordRound readable) loopBound ⟨m, str, command, 0⟩ =
      some ⟨storeBytes m command (commandOf text), str + (commandOf text).length,
        command + (commandOf text).length, 0 + (commandOf text).length⟩ :=
    copyWord_loop hs hread hline hcommand (hlc.imp_left Nat.le_of_lt) (le_refl 0) (by omega) hrounds
  obtain ⟨m1, hm1⟩ : ∃ m1, storeString m command (commandOf text) = m1 := ⟨_, rfl⟩
  have hs1 : CString m1 str text := by
    rw [← hm1]
    exact hs.storeString hline hcommand hlc
  -- the separators after it
  have htail1 : CString m1 (str + (commandOf text).length) tail := by
    rw [← htail]
    exact cString_dropWhile isWordChar hs1
  have hloop2 : loop (skipRound readable m1) loopBound
      (str + (commandOf text).length, 0 + ((commandOf text).length : ℤ)) =
      some (str + (commandOf text).length + seps.length,
        0 + ((commandOf text).length : ℤ) + seps.length) := by
    rw [← hseps]
    refine skip_loop htail1 (fun j hj => ?_) (by omega) (by omega) (by omega) (by omega)
    rw [Nat.add_assoc]
    exact hread _ (by omega)
  -- the argument
  have hafter1 : CString m1 (str + (commandOf text).length + seps.length) (afterCommand text) := by
    rw [← hseps, ← hafter]
    exact cString_dropWhile isSeparator htail1
  have hloop3 : loop (copyWordRound readable) loopBound
      ⟨m1, str + (commandOf text).length + seps.length, arg,
        0 + (commandOf text).length + seps.length⟩ =
      some ⟨storeBytes m1 arg (argumentOf text),
        str + (commandOf text).length + seps.length + (argumentOf text).length,
        arg + (argumentOf text).length,
        0 + (commandOf text).length + seps.length + (argumentOf text).length⟩ := by
    refine copyWord_loop hafter1 (fun j hj => ?_) (by omega) harg ?_ (by omega) (by omega)
      (by omega)
    · rw [Nat.add_assoc, Nat.add_assoc]
      exact hread _ (by omega)
    · rcases hla with h | h
      · left
        exact Nat.le_trans (Nat.le_of_lt h) (by omega)
      · right
        omega
  have hs2 : CString (wordsCopied m text command arg) str text := by
    unfold wordsCopied
    rw [hm1]
    exact hs1.storeString hline harg hla
  -- the rest of the line
  have hrest2 : CString (wordsCopied m text command arg)
      (str + (commandOf text).length + seps.length + (argumentOf text).length) rest := by
    rw [← hrest]
    apply cString_dropWhile isWordChar
    rw [← hafter, ← hseps]
    apply cString_dropWhile isSeparator
    rw [← htail]
    exact cString_dropWhile isWordChar hs2
  have hloop4 : loop (lineEndRound readable (wordsCopied m text command arg)) loopBound
      (str + (commandOf text).length + seps.length + (argumentOf text).length,
        0 + ((commandOf text).length : ℤ) + seps.length + (argumentOf text).length) =
      some (str + text.length, (text.length : ℤ)) := by
    have hcursor : str + (commandOf text).length + seps.length + (argumentOf text).length +
        rest.length = str + text.length := by omega
    rw [lineEnd_loop hrest2 (fun j hj => ?_) (by omega) (by omega) (by omega) (by omega), hcursor]
    · simp only [Option.some.injEq, Prod.mk.injEq, true_and]
      omega
    · rw [Nat.add_assoc, Nat.add_assoc, Nat.add_assoc]
      exact hread _ (by omega)
  have hrun : getCommand readable m str command arg =
      (loop (lastCharRound readable (wordsCopied m text command arg)) loopBound
        (ptrPred (str + text.length), wrapInt (text.length - 1), 0)).bind
          fun ampersand => some (ampersand, wordsCopied m text command arg) := by
    unfold getCommand
    rw [hloop1]
    dsimp only [Option.bind_eq_bind, Option.bind_some]
    rw [show store8 (storeBytes m command (commandOf text)) (command + (commandOf text).length) 0 =
      m1 from hm1, hloop2]
    dsimp only [Option.bind_eq_bind, Option.bind_some]
    rw [hloop3]
    dsimp only [Option.bind_eq_bind, Option.bind_some]
    have hm2 : store8 (storeBytes m1 arg (argumentOf text)) (arg + (argumentOf text).length) 0 =
        wordsCopied m text command arg := by
      rw [← hm1]
      rfl
    rw [hm2, hloop4]
    rfl
  obtain ⟨r, hr, hcase⟩ := lastChar_answers hs2 hread hline hcount
  rw [hrun, hr]
  exact ⟨r, rfl, hcase⟩

/-- The characters of the two words are characters of the line. -/
theorem words_subset (text : List UInt8) :
    (∀ c ∈ commandOf text, c ∈ text) ∧ ∀ c ∈ argumentOf text, c ∈ text := by
  constructor
  · intro c hc
    exact (List.takeWhile_prefix _).subset hc
  · intro c hc
    exact (List.dropWhile_suffix _).subset
      ((List.dropWhile_suffix _).subset ((List.takeWhile_prefix _).subset hc))

/-- The two words stand in their buffers. -/
theorem wordsCopied_words (hl : LineLayout text str command arg) (hne : ∀ c ∈ text, c ≠ 0) :
    CString (wordsCopied m text command arg) command (commandOf text) ∧
      CString (wordsCopied m text command arg) arg (argumentOf text) := by
  obtain ⟨hsubc, hsuba⟩ := words_subset text
  constructor
  · apply CString.storeString _ hl.fitsCommand hl.fitsArg hl.commandArg.symm
    exact cString_storeString (fun c hc => hne c (hsubc c hc)) hl.fitsCommand
  · exact cString_storeString (fun c hc => hne c (hsuba c hc)) hl.fitsArg

/-- Copying the words changes no byte outside their places. -/
theorem wordsCopied_elsewhere (hl : LineLayout text str command arg) {x : ℕ}
    (hx : x < 4294967296) (hc : x < command ∨ command + (commandOf text).length < x)
    (ha : x < arg ∨ arg + (argumentOf text).length < x) :
    load8 (wordsCopied m text command arg) x = load8 m x := by
  unfold wordsCopied
  rw [load8_storeString_of_ne hl.fitsArg hx ha, load8_storeString_of_ne hl.fitsCommand hx hc]

/-- `get_command` returns, having looked at no byte but those of the line and its terminator: the
addresses it may read are any that contain these.  It leaves the command and the argument in their
buffers, writes nothing else, and answers whether the line ends in an ampersand. -/
theorem getCommand_parses (hl : LineLayout text str command arg) (hs : CString m str text)
    (hread : ∀ j ≤ text.length, readable (str + j) = true) :
    ∃ (r : ℤ) (m' : Memory), getCommand readable m str command arg = some (r, m') ∧
      CString m' command (commandOf text) ∧ CString m' arg (argumentOf text) ∧
      (r = 1 ∧ EndsInAmpersand text ∨ r = 0 ∧ ¬ EndsInAmpersand text) ∧
      ∀ x < 4294967296, (x < command ∨ command + (commandOf text).length < x) →
        (x < arg ∨ arg + (argumentOf text).length < x) → load8 m' x = load8 m x := by
  obtain ⟨r, hr, hcase⟩ := getCommand_eq hl hs hread
  obtain ⟨hcommand, harg⟩ := wordsCopied_words (m := m) hl hs.ne_zero
  refine ⟨r, _, hr, hcommand, harg, hcase, ?_⟩
  intro x hx hxc hxa
  exact wordsCopied_elsewhere hl hx hxc hxa

/-- The line `a 5 &`, read from its own six bytes. -/
theorem getCommand_parses_alarm :
    ∃ (r : ℤ) (m' : Memory),
      getCommand (fun a => decide (1000 ≤ a ∧ a ≤ 1005))
        (storeString (fun _ => 0) 1000 [97, 32, 53, 32, 38]) 1000 2000 3000 =
        some (r, m') ∧
      CString m' 2000 [97] ∧ CString m' 3000 [53] ∧ r = 1 := by
  have hl : LineLayout [97, 32, 53, 32, 38] 1000 2000 3000 := by
    constructor <;> decide
  have hs : CString (storeString (fun _ => 0) 1000 [97, 32, 53, 32, 38]) 1000
      [97, 32, 53, 32, 38] := by
    apply cString_storeString <;> decide +kernel
  have hread : ∀ j ≤ [97, 32, 53, 32, 38].length, decide (1000 ≤ 1000 + j ∧ 1000 + j ≤ 1005) := by
    intro j hj
    have hle : j ≤ 5 := hj
    simp only [decide_eq_true_eq]
    omega
  obtain ⟨r, m', hrun, hcommand, harg, hcase, -⟩ := @getCommand_parses
    (fun a => decide (1000 ≤ a ∧ a ≤ 1005)) _ _ _ _ _ hl hs hread
  refine ⟨r, m', hrun, hcommand, harg, ?_⟩
  rcases hcase with ⟨h, -⟩ | ⟨-, hnot⟩
  · exact h
  · refine absurd ⟨4, by decide, rfl, ?_⟩ hnot
    intro k hk hlen
    have hlt : k < 5 := hlen
    omega

end Parsing

end Xeros.Analysis
