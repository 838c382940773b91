import Xeros.Analysis.CommandLine
import Xeros.Analysis.Formatting

/-!
# The arrays of the shell

The shell splits a line of at most 80 characters into two arrays of 50 bytes, and formats two
messages with the command into an array of 80 bytes.  None of the copying loops has a bound.
-/

set_option autoImplicit false

namespace Xeros.Analysis

open Xeros.Foundations Xeros.Model

/-! ## Formatting a string into an array -/

section Sprintf

variable {m : Memory} {dst fmt args string str : ℕ} {s t w pre post : List UInt8}
  {readable : ℕ → Bool}

theorem putAll_sprntf (hdst : dst + t.length < 4294967296) :
    putAll sprntf m dst t = (storeBytes m dst t, dst + t.length) := by
  induction t generalizing m dst with
  | nil => rfl
  | cons c t ih =>
    rw [List.length_cons] at hdst
    unfold putAll
    rw [show sprntf m dst c = (store8 m dst c, dst + 1) by
      rw [sprntf, ptrSucc_of_lt (by omega)], ih (by omega), List.length_cons]
    rw [show dst + 1 + t.length = dst + (t.length + 1) by omega]
    rfl

/-- A string stays where it is when bytes are written somewhere else. -/
theorem cString_storeBytes {a : ℕ} (hs : CString m a s) (ha : a + s.length < 4294967296)
    (hdst : dst + t.length < 4294967296) (hapart : dst + t.length ≤ a ∨ a + s.length < dst) :
    CString (storeBytes m dst t) a s := by
  apply hs.congr
  intro j hj
  exact load8_storeBytes_of_ne (by omega) (by omega) (by omega)

theorem keepsFormat_sprntf (hs : CString m fmt s) (hfmt : fmt + s.length < 4294967296)
    (hdst : dst + t.length < 4294967296)
    (hapart : dst + t.length ≤ fmt ∨ fmt + s.length < dst) : KeepsFormat sprntf m dst t fmt s := by
  intro k hk
  have hlen : (t.take k).length ≤ t.length := (List.take_prefix k t).length_le
  rw [putAll_sprntf (by omega)]
  exact cString_storeBytes hs hfmt (by omega) (by omega)

/-- The format `pre%spost` with one argument. -/
theorem sprintf_string (hread : ∀ a, readable a = true)
    (hs : CString m fmt (pre ++ percent :: 's'.toUInt8 :: post)) (hpre : percent ∉ pre)
    (hpost : percent ∉ post) (hargs : load32 m args = str) (hw : CString m str w)
    (hfmt : fmt + (pre.length + 2 + post.length) + 1 < 4294967296)
    (hstr : str + w.length < 4294967296) (hwmax : w.length < 2147483648)
    (hslot : args + 4 < 4294967296)
    (hdst : dst + (pre ++ w ++ post).length < 4294967296)
    (hdstfmt : fmt + (pre.length + 2 + post.length) < dst)
    (hdststr : dst + (pre ++ w ++ post).length < str ∨ str + w.length < dst)
    (hdstargs : dst + (pre ++ w ++ post).length < args ∨ args + 4 ≤ dst) :
    sprintf readable m string dst fmt args = some (storeString m dst (pre ++ w ++ post)) := by
  rw [List.length_append, List.length_append] at hdst hdststr hdstargs
  have hformat : (pre ++ percent :: 's'.toUInt8 :: post).length = pre.length + 2 + post.length := by
    rw [List.length_append, List.length_cons, List.length_cons]
    omega
  -- up to the directive
  have hs1 : CString (storeBytes m dst pre) fmt (pre ++ percent :: 's'.toUInt8 :: post) :=
    cString_storeBytes hs (by omega) (by omega) (by omega)
  have hw1 : CString (storeBytes m dst pre) str w :=
    cString_storeBytes hw hstr (by omega) (by omega)
  have hargs1 : readInt readable (storeBytes m dst pre) args = some (toInt str) := by
    have hword : load32 (storeBytes m dst pre) args = load32 m args := by
      apply load32_congr
      intro i hi
      exact load8_storeBytes_of_ne (by omega) (by omega) (by omega)
    unfold readInt
    rw [if_pos ⟨hread _, hread _, hread _, hread _⟩, hword, hargs]
  have hc : readByte readable (storeBytes m dst pre) (fmt + pre.length + 1) =
      some 's'.toUInt8 := by
    rw [readByte_of_readable (hread _), hs1.drop.2.2.1]
  -- the argument
  have hkeepw : KeepsFormat sprntf (storeBytes m dst pre) (dst + pre.length) w str w :=
    keepsFormat_sprntf hw1 hstr (by omega) (by omega)
  have hround1 : doprntRound readable sprntf string ⟨m, dst, fmt, args⟩ =
      some (.again ⟨storeBytes m dst (pre ++ w), dst + pre.length + w.length,
        fmt + pre.length + 1 + 1, intSucc args⟩) := by
    rw [doprntRound_percent hpre
        (keepsFormat_sprntf hs (by omega) (by omega) (by omega)) (fun j hj => hread _) (by omega),
      putAll_sprntf (by omega), directive_string hc (by omega) hargs1 hkeepw (fun j hj => hread _)
        hstr hwmax, putAll_sprntf (by omega), storeBytes_append]
  -- the rest of the format
  have hs2 : CString (storeBytes m dst (pre ++ w)) fmt (pre ++ percent :: 's'.toUInt8 :: post) :=
    cString_storeBytes hs (by omega) (by rw [List.length_append]; omega) (by omega)
  have hpost2 : CString (storeBytes m dst (pre ++ w)) (fmt + pre.length + 1 + 1) post :=
    hs2.drop.2.2.2.2
  have hround2 : doprntRound readable sprntf string ⟨storeBytes m dst (pre ++ w),
      dst + pre.length + w.length, fmt + pre.length + 1 + 1, intSucc args⟩ =
      some (.done ⟨storeBytes m dst (pre ++ w ++ post), dst + pre.length + w.length + post.length,
        fmt + pre.length + 1 + 1 + post.length + 1, intSucc args⟩) := by
    rw [doprntRound_plain hpost (keepsFormat_sprntf hpost2 (by omega) (by omega) (by omega))
      (fun j hj => hread _) (by omega), putAll_sprntf (by omega), storeBytes_append m dst (pre ++ w),
      List.length_append, Nat.add_assoc dst]
  have hrun : loop (doprntRound readable sprntf string) loopBound ⟨m, dst, fmt, args⟩ =
      some ⟨storeBytes m dst (pre ++ w ++ post), dst + pre.length + w.length + post.length,
        fmt + pre.length + 1 + 1 + post.length + 1, intSucc args⟩ :=
    (loop_succ_again (loopBound - 1) hround1).trans (loop_succ_done (loopBound - 2) hround2)
  unfold sprintf doprnt
  rw [hrun, Option.bind_eq_bind, Option.bind_some, storeString, List.length_append,
    List.length_append, Nat.add_assoc dst, Nat.add_assoc dst]
  rfl

end Sprintf

/-! ## The end of the line and the names of the commands -/

section Strcmp

variable {m : Memory} {readable : ℕ → Bool} {s v w : List UInt8} {str n : ℕ}

/-- A line as `filter_newline` leaves it. -/
def lineOf (raw : List UInt8) : List UInt8 := raw.takeWhile (· ≠ newline)

/-- The line is cut at its first line break, and nothing else changes. -/
theorem filter_loop (hread : ∀ a, readable a = true) (hs : CString m str s)
    (hstr : str + s.length < 4294967296) (hn : s.length < n) :
    ∃ m', loop (filterRound readable m) n str = some m' ∧ CString m' str (lineOf s) ∧
      ∀ x < 4294967296, (x < str ∨ str + s.length ≤ x) → load8 m' x = load8 m x := by
  induction s generalizing str n with
  | nil =>
    obtain ⟨n, rfl⟩ := Nat.exists_eq_succ_of_ne_zero (by omega : n ≠ 0)
    refine ⟨m, loop_succ_done n ?_, hs, fun x hx hout => rfl⟩
    unfold filterRound
    rw [readByte_of_readable (hread _), show load8 m str = 0 from hs]
    rfl
  | cons c s ih =>
    obtain ⟨n, rfl⟩ := Nat.exists_eq_succ_of_ne_zero (by omega : n ≠ 0)
    obtain ⟨hc, hne, hs⟩ := hs
    rw [List.length_cons] at hstr hn ⊢
    unfold lineOf
    by_cases hnl : c = newline
    · refine ⟨store8 m str 0, loop_succ_done n ?_, ?_, ?_⟩
      · unfold filterRound
        rw [readByte_of_readable (hread _), hc, Option.bind_eq_bind, Option.bind_some, if_pos hne,
          if_pos hnl]
        rfl
      · rw [List.takeWhile_cons_of_neg (by simp [hnl])]
        show load8 _ str = 0
        rw [load8_store8_of_lt _ _ (by omega) (by omega), if_pos rfl]
      · intro x hx hout
        rw [load8_store8_of_lt _ _ (by omega) hx, if_neg (by omega)]
    · have hround : filterRound readable m str = some (.again (str + 1)) := by
        unfold filterRound
        rw [readByte_of_readable (hread _), hc, Option.bind_eq_bind, Option.bind_some, if_pos hne,
          if_neg hnl, ptrSucc_of_lt (by omega)]
        rfl
      obtain ⟨m', hrun, hline, hkept⟩ := ih hs (n := n) (by omega) (by omega)
      refine ⟨m', (loop_succ_again n hround).trans hrun, ?_, fun x hx hout => hkept x hx (by omega)⟩
      rw [List.takeWhile_cons_of_pos (by simp [hnl])]
      exact ⟨(hkept str (by omega) (.inl (by omega))).trans hc, hne, hline⟩

theorem charToInt_injective {c d : UInt8} (h : charToInt c = charToInt d) : c = d := by
  have hc := c.toNat_lt
  have hd := d.toNat_lt
  apply UInt8.toNat_inj.mp
  unfold charToInt at h
  split_ifs at h <;> omega

theorem strcmpRound_eq (hread : ∀ a, readable a = true) (a b : ℕ) :
    strcmpRound readable m (a, b) = some (if load8 m a = load8 m b then
      if load8 m a = 0 then .done 0 else .again (ptrSucc a, ptrSucc b)
      else .done (charToInt (load8 m a) - charToInt (load8 m b))) := by
  unfold strcmpRound
  dsimp only
  rw [readByte_of_readable (hread _), readByte_of_readable (hread _)]
  dsimp only [Option.bind_eq_bind, Option.bind_some]
  split_ifs <;> rfl

/-- `strcmp` answers zero for equal strings only. -/
theorem strcmp_loop (hread : ∀ a, readable a = true) {a b : ℕ} (hv : CString m a v)
    (hw : CString m b w) (ha : a + v.length < 4294967296) (hb : b + w.length < 4294967296)
    (hn : v.length < n) :
    ∃ r, loop (strcmpRound readable m) n (a, b) = some r ∧ (r = 0 ↔ v = w) := by
  induction v generalizing w a b n with
  | nil =>
    obtain ⟨n, rfl⟩ := Nat.exists_eq_succ_of_ne_zero (by omega : n ≠ 0)
    have hzero : load8 m a = 0 := hv
    cases w with
    | nil =>
      refine ⟨0, loop_succ_done n ?_, by simp⟩
      rw [strcmpRound_eq hread, hzero, show load8 m b = 0 from hw]
      rfl
    | cons d w =>
      refine ⟨charToInt 0 - charToInt d, loop_succ_done n ?_, ?_⟩
      · rw [strcmpRound_eq hread, hzero, hw.1, if_neg (Ne.symm hw.2.1)]
      · constructor
        · intro heq
          exact absurd (charToInt_injective (sub_eq_zero.mp heq)).symm hw.2.1
        · intro heq
          cases heq
  | cons c v ih =>
    obtain ⟨n, rfl⟩ := Nat.exists_eq_succ_of_ne_zero (by omega : n ≠ 0)
    obtain ⟨hc, hne, hv⟩ := hv
    rw [List.length_cons] at ha hn
    have hsecond : load8 m b = w.headD 0 := by
      cases w with
      | nil => exact hw
      | cons d w => exact hw.1
    by_cases heq : c = w.headD 0
    · cases w with
      | nil => exact absurd heq hne
      | cons d w =>
        obtain rfl : c = d := heq
        rw [List.length_cons] at hb
        have hround : strcmpRound readable m (a, b) = some (.again (a + 1, b + 1)) := by
          rw [strcmpRound_eq hread, hc, hw.1, if_pos rfl, if_neg hne, ptrSucc_of_lt (by omega),
            ptrSucc_of_lt (by omega)]
        obtain ⟨r, hrun, hr⟩ := ih hv hw.2.2 (n := n) (by omega) (by omega) (by omega)
        refine ⟨r, (loop_succ_again n hround).trans hrun, hr.trans ?_⟩
        rw [List.cons_inj_right]
    · refine ⟨charToInt c - charToInt (w.headD 0), loop_succ_done n ?_, ?_⟩
      · rw [strcmpRound_eq hread, hc, hsecond, if_neg heq]
      · constructor
        · intro hzero
          exact absurd (charToInt_injective (sub_eq_zero.mp hzero)) heq
        · rintro rfl
          exact absurd rfl heq

/-- The chain of comparisons finds the names of the commands. -/
theorem isCommand_eq (hread : ∀ a, readable a = true) {command : ℕ} (hw : CString m command w)
    (hcommand : command + w.length < 4294967296) (names : List (ℕ × List UInt8))
    (hnames : ∀ p ∈ names, CString m p.1 p.2 ∧ p.1 + p.2.length < 4294967296) :
    isCommand readable m command names = some (decide (w ∈ names.map Prod.snd)) := by
  have hrounds : (4294967296 : ℕ) < loopBound := by decide
  induction names with
  | nil => simp [isCommand]
  | cons p names ih =>
    obtain ⟨a, v⟩ := p
    obtain ⟨hv, hlt⟩ := hnames (a, v) List.mem_cons_self
    dsimp only at hv hlt
    obtain ⟨r, hrun, hr⟩ := strcmp_loop (n := loopBound) hread hv hw (by omega) hcommand (by omega)
    unfold isCommand
    rw [show strcmp readable m a command = some r from hrun, Option.bind_eq_bind, Option.bind_some]
    by_cases hzero : r = 0
    · rw [if_pos hzero]
      simp [hr.mp hzero]
    · rw [if_neg hzero, ih fun p hp => hnames p (List.mem_cons_of_mem _ hp)]
      have hne : w ≠ v := fun h => hzero (hr.mpr h.symm)
      simp [hne]

end Strcmp

/-! ## Where everything is -/

/-- Two regions, each an address and a size, do not overlap. -/
def RegionsApart (r q : ℕ × ℕ) : Prop := r.1 + r.2 ≤ q.1 ∨ q.1 + q.2 ≤ r.1

/-- What the shell writes to: its four arrays, of the given sizes, and the argument of
`sprintf`. -/
def frameRegions (fr : ShellFrame) (buf command arg printbuf : ℕ) : List (ℕ × ℕ) :=
  [(fr.buf, buf), (fr.command, command), (fr.arg, arg), (fr.printbuf, printbuf), (fr.args, 4)]

/-- The regions do not overlap; they lie from `base` on. -/
structure RegionsFrom (base : ℕ) (regions : List (ℕ × ℕ)) : Prop where
  high : ∀ r ∈ regions, base ≤ r.1 ∧ r.1 + r.2 < 4294967296
  apart : regions.Pairwise RegionsApart

/-- The string literals are in memory, below `base`. -/
def LiteralsBelow (base : ℕ) (lits : ShellLiterals) (m : Memory) : Prop :=
  ∀ p ∈ lits.names ++ lits.formats, CString m p.1 p.2 ∧ p.1 + p.2.length < base

/-- The memories agree outside some regions. -/
def SameOutside (regions : List (ℕ × ℕ)) (m m' : Memory) : Prop :=
  ∀ x < 4294967296, (∀ r ∈ regions, x < r.1 ∨ r.1 + r.2 ≤ x) → load8 m' x = load8 m x

section Layout

variable {m m' m'' : Memory} {lits : ShellLiterals} {fr : ShellFrame} {base : ℕ}
  {regions : List (ℕ × ℕ)} {s : List UInt8} {a : ℕ}

theorem SameOutside.trans (h : SameOutside regions m m') (h' : SameOutside regions m' m'') :
    SameOutside regions m m'' := by
  intro x hx hout
  exact (h' x hx hout).trans (h x hx hout)

/-- Strings outside the regions stay. -/
theorem SameOutside.cString (h : SameOutside regions m m') (hs : CString m a s)
    (ha : a + s.length < 4294967296)
    (hout : ∀ r ∈ regions, a + s.length < r.1 ∨ r.1 + r.2 ≤ a) : CString m' a s := by
  apply hs.congr
  intro j hj
  apply h _ (by omega)
  intro r hr
  have hr' := hout r hr
  omega

theorem LiteralsBelow.sameOutside (h : LiteralsBelow base lits m)
    (hsame : SameOutside regions m m') (hregions : RegionsFrom base regions)
    (hbase : base < 4294967296) : LiteralsBelow base lits m' := by
  intro p hp
  obtain ⟨hs, hlt⟩ := h p hp
  refine ⟨hsame.cString hs (by omega) ?_, hlt⟩
  intro r hr
  have hhigh := (hregions.high r hr).1
  omega

/-- A string written into one of the regions. -/
theorem storeString_sameOutside {n : ℕ} (hmem : (a, n) ∈ regions) (ha : a + n < 4294967296)
    (hn : s.length < n) : SameOutside regions m (storeString m a s) := by
  intro x hx hout
  have hout' := hout _ hmem
  dsimp only at hout'
  exact load8_storeString_of_ne (by omega) hx (by omega)

theorem store32_sameOutside {v : ℕ} (hmem : (a, 4) ∈ regions) (ha : a + 4 < 4294967296) :
    SameOutside regions m (store32 m a v) := by
  intro x hx hout
  have hout' := hout _ hmem
  dsimp only at hout'
  apply load8_store32_of_ne
  intro i hi
  omega

end Layout

/-! ## One line -/

section Line

variable {m : Memory} {readable : ℕ → Bool} {lits : ShellLiterals} {fr : ShellFrame}
  {base nb nc na np : ℕ} {raw w : List UInt8}

/-- Where the arrays of a frame are. -/
structure FrameBounds (base : ℕ) (fr : ShellFrame) (nb nc na np : ℕ) : Prop where
  low : base ≤ fr.buf ∧ base ≤ fr.command ∧ base ≤ fr.arg ∧ base ≤ fr.printbuf ∧ base ≤ fr.args
  fitsBuf : fr.buf + nb < 4294967296
  fitsCommand : fr.command + nc < 4294967296
  fitsArg : fr.arg + na < 4294967296
  fitsPrintbuf : fr.printbuf + np < 4294967296
  fitsArgs : fr.args + 4 < 4294967296
  bufCommand : fr.buf + nb ≤ fr.command ∨ fr.command + nc ≤ fr.buf
  bufArg : fr.buf + nb ≤ fr.arg ∨ fr.arg + na ≤ fr.buf
  commandArg : fr.command + nc ≤ fr.arg ∨ fr.arg + na ≤ fr.command
  commandPrintbuf : fr.command + nc ≤ fr.printbuf ∨ fr.printbuf + np ≤ fr.command
  commandArgs : fr.command + nc ≤ fr.args ∨ fr.args + 4 ≤ fr.command
  argPrintbuf : fr.arg + na ≤ fr.printbuf ∨ fr.printbuf + np ≤ fr.arg
  argArgs : fr.arg + na ≤ fr.args ∨ fr.args + 4 ≤ fr.arg
  printbufArgs : fr.printbuf + np ≤ fr.args ∨ fr.args + 4 ≤ fr.printbuf

theorem frameBounds (h : RegionsFrom base (frameRegions fr nb nc na np)) :
    FrameBounds base fr nb nc na np := by
  obtain ⟨hhigh, hapart⟩ := h
  simp only [frameRegions, List.mem_cons, List.not_mem_nil, or_false, forall_eq_or_imp,
    forall_eq] at hhigh
  simp only [frameRegions, List.pairwise_cons, List.mem_cons, List.not_mem_nil, or_false,
    forall_eq_or_imp, forall_eq, RegionsApart] at hapart
  obtain ⟨⟨h1, h2⟩, ⟨h3, h4⟩, ⟨h5, h6⟩, ⟨h7, h8⟩, h9, h10⟩ := hhigh
  obtain ⟨⟨b1, b2, -, -⟩, ⟨c1, c2, c3⟩, ⟨d1, d2⟩, e1, -⟩ := hapart
  exact ⟨⟨h1, h3, h5, h7, h9⟩, h2, h4, h6, h8, h10, b1, b2, c1, c2, c3, d1, d2, e1⟩

/-- The message for the command stands in `printbuf`. -/
theorem formatCommand_eq {pre post : List UInt8} {f : ℕ} (hread : ∀ a, readable a = true)
    (hlits : LiteralsBelow base lits m) (hf : (f, pre ++ percent :: 's'.toUInt8 :: post) ∈ lits.formats)
    (hpre : percent ∉ pre) (hpost : percent ∉ post)
    (hregions : RegionsFrom base (frameRegions fr nb nc na np)) (hw : CString m fr.command w)
    (hnc : w.length < nc) (hmax : w.length < 2147483648) (hnp : (pre ++ w ++ post).length < np) :
    formatCommand readable m fr f =
      some (storeString (store32 m fr.args fr.command) fr.printbuf (pre ++ w ++ post)) := by
  have hb := frameBounds hregions
  obtain ⟨-, hcommand, -, hprintbuf, -⟩ := hb.low
  have hfit := hb.fitsCommand
  have hpush : SameOutside (frameRegions fr nb nc na np) m (store32 m fr.args fr.command) :=
    store32_sameOutside (by simp [frameRegions]) hb.fitsArgs
  have hformat := hlits.sameOutside hpush hregions (by omega) _ (List.mem_append_right _ hf)
  rw [show (f, pre ++ percent :: 's'.toUInt8 :: post).1 = f from rfl] at hformat
  have hlen : (pre ++ percent :: 's'.toUInt8 :: post).length = pre.length + 2 + post.length := by
    rw [List.length_append, List.length_cons, List.length_cons]
    omega
  obtain ⟨hs, hlt⟩ := hformat
  dsimp only at hs hlt
  have hcommandArgs := hb.commandArgs
  have hw' : CString (store32 m fr.args fr.command) fr.command w := by
    apply hw.congr
    intro j hj
    apply load8_store32_of_ne
    intro i hi
    have hargs := hb.fitsArgs
    omega
  have hcommandPrintbuf := hb.commandPrintbuf
  have hprintbufArgs := hb.printbufArgs
  unfold formatCommand
  apply sprintf_string hread hs hpre hpost _ hw' (by omega) (by omega) hmax hb.fitsArgs
    (by have hfitp := hb.fitsPrintbuf; omega) (by omega) (by omega) (by omega)
  rw [load32_store32_same, Nat.mod_eq_of_lt (by omega)]

/-- The literals and the two words are in memory. -/
structure Parsed (base : ℕ) (lits : ShellLiterals) (fr : ShellFrame) (m : Memory)
    (command arg : List UInt8) : Prop where
  literals : LiteralsBelow base lits m
  command : CString m fr.command command
  arg : CString m fr.arg arg

/-- Formatting a message keeps the literals and the words. -/
theorem formatCommand_parsed {pre post v : List UInt8} {f : ℕ} (hread : ∀ a, readable a = true)
    (hparsed : Parsed base lits fr m w v)
    (hf : (f, pre ++ percent :: 's'.toUInt8 :: post) ∈ lits.formats)
    (hpre : percent ∉ pre) (hpost : percent ∉ post)
    (hregions : RegionsFrom base (frameRegions fr nb nc na np)) (hnc : w.length < nc)
    (hna : v.length < na) (hmax : w.length < 2147483648) (hnp : (pre ++ w ++ post).length < np) :
    ∃ m', formatCommand readable m fr f = some m' ∧
      m' = storeString (store32 m fr.args fr.command) fr.printbuf (pre ++ w ++ post) ∧
      SameOutside (frameRegions fr nb nc na np) m m' ∧ Parsed base lits fr m' w v := by
  have hb := frameBounds hregions
  refine ⟨_, formatCommand_eq hread hparsed.literals hf hpre hpost hregions hparsed.command hnc hmax
    hnp, rfl, ?_⟩
  have hpush : ∀ regions, (fr.args, 4) ∈ regions →
      SameOutside regions m (store32 m fr.args fr.command) :=
    fun regions hmem => store32_sameOutside hmem hb.fitsArgs
  have hwrite : ∀ regions, (fr.printbuf, np) ∈ regions →
      SameOutside regions (store32 m fr.args fr.command)
        (storeString (store32 m fr.args fr.command) fr.printbuf (pre ++ w ++ post)) :=
    fun regions hmem => storeString_sameOutside hmem hb.fitsPrintbuf hnp
  have hall := (hpush (frameRegions fr nb nc na np) (by simp [frameRegions])).trans
    (hwrite _ (by simp [frameRegions]))
  have hsome := (hpush [(fr.printbuf, np), (fr.args, 4)] (by simp)).trans
    (hwrite _ (by simp))
  have hbase : base < 4294967296 := by
    have hlow := hb.low.1
    have hfit := hb.fitsBuf
    omega
  refine ⟨hall, hparsed.literals.sameOutside hall hregions hbase, ?_, ?_⟩
  · apply hsome.cString hparsed.command (by have hfit := hb.fitsCommand; omega)
    intro r hr
    have h1 := hb.commandPrintbuf
    have h2 := hb.commandArgs
    simp only [List.mem_cons, List.not_mem_nil, or_false] at hr
    rcases hr with rfl | rfl <;> dsimp only <;> omega
  · apply hsome.cString hparsed.arg (by have hfit := hb.fitsArg; omega)
    intro r hr
    have h1 := hb.argPrintbuf
    have h2 := hb.argArgs
    simp only [List.mem_cons, List.not_mem_nil, or_false] at hr
    rcases hr with rfl | rfl <;> dsimp only <;> omega

/-- The line without its line break, and its words in their arrays. -/
theorem parse_parsed (hread : ∀ a, readable a = true) (hlits : LiteralsBelow base lits m)
    (hs : CString m fr.buf raw) (hregions : RegionsFrom base (frameRegions fr nb nc na np))
    (hnb : raw.length < nb) (hnc : (commandOf (lineOf raw)).length < nc)
    (hna : (argumentOf (lineOf raw)).length < na) (hmax : raw.length < 2147483648) :
    ∃ m1 m2 r, filterNewline readable m fr.buf = some m1 ∧
      getCommand readable m1 fr.buf fr.command fr.arg = some (r, m2) ∧
      SameOutside (frameRegions fr nb nc na np) m m2 ∧
      Parsed base lits fr m2 (commandOf (lineOf raw)) (argumentOf (lineOf raw)) := by
  have hb := frameBounds hregions
  have hrounds : (2147483648 : ℕ) < loopBound := by decide
  have hfit := hb.fitsBuf
  have hline : (lineOf raw).length ≤ raw.length := (List.takeWhile_prefix _).length_le
  obtain ⟨m1, hfilter, htext, hkept⟩ := filter_loop (n := loopBound) hread hs (by omega) (by omega)
  have hlayout : LineLayout (lineOf raw) fr.buf fr.command fr.arg := by
    have h1 := hb.bufCommand
    have h2 := hb.bufArg
    have h3 := hb.commandArg
    have h4 := hb.fitsCommand
    have h5 := hb.fitsArg
    constructor <;> omega
  obtain ⟨r, hparse, -⟩ := getCommand_eq hlayout htext fun j hj => hread _
  obtain ⟨hcommand, harg⟩ := wordsCopied_words (m := m1) hlayout htext.ne_zero
  have hsame1 : SameOutside (frameRegions fr nb nc na np) m m1 := by
    intro x hx hout
    have hout' := hout (fr.buf, nb) (by simp [frameRegions])
    dsimp only at hout'
    exact hkept x hx (by omega)
  have hsame2 : SameOutside (frameRegions fr nb nc na np) m1
      (wordsCopied m1 (lineOf raw) fr.command fr.arg) := by
    have hfirst : SameOutside (frameRegions fr nb nc na np) m1
        (storeString m1 fr.command (commandOf (lineOf raw))) :=
      storeString_sameOutside (by simp [frameRegions]) hb.fitsCommand hnc
    exact hfirst.trans (storeString_sameOutside (by simp [frameRegions]) hb.fitsArg hna)
  have hsame := hsame1.trans hsame2
  have hbase : base < 4294967296 := by
    have hlow := hb.low.1
    omega
  exact ⟨m1, _, r, hfilter, hparse, hsame, hlits.sameOutside hsame hregions hbase, hcommand, harg⟩

/-- A known command: only the words are written. -/
theorem shellLine_known (hread : ∀ a, readable a = true) (hlits : LiteralsBelow base lits m)
    (hs : CString m fr.buf raw) (hregions : RegionsFrom base (frameRegions fr nb nc na np))
    (hnb : raw.length < nb) (hnc : (commandOf (lineOf raw)).length < nc)
    (hna : (argumentOf (lineOf raw)).length < na) (hmax : raw.length < 2147483648)
    (hknown : commandOf (lineOf raw) ∈ lits.names.map Prod.snd) :
    ∃ m', shellLine readable lits fr m = some m' ∧
      SameOutside (frameRegions fr nb nc na np) m m' ∧
      Parsed base lits fr m' (commandOf (lineOf raw)) (argumentOf (lineOf raw)) := by
  have hb := frameBounds hregions
  obtain ⟨m1, m2, r, hfilter, hparse, hsame, hparsed⟩ :=
    parse_parsed hread hlits hs hregions hnb hnc hna hmax
  have hchain : isCommand readable m2 fr.command lits.names = some true := by
    rw [isCommand_eq hread hparsed.command (by have hfit := hb.fitsCommand; omega)]
    · rw [decide_eq_true hknown]
    · intro p hp
      obtain ⟨hp1, hp2⟩ := hparsed.literals p (List.mem_append_left _ hp)
      have hlow := hb.low.1
      have hfit := hb.fitsBuf
      exact ⟨hp1, by omega⟩
  refine ⟨m2, ?_, hsame, hparsed⟩
  unfold shellLine
  rw [hfilter, Option.bind_eq_bind, Option.bind_some, hparse, Option.bind_eq_bind, Option.bind_some]
  dsimp only
  rw [hchain]
  rfl

/-- The first message. -/
def missingMessage (w : List UInt8) : List UInt8 := programText ++ w ++ missingText

/-- The second message. -/
def installMessage (w : List UInt8) : List UInt8 := installText ++ w ++ literal ['\n']

theorem missingMessage_length (w : List UInt8) : (missingMessage w).length = w.length + 71 := by
  unfold missingMessage
  rw [List.length_append, List.length_append, show programText.length = 12 from rfl,
    show missingText.length = 59 from rfl]
  omega

theorem installMessage_length (w : List UInt8) : (installMessage w).length = w.length + 22 := by
  unfold installMessage
  rw [List.length_append, List.length_append, show installText.length = 21 from rfl,
    show (literal ['\n']).length = 1 from rfl]
  omega

/-- What the two messages leave in `printbuf`. -/
def messageByte (w : List UInt8) (j : ℕ) : UInt8 :=
  if j ≤ w.length + 22 then (installMessage w).getD j 0 else (missingMessage w).getD j 0

/-- An unknown command: the messages are written too. -/
theorem shellLine_unknown (hread : ∀ a, readable a = true) (hlits : LiteralsBelow base lits m)
    (hs : CString m fr.buf raw) (hregions : RegionsFrom base (frameRegions fr nb nc na np))
    (hnb : raw.length < nb) (hnc : (commandOf (lineOf raw)).length < nc)
    (hna : (argumentOf (lineOf raw)).length < na) (hmax : raw.length < 2147483648)
    (hunknown : commandOf (lineOf raw) ∉ lits.names.map Prod.snd)
    (hnp : (commandOf (lineOf raw)).length + 71 < np) :
    ∃ m', shellLine readable lits fr m = some m' ∧
      SameOutside (frameRegions fr nb nc na np) m m' ∧
      Parsed base lits fr m' (commandOf (lineOf raw)) (argumentOf (lineOf raw)) ∧
      ∀ j ≤ (commandOf (lineOf raw)).length + 71,
        load8 m' (fr.printbuf + j) = messageByte (commandOf (lineOf raw)) j := by
  have hb := frameBounds hregions
  obtain ⟨m1, m2, r, hfilter, hparse, hsame, hparsed⟩ :=
    parse_parsed hread hlits hs hregions hnb hnc hna hmax
  have hwmax : (commandOf (lineOf raw)).length ≤ raw.length :=
    (List.takeWhile_prefix _).length_le.trans (List.takeWhile_prefix _).length_le
  obtain ⟨w, hw⟩ : ∃ w, commandOf (lineOf raw) = w := ⟨_, rfl⟩
  rw [hw] at hnc hunknown hnp hparsed hwmax ⊢
  have hchain : isCommand readable m2 fr.command lits.names = some false := by
    rw [isCommand_eq hread hparsed.command (by have hfit := hb.fitsCommand; omega)]
    · rw [decide_eq_false hunknown]
    · intro p hp
      obtain ⟨hp1, hp2⟩ := hparsed.literals p (List.mem_append_left _ hp)
      have hlow := hb.low.1
      have hfit := hb.fitsBuf
      exact ⟨hp1, by omega⟩
  have hmissing : (lits.missing, programText ++ percent :: 's'.toUInt8 :: missingText) ∈
      lits.formats := by simp [ShellLiterals.formats, missingFormat]
  have hinstall : (lits.install, installText ++ percent :: 's'.toUInt8 :: literal ['\n']) ∈
      lits.formats := by simp [ShellLiterals.formats, installFormat]
  have hlen1 : (programText ++ w ++ missingText).length = w.length + 71 := missingMessage_length w
  have hlen2 : (installText ++ w ++ literal ['\n']).length = w.length + 22 :=
    installMessage_length w
  obtain ⟨m3, hrun3, heq3, hsame3, hparsed3⟩ := formatCommand_parsed hread hparsed hmissing
    (by decide) (by decide) hregions hnc hna (by omega) (by omega)
  obtain ⟨m4, hrun4, heq4, hsame4, hparsed4⟩ := formatCommand_parsed hread hparsed3 hinstall
    (by decide) (by decide) hregions hnc hna (by omega) (by omega)
  refine ⟨m4, ?_, (hsame.trans hsame3).trans hsame4, hparsed4, ?_⟩
  · unfold shellLine
    rw [hfilter, Option.bind_eq_bind, Option.bind_some, hparse, Option.bind_eq_bind,
      Option.bind_some]
    dsimp only
    rw [hchain, Option.bind_eq_bind, Option.bind_some, if_neg (by decide), hrun3]
    exact hrun4
  · intro j hj
    have hfit := hb.fitsPrintbuf
    have hargs := hb.printbufArgs
    have hfitargs := hb.fitsArgs
    unfold messageByte
    rw [heq4]
    by_cases hshort : j ≤ w.length + 22
    · rw [if_pos hshort]
      exact load8_storeString (by omega) (by omega)
    · rw [if_neg hshort, load8_storeString_of_ne (by omega) (by omega) (.inr (by omega)),
        load8_store32_of_ne _ _ _ _ (by intro i hi; omega), heq3]
      exact load8_storeString (by omega) (by omega)

end Line

/-! ## An example memory -/

section Example

variable {m : Memory} {a : ℕ} {s : List UInt8}

/-- Write strings one after the other. -/
def storeStrings : Memory → List (ℕ × List UInt8) → Memory
  | m, [] => m
  | m, p :: l => storeStrings (storeString m p.1 p.2) l

/-- The place of a string with its zero. -/
def placeOf (p : ℕ × List UInt8) : ℕ × ℕ := (p.1, p.2.length + 1)

theorem load8_storeStrings {x : ℕ} {l : List (ℕ × List UInt8)} (hx : x < 4294967296)
    (hfit : ∀ p ∈ l, p.1 + p.2.length < 4294967296)
    (hout : ∀ p ∈ l, x < p.1 ∨ p.1 + p.2.length < x) :
    load8 (storeStrings m l) x = load8 m x := by
  induction l generalizing m with
  | nil => rfl
  | cons p l ih =>
    unfold storeStrings
    rw [ih (fun q hq => hfit q (List.mem_cons_of_mem p hq))
        (fun q hq => hout q (List.mem_cons_of_mem p hq)),
      load8_storeString_of_ne (hfit p List.mem_cons_self) hx (hout p List.mem_cons_self)]

/-- Strings at places that do not overlap are all in memory. -/
theorem cString_storeStrings {l : List (ℕ × List UInt8)}
    (hfit : ∀ p ∈ l, p.1 + p.2.length < 4294967296) (hne : ∀ p ∈ l, ∀ c ∈ p.2, c ≠ 0)
    (hapart : l.Pairwise fun p q => RegionsApart (placeOf p) (placeOf q)) :
    ∀ p ∈ l, CString (storeStrings m l) p.1 p.2 := by
  induction l generalizing m with
  | nil => simp
  | cons p l ih =>
    obtain ⟨hhead, htail⟩ := List.pairwise_cons.mp hapart
    have hfit' := fun q hq => hfit q (List.mem_cons_of_mem p hq)
    intro q hq
    unfold storeStrings
    rcases List.mem_cons.mp hq with rfl | hq
    · have hfirst : CString (storeString m q.1 q.2) q.1 q.2 :=
        cString_storeString (hne q List.mem_cons_self) (hfit q List.mem_cons_self)
      apply hfirst.congr
      intro j hj
      have hq := hfit q List.mem_cons_self
      apply load8_storeStrings (by omega) hfit'
      intro r hr
      have hapart' := hhead r hr
      unfold RegionsApart placeOf at hapart'
      dsimp only at hapart'
      omega
    · exact ih hfit' (fun q hq => hne q (List.mem_cons_of_mem p hq)) htail q hq

/-- Places for the literals, well below those of the arrays. -/
def farLiterals : ShellLiterals := ⟨1000, 1010, 1020, 1030, 1040, 1050, 1100, 1300⟩

/-- Arrays with a lot of room after each. -/
def farFrame : ShellFrame := ⟨10000, 20000, 30000, 40000, 50000, 60000⟩

/-- The literals and a line in a memory that is `v` elsewhere. -/
def farMemory (v : UInt8) (raw : List UInt8) : Memory :=
  storeStrings (fun _ => v) (farLiterals.names ++ farLiterals.formats ++ [(10000, raw)])

theorem farMemory_apart {raw : List UInt8} (hlen : raw.length ≤ 80) :
    (∀ p ∈ farLiterals.names ++ farLiterals.formats ++ [(10000, raw)],
      p.1 + p.2.length < 4294967296) ∧
    (farLiterals.names ++ farLiterals.formats ++ [(10000, raw)]).Pairwise
      fun p q => RegionsApart (placeOf p) (placeOf q) := by
  have hlow : ∀ p ∈ farLiterals.names ++ farLiterals.formats, p.1 + p.2.length < 2000 := by decide
  constructor
  · intro p hp
    rcases List.mem_append.mp hp with hp | hp
    · have hlt := hlow p hp
      omega
    · rw [List.mem_singleton.mp hp]
      dsimp only
      omega
  · rw [List.pairwise_append]
    refine ⟨?_, List.pairwise_singleton _ _, ?_⟩
    · unfold RegionsApart placeOf
      decide
    · intro p hp q hq
      rw [List.mem_singleton.mp hq]
      have hlt := hlow p hp
      left
      unfold placeOf
      dsimp only
      omega

theorem farMemory_strings {raw : List UInt8} (v : UInt8) (hne : ∀ c ∈ raw, c ≠ 0)
    (hlen : raw.length ≤ 80) : LiteralsBelow 2000 farLiterals (farMemory v raw) ∧
      CString (farMemory v raw) 10000 raw := by
  obtain ⟨hfit, hapart⟩ := farMemory_apart hlen
  have hlow : ∀ p ∈ farLiterals.names ++ farLiterals.formats, p.1 + p.2.length < 2000 := by decide
  have hchars : ∀ p ∈ farLiterals.names ++ farLiterals.formats, ∀ c ∈ p.2, c ≠ 0 := by decide +kernel
  have hall := cString_storeStrings (m := fun _ => v) hfit (fun p hp => ?_) hapart
  · refine ⟨fun p hp => ⟨hall p (List.mem_append_left _ hp), hlow p hp⟩, ?_⟩
    exact hall (10000, raw) (by simp)
  · rcases List.mem_append.mp hp with hp | hp
    · exact hchars p hp
    · rw [List.mem_singleton.mp hp]
      exact hne

theorem farMemory_elsewhere {raw : List UInt8} (v : UInt8) (hlen : raw.length ≤ 80) {x : ℕ}
    (hlo : 20000 ≤ x) (hx : x < 4294967296) : load8 (farMemory v raw) x = v := by
  unfold farMemory
  obtain ⟨hfit, -⟩ := farMemory_apart hlen
  rw [load8_storeStrings hx hfit]
  · rfl
  · intro p hp
    have hlow : ∀ p ∈ farLiterals.names ++ farLiterals.formats, p.1 + p.2.length < 2000 := by decide
    right
    rcases List.mem_append.mp hp with hp | hp
    · have hlt := hlow p hp
      omega
    · rw [List.mem_singleton.mp hp]
      dsimp only
      omega

end Example

/-! ## Which lines fit -/

section Fits

variable {raw : List UInt8}

/-- Wherever the literals, the line and the arrays are, the shell gets through the line and writes
to `buf[100]`, `command[50]`, `arg[50]` and `printbuf[80]` only, and to the argument of
`sprintf`. -/
def LineFits (raw : List UInt8) : Prop :=
  ∀ (m : Memory) (lits : ShellLiterals) (fr : ShellFrame) (base : ℕ),
    LiteralsBelow base lits m → RegionsFrom base (frameRegions fr 100 50 50 80) →
    CString m fr.buf raw →
    ∃ m', shellLine (fun _ => true) lits fr m = some m' ∧
      SameOutside (frameRegions fr 100 50 50 80) m m'

/-- The names of the commands have at most four characters. -/
theorem names_short {lits : ShellLiterals} {w : List UInt8} (hw : w ∈ lits.names.map Prod.snd) :
    w.length ≤ 4 := by
  have hall : ∀ v ∈ [literal ['t'], literal ['p', 's'], literal ['a'], literal ['k'],
      literal ['e', 'x'], literal ['s', 'u', 'd', 'o']], v.length ≤ 4 := by decide
  exact hall w hw

theorem lineFits_of_words (hlen : raw.length ≤ 80)
    (hcommand : (commandOf (lineOf raw)).length ≤ 8)
    (harg : (argumentOf (lineOf raw)).length ≤ 49) : LineFits raw := by
  intro m lits fr base hlits hregions hs
  by_cases hknown : commandOf (lineOf raw) ∈ lits.names.map Prod.snd
  · obtain ⟨m', hrun, hsame, -⟩ := shellLine_known (fun _ => rfl) hlits hs hregions (by omega)
      (by omega) (by omega) (by omega) hknown
    exact ⟨m', hrun, hsame⟩
  · obtain ⟨m', hrun, hsame, -, -⟩ := shellLine_unknown (fun _ => rfl) hlits hs hregions (by omega)
      (by omega) (by omega) (by omega) hknown (by omega)
    exact ⟨m', hrun, hsame⟩

/-- When a line fits, a byte outside the arrays keeps any value it may have had. -/
theorem lineFits_far (hne : ∀ c ∈ raw, c ≠ 0) (hlen : raw.length ≤ 80) (hfits : LineFits raw)
    (v : UInt8) : ∃ m', shellLine (fun _ => true) farLiterals farFrame (farMemory v raw) = some m' ∧
      load8 m' 30050 = v ∧ load8 m' 40080 = v := by
  obtain ⟨hlits, hs⟩ := farMemory_strings v hne hlen
  obtain ⟨m', hrun, hsame⟩ := hfits _ farLiterals farFrame 2000 hlits
    ⟨by decide, by unfold RegionsApart; decide⟩ hs
  refine ⟨m', hrun, ?_, ?_⟩
  · rw [hsame 30050 (by decide) (by decide)]
    exact farMemory_elsewhere v hlen (by decide) (by decide)
  · rw [hsame 40080 (by decide) (by decide)]
    exact farMemory_elsewhere v hlen (by decide) (by decide)

/-- No byte has every value. -/
theorem byte_not_every {b : UInt8} (h : ∀ v, b = v) : False :=
  absurd ((h 0).symm.trans (h 1)) (by decide)

theorem words_of_lineFits (hne : ∀ c ∈ raw, c ≠ 0) (hlen : raw.length ≤ 80)
    (hfits : LineFits raw) :
    (commandOf (lineOf raw)).length ≤ 8 ∧ (argumentOf (lineOf raw)).length ≤ 49 := by
  have hline : (lineOf raw).length ≤ 80 :=
    (List.takeWhile_prefix _).length_le.trans hlen
  have hcommand : (commandOf (lineOf raw)).length ≤ 80 :=
    (List.takeWhile_prefix _).length_le.trans hline
  have harg : (argumentOf (lineOf raw)).length ≤ 80 := by
    refine Nat.le_trans ?_ hline
    exact (List.takeWhile_prefix _).length_le.trans
      ((List.dropWhile_suffix _).length_le.trans (List.dropWhile_suffix _).length_le)
  have hregions : RegionsFrom 2000 (frameRegions farFrame 200 200 200 400) :=
    ⟨by decide, by unfold RegionsApart; decide⟩
  constructor
  · by_contra hlong
    have hunknown : commandOf (lineOf raw) ∉ farLiterals.names.map Prod.snd := by
      intro hmem
      have hshort := names_short hmem
      omega
    apply byte_not_every (b := messageByte (commandOf (lineOf raw)) 80)
    intro v
    obtain ⟨hlits, hs⟩ := farMemory_strings v hne hlen
    obtain ⟨m', hrun, -, hv⟩ := lineFits_far hne hlen hfits v
    obtain ⟨m'', hrun', -, -, hbytes⟩ := shellLine_unknown (fun _ => rfl) hlits hs hregions
      (by omega) (by omega) (by omega) (by omega) hunknown (by omega)
    obtain rfl : m' = m'' := Option.some.inj (hrun.symm.trans hrun')
    rw [← hbytes 80 (by omega)]
    exact hv
  · by_contra hlong
    apply byte_not_every (b := (argumentOf (lineOf raw)).getD 50 0)
    intro v
    obtain ⟨hlits, hs⟩ := farMemory_strings v hne hlen
    obtain ⟨m', hrun, hv, -⟩ := lineFits_far hne hlen hfits v
    have hparsed : Parsed 2000 farLiterals farFrame m' (commandOf (lineOf raw))
        (argumentOf (lineOf raw)) := by
      by_cases hknown : commandOf (lineOf raw) ∈ farLiterals.names.map Prod.snd
      · obtain ⟨m'', hrun', -, hparsed⟩ := shellLine_known (fun _ => rfl) hlits hs hregions
          (by omega) (by omega) (by omega) (by omega) hknown
        obtain rfl : m' = m'' := Option.some.inj (hrun.symm.trans hrun')
        exact hparsed
      · obtain ⟨m'', hrun', -, hparsed, -⟩ := shellLine_unknown (fun _ => rfl) hlits hs hregions
          (by omega) (by omega) (by omega) (by omega) hknown (by omega)
        obtain rfl : m' = m'' := Option.some.inj (hrun.symm.trans hrun')
        exact hparsed
    rw [← hparsed.arg.getD (by omega)]
    exact hv

/-- A line of up to 80 characters fits exactly when its command has at most 8 characters and its
argument at most 49. -/
theorem lineFits_iff (hne : ∀ c ∈ raw, c ≠ 0) (hlen : raw.length ≤ 80) :
    LineFits raw ↔
      (commandOf (lineOf raw)).length ≤ 8 ∧ (argumentOf (lineOf raw)).length ≤ 49 := by
  constructor
  · exact words_of_lineFits hne hlen
  · rintro ⟨hcommand, harg⟩
    exact lineFits_of_words hlen hcommand harg

/-- The line `ls -a`. -/
theorem lineFits_short : LineFits (literal ['l', 's', ' ', '-', 'a', '\n']) :=
  (lineFits_iff (by decide +kernel) (by decide +kernel)).mpr (by decide)

/-- The line `directory`: its first message has 80 characters, and a zero follows. -/
theorem lineFits_directory :
    ¬ LineFits (literal ['d', 'i', 'r', 'e', 'c', 't', 'o', 'r', 'y', '\n']) := by
  intro hfits
  have hwords := (words_of_lineFits (by decide +kernel) (by decide +kernel) hfits).1
  exact absurd hwords (by decide)

end Fits

end Xeros.Analysis
