import Xeros.Analysis.Formatting
import Xeros.Analysis.UserStrings

/-!
# Text on the console

`dispatch_syscall_puts` gives the user's string to the formatter as the format.  The formatter puts
out the string itself when no percent sign stands before its last character.  Otherwise it puts out
less, or looks for an argument on the kernel stack.
-/

set_option autoImplicit false

namespace Xeros.Analysis

open Xeros.Foundations Xeros.Model

section Echo

variable {readable : ℕ → Bool} {m : Memory} {out s t : List UInt8} {fmt args string : ℕ}

theorem putAll_kputc (m : Memory) (out t : List UInt8) : putAll kputc m out t = (m, out ++ t) := by
  induction t generalizing out with
  | nil => rw [List.append_nil]; rfl
  | cons c t ih =>
    unfold putAll
    rw [show kputc m out c = (m, out ++ [c]) from rfl, ih, List.append_assoc]
    rfl

/-- The console is not in memory. -/
theorem keepsFormat_kputc (hs : CString m fmt s) : KeepsFormat kputc m out t fmt s := by
  intro k hk
  rw [putAll_kputc]
  exact hs

/-- A string without percent sign before its last character is put out as it is. -/
theorem kprintf_text (hs : CString m fmt s) (hread : ∀ j ≤ s.length, readable (fmt + j) = true)
    (hfmt : fmt + s.length + 1 < 4294967296) (hlast : percent ∉ s.dropLast) :
    kprintf readable m string fmt args = some s := by
  have hrun : ∃ d : Doprnt (List UInt8),
      doprntRound readable kputc string ⟨m, [], fmt, args⟩ = some (.done d) ∧ d.out = s := by
    by_cases hmem : percent ∈ s
    · have hne : s ≠ [] := List.ne_nil_of_mem hmem
      obtain ⟨t, c, rfl⟩ := (List.eq_nil_or_concat s).resolve_left hne
      rw [List.concat_eq_append] at hmem hlast hs hread hfmt ⊢
      rw [List.dropLast_concat] at hlast
      obtain rfl : percent = c := by simpa [hlast] using hmem
      rw [List.length_append, List.length_singleton] at hread hfmt
      have hzero : load8 m (fmt + t.length + 1) = 0 := hs.drop.2.2
      rw [doprntRound_percent hlast (keepsFormat_kputc hs) (fun j hj => hread j (by omega))
        (by omega), putAll_kputc, directive_end]
      · exact ⟨_, rfl, rfl⟩
      · rw [Nat.add_assoc] at hzero ⊢
        rw [readByte_of_readable (hread _ (le_refl _)), hzero]
    · rw [doprntRound_plain hmem (keepsFormat_kputc hs) hread hfmt, putAll_kputc]
      exact ⟨_, rfl, rfl⟩
  obtain ⟨d, hd, hout⟩ := hrun
  unfold kprintf doprnt
  rw [show loop (doprntRound readable kputc string) loopBound ⟨m, [], fmt, args⟩ = some d from
    loop_succ_done (loopBound - 1) hd, ← hout]
  rfl

end Echo

/-! ## Directives that are cut short -/

section Directives

variable {readable : ℕ → Bool} {m : Memory} {out s : List UInt8} {fmt args string : ℕ}
  {κ : Type} {put : Memory → κ → UInt8 → Memory × κ}

/-- Only the pointer into the format has moved. -/
structure Advanced (d d' : Doprnt κ) : Prop where
  mem : d'.mem = d.mem
  out : d'.out = d.out
  args : d'.args = d.args

theorem Advanced.refl (d : Doprnt κ) : Advanced d d := ⟨rfl, rfl, rfl⟩

theorem Advanced.trans {a b c : Doprnt κ} (h : Advanced a b) (h' : Advanced b c) : Advanced a c :=
  ⟨h'.mem.trans h.mem, h'.out.trans h.out, h'.args.trans h.args⟩

theorem advance_advanced (d : Doprnt κ) : Advanced d d.advance := ⟨rfl, rfl, rfl⟩

theorem advance_if_advanced (d : Doprnt κ) (p : Prop) [Decidable p] :
    Advanced d (if p then d.advance else d) := by
  by_cases hp : p
  · rw [if_pos hp]
    exact advance_advanced d
  · rw [if_neg hp]
    exact Advanced.refl d

theorem Advanced.noArgs {d d' : Doprnt κ} (h : Advanced d d')
    (hargs : readInt readable d.mem d.args = none) : readInt readable d'.mem d'.args = none := by
  rw [h.mem, h.args]
  exact hargs

/-- Without an argument to read, a width is read from the format. -/
theorem readWidth_advanced {d d' : Doprnt κ} {n : ℤ}
    (hargs : readInt readable d.mem d.args = none)
    (h : readWidth readable d = some (n, d')) : Advanced d d' := by
  unfold readWidth at h
  obtain ⟨c, -, h⟩ := Option.bind_eq_some_iff.mp h
  by_cases hstar : c = '*'.toUInt8
  · rw [if_pos hstar, hargs] at h
    cases h
  · rw [if_neg hstar] at h
    obtain ⟨st, -, h⟩ := Option.bind_eq_some_iff.mp h
    obtain ⟨-, rfl⟩ := Prod.mk.inj (Option.some.inj h)
    exact ⟨rfl, rfl, rfl⟩

theorem readPrecision_advanced {d d' : Doprnt κ} {n : ℤ}
    (hargs : readInt readable d.mem d.args = none)
    (h : readPrecision readable d = some (n, d')) : Advanced d d' := by
  unfold readPrecision at h
  obtain ⟨c, -, h⟩ := Option.bind_eq_some_iff.mp h
  by_cases hdot : c = '.'.toUInt8
  · rw [if_pos hdot] at h
    have hdown := advance_advanced d
    exact hdown.trans (readWidth_advanced (hdown.noArgs hargs) h)
  · rw [if_neg hdot] at h
    obtain ⟨-, rfl⟩ := Prod.mk.inj (Option.some.inj h)
    exact Advanced.refl d

theorem readField_advanced {d d' : Doprnt κ} {field : FieldSpec}
    (hargs : readInt readable d.mem d.args = none)
    (h : readField readable d = some (field, d')) : Advanced d d' := by
  unfold readField at h
  obtain ⟨c1, -, h⟩ := Option.bind_eq_some_iff.mp h
  dsimp only at h
  have h1 := advance_if_advanced d (decide (c1 = '-'.toUInt8) = true)
  generalize (if decide (c1 = '-'.toUInt8) = true then d.advance else d) = d1 at h h1
  obtain ⟨c2, -, h⟩ := Option.bind_eq_some_iff.mp h
  have h2 := h1.trans (advance_if_advanced d1 (c2 = '0'.toUInt8))
  generalize (if c2 = '0'.toUInt8 then d1.advance else d1) = d2 at h h2
  obtain ⟨⟨fmin, d3⟩, hmin, h⟩ := Option.bind_eq_some_iff.mp h
  have h3 := h2.trans (readWidth_advanced (h2.noArgs hargs) hmin)
  dsimp only at h
  obtain ⟨⟨fmax, d4⟩, hmax, h⟩ := Option.bind_eq_some_iff.mp h
  have h4 := h3.trans (readPrecision_advanced (h3.noArgs hargs) hmax)
  dsimp only at h
  obtain ⟨c4, -, h⟩ := Option.bind_eq_some_iff.mp h
  obtain ⟨-, rfl⟩ := Prod.mk.inj (Option.some.inj h)
  exact h4.trans (advance_if_advanced d4 (c4 = 'l'.toUInt8))

theorem convertUnsigned_noArgs {d : Doprnt κ} (hargs : readInt readable d.mem d.args = none) :
    convertUnsigned readable string d = none := by
  have hround : positiveRound readable d.args (d.mem, 0) = none := by
    unfold positiveRound
    rw [hargs]
    rfl
  have hloop : loop (positiveRound readable d.args) loopBound (d.mem, 0) = none := by
    rw [show loopBound = (loopBound - 1) + 1 from rfl, loop, hround]
  unfold convertUnsigned
  rw [hloop]
  rfl

/-- Without an argument to read, only a character that is no format character gets through the
`switch`; it is put out, and `string` is next. -/
theorem convert_noArgs {d d' : Doprnt κ} {f : UInt8} {field : FieldSpec} {cv : Conversion}
    (hargs : readInt readable d.mem d.args = none)
    (h : convert readable put string f field d = some (cv, d')) : cv.str = string := by
  unfold convert convertSigned at h
  rw [hargs, convertUnsigned_noArgs hargs] at h
  simp only [Option.bind_eq_bind, Option.bind_none] at h
  split_ifs at h
  obtain ⟨rfl, -⟩ := Prod.mk.inj (Option.some.inj h)
  rfl

/-- The field cannot be put out when the array `string` cannot be read. -/
theorem putField_unreadable {d : Doprnt κ} {field : FieldSpec} {cv : Conversion}
    (hstring : readable cv.str = false) (hstr : cv.str < 4294967296) :
    putField readable put field cv d = none := by
  have hround : lengthRound readable d.mem cv.str 0 = none := by
    have haddr : toWord ((cv.str : ℤ) + 0) = cv.str := by
      unfold toWord
      omega
    unfold lengthRound
    rw [haddr, show readByte readable d.mem cv.str = none from if_neg (by simp [hstring])]
    rfl
  have hloop : loop (lengthRound readable d.mem cv.str) loopBound 0 = none := by
    rw [show loopBound = (loopBound - 1) + 1 from rfl, loop, hround]
  unfold putField
  dsimp only
  rw [hloop]
  rfl

/-- A directive other than `%%` that reads the format only is a field specification at the end of
the format: a percent sign is put out, and the formatter returns. -/
theorem directive_noArgs {c : UInt8} {r : Iter (Doprnt κ) (Doprnt κ)}
    (hargs : ∀ m, readInt readable m args = none) (hstring : readable string = false)
    (hlt : string < 4294967296) (hc : readByte readable m fmt = some c) (hne : c ≠ percent)
    {out : κ} (h : directive readable put string ⟨m, out, fmt, args⟩ = some r) :
    ∃ d, r = .done d ∧ d.out = (put m out percent).2 := by
  unfold directive at h
  dsimp only at h
  rw [hc, Option.bind_eq_bind, Option.bind_some, if_neg hne] at h
  obtain ⟨⟨field, d⟩, hfield, h⟩ := Option.bind_eq_some_iff.mp h
  have hd := readField_advanced (hargs m) hfield
  dsimp only at h
  obtain ⟨f, -, h⟩ := Option.bind_eq_some_iff.mp h
  by_cases hf : f = 0
  · rw [if_pos hf] at h
    obtain rfl := Option.some.inj h
    refine ⟨_, rfl, ?_⟩
    unfold Doprnt.emit Doprnt.advance
    dsimp only
    rw [hd.mem, hd.out]
  · rw [if_neg hf] at h
    obtain ⟨⟨cv, d'⟩, hcv, h⟩ := Option.bind_eq_some_iff.mp h
    dsimp only at h
    obtain ⟨d'', hput, -⟩ := Option.bind_eq_some_iff.mp h
    have hstr := convert_noArgs ((hd.trans (advance_advanced d)).noArgs (hargs m)) hcv
    rw [putField_unreadable (by rw [hstr]; exact hstring) (by rw [hstr]; exact hlt)] at hput
    cases hput

end Directives

/-! ## Whole strings -/

section Strings

variable {readable : ℕ → Bool} {m : Memory} {out s : List UInt8} {fmt args string str : ℕ}

/-- A formatter that may look at its format only puts out at most as much as the format has
characters, and less when a percent sign stands before the last one: by induction on the rounds,
each of which ends the format or takes a percent sign from it. -/
theorem doprnt_short {n : ℕ} {d : Doprnt (List UInt8)}
    (hargs : ∀ m, readInt readable m args = none) (hstring : readable string = false)
    (hlt : string < 4294967296) (hs : CString m fmt s)
    (hread : ∀ j ≤ s.length, readable (fmt + j) = true) (hfmt : fmt + s.length + 1 < 4294967296)
    (hrun : loop (doprntRound readable kputc string) n ⟨m, out, fmt, args⟩ = some d) :
    ∃ o, d.out = out ++ o ∧ o.length ≤ s.length ∧
      (percent ∈ s.dropLast → o.length < s.length) := by
  induction n generalizing out fmt s with
  | zero => simp [loop] at hrun
  | succ n ih =>
    by_cases hmem : percent ∈ s
    · obtain ⟨t, u, rfl, ht⟩ := List.eq_append_cons_of_mem hmem
      rw [List.length_append, List.length_cons] at hread hfmt
      have hround : doprntRound readable kputc string ⟨m, out, fmt, args⟩ =
          directive readable kputc string ⟨m, out ++ t, fmt + t.length + 1, args⟩ := by
        rw [doprntRound_percent ht (keepsFormat_kputc hs) (fun j hj => hread j (by omega))
          (by omega), putAll_kputc]
      have hu : CString m (fmt + t.length + 1) u := hs.drop.2.2
      have hnext : readable (fmt + t.length + 1) = true := by
        rw [Nat.add_assoc]
        exact hread _ (by omega)
      rw [List.length_append, List.length_cons]
      cases u with
      | nil =>
        rw [directive_end (by rw [readByte_of_readable hnext, show load8 m _ = 0 from hu])] at hround
        rw [loop_succ_done n hround] at hrun
        obtain rfl := Option.some.inj hrun
        refine ⟨t ++ [percent], by rw [← List.append_assoc]; rfl, by simp, ?_⟩
        intro hbefore
        rw [List.dropLast_concat] at hbefore
        exact absurd hbefore ht
      | cons c u =>
        rw [List.length_cons] at hread hfmt ⊢
        have hc : readByte readable m (fmt + t.length + 1) = some c := by
          rw [readByte_of_readable hnext, hu.1]
        by_cases hcp : c = percent
        · rw [hcp] at hc
          rw [directive_percent hc (by omega)] at hround
          rw [loop_succ_again n hround] at hrun
          have hreadrest : ∀ j ≤ u.length, readable (fmt + t.length + 1 + 1 + j) = true := by
            intro j hj
            rw [show fmt + t.length + 1 + 1 + j = fmt + (t.length + 2 + j) by omega]
            exact hread _ (by omega)
          obtain ⟨o, ho, hle, -⟩ := ih hu.2.2 hreadrest (by omega) hrun
          refine ⟨t ++ percent :: o, ?_, ?_, fun _ => ?_⟩
          · rw [ho]
            simp [kputc]
          · rw [List.length_append, List.length_cons]
            omega
          · rw [List.length_append, List.length_cons]
            omega
        · cases hdir : directive readable kputc string
              ⟨m, out ++ t, fmt + t.length + 1, args⟩ with
          | none =>
            rw [hdir] at hround
            simp [loop, hround] at hrun
          | some r =>
            obtain ⟨d', rfl, hout⟩ := directive_noArgs hargs hstring hlt hc hcp hdir
            rw [hdir] at hround
            rw [loop_succ_done n hround] at hrun
            obtain rfl := Option.some.inj hrun
            refine ⟨t ++ [percent], ?_, by simp, fun _ => by simp⟩
            rw [hout, ← List.append_assoc]
            rfl
    · have hround : doprntRound readable kputc string ⟨m, out, fmt, args⟩ =
          some (.done ⟨m, out ++ s, fmt + s.length + 1, args⟩) := by
        rw [doprntRound_plain hmem (keepsFormat_kputc hs) hread hfmt, putAll_kputc]
      rw [loop_succ_done n hround] at hrun
      obtain rfl := Option.some.inj hrun
      exact ⟨s, rfl, le_refl _, fun h => absurd (List.mem_of_mem_dropLast h) hmem⟩

/-- The zero that ends a string of `verify_usrstr` is not before the end of the string. -/
theorem accessible_of_string {h : Heap} (hl : MemoryLayout h) (hstr : str < 4294967296)
    (hok : h.verifyUsrstr str = some ok) (hs : CString h.mem str s) :
    ∀ j ≤ s.length, Accessible h ((str + j : ℕ) : ℤ) := by
  obtain ⟨r, hr, hans⟩ := verifyUsrstr_answers hl hstr
  obtain ⟨k, hend⟩ := hans.accepts.mp (Option.some.inj (hr.symm.trans hok))
  have hk : s.length ≤ k := by
    by_contra hlt
    obtain ⟨hbyte, hne⟩ := hs.byte (Nat.lt_of_not_le hlt)
    exact hne (hbyte.symm.trans hend.zero)
  intro j hj
  exact hend.accessible j (hj.trans hk)

/-- `kprintf` comes back from an accepted string without percent sign before its last character,
if it may look where user programs may. -/
theorem kprintf_accepted {h : Heap} {readable : ℕ → Bool} (hl : MemoryLayout h)
    (hstr : str < 4294967296) (hok : h.verifyUsrstr str = some ok) (hs : CString h.mem str s)
    (hread : ∀ a : ℕ, Accessible h a → readable a = true) (hlast : percent ∉ s.dropLast) :
    kprintf readable h.mem string str args = some s := by
  have hacc := accessible_of_string hl hstr hok hs
  have hmax := kmemMaxaddr_range h
  have htop := (hacc s.length (le_refl _)).2.1
  exact kprintf_text hs (fun j hj => hread _ (hacc j hj)) (by omega) hlast

theorem kprintfMem_eq_none {readable : ℕ → Bool} :
    kprintfMem readable m string fmt args = none ↔ kprintf readable m string fmt args = none := by
  unfold kprintfMem kprintf
  cases doprnt readable kputc string ⟨m, [], fmt, args⟩ with
  | none => exact ⟨fun _ => rfl, fun _ => rfl⟩
  | some d => exact ⟨fun h => absurd h (by simp), fun h => absurd h (by simp)⟩

/-- The addresses of a string and its terminator. -/
def stringAddresses (str : ℕ) (s : List UInt8) (a : ℕ) : Bool :=
  str ≤ a ∧ a ≤ str + s.length

/-- The address lies in the kernel stack. -/
def OnKernelStack (h : Heap) (a : ℕ) : Prop :=
  h.kmemFreemem - kernelStack ≤ a ∧ (a : ℤ) < h.kmemFreemem

/-- With the frame of `kprintf` on the kernel stack, a string that is accepted is printed as it is,
from its own bytes, exactly when no percent sign stands before its last character. -/
theorem sysputsText_exact {h : Heap} (hl : MemoryLayout h) (hstr : str < 4294967296)
    (hok : h.verifyUsrstr str = some ok) (hs : CString h.mem str s)
    (hargs : OnKernelStack h args) (hstring : OnKernelStack h string) :
    h.sysputsText (stringAddresses str s) string str args = some s ↔ percent ∉ s.dropLast := by
  have hacc := accessible_of_string hl hstr hok hs
  have hmax := kmemMaxaddr_range h
  have htop := (hacc s.length (le_refl _)).2.1
  have hread : ∀ j ≤ s.length, stringAddresses str s (str + j) = true := by
    intro j hj
    unfold stringAddresses
    simp only [decide_eq_true_eq]
    omega
  have hunreadable : ∀ a, OnKernelStack h a → stringAddresses str s a = false := by
    intro a ha
    unfold stringAddresses
    rw [decide_eq_false_iff_not]
    rintro ⟨hlo, hhi⟩
    have hno := (hacc (a - str) (by omega)).2.2.2
    rw [show str + (a - str) = a by omega] at hno
    exact hno ha
  have htext : h.sysputsText (stringAddresses str s) string str args =
      kprintf (stringAddresses str s) h.mem string str args := by
    unfold Heap.sysputsText
    rw [hok]
    rfl
  rw [htext]
  constructor
  · intro hrun hbefore
    obtain ⟨d, hd, hout⟩ := Option.bind_eq_some_iff.mp hrun
    have hnoargs : ∀ m, readInt (stringAddresses str s) m args = none := by
      intro m
      unfold readInt
      rw [if_neg (by simp [hunreadable args hargs])]
    have hfree : h.kmemFreemem < 2147483648 := (wrapInt_range _).2
    have hlt := hstring.2
    obtain ⟨o, ho, -, hshort⟩ := doprnt_short hnoargs (hunreadable string hstring) (by omega) hs
      hread (by omega) hd
    obtain rfl : d.out = s := Option.some.inj hout
    rw [List.nil_append] at ho
    exact absurd (hshort hbefore) (by rw [ho]; exact lt_irrefl _)
  · intro hlast
    exact kprintf_text hs hread (by omega) hlast

/-- `"50%"` is printed: a percent sign at the end introduces nothing. -/
theorem sysputsText_exact_percent_last :
    (withMem smallHeap (oneString [53, 48, 37])).sysputsText (stringAddresses 60000 [53, 48, 37])
      131000 60000 131040 = some [53, 48, 37] := by
  refine (sysputsText_exact (h := withMem smallHeap (oneString [53, 48, 37]))
    ?_ ?_ ?_ ?_ ?_ ?_).mpr ?_
  · exact ⟨smallHeap_layout.kstack, smallHeap_layout.freemem, smallHeap_layout.maxaddr⟩
  · decide
  · decide +kernel
  · exact cString_storeString (by decide +kernel) (by decide)
  · exact ⟨by decide, by decide⟩
  · exact ⟨by decide, by decide⟩
  · decide

/-- Of two percent signs one is printed, wherever the formatter may look. -/
theorem sysputsText_percents :
    (withMem smallHeap (oneString [37, 37])).verifyUsrstr 60000 = some ok ∧
      CString (oneString [37, 37]) 60000 [37, 37] ∧
      (withMem smallHeap (oneString [37, 37])).sysputsText (fun _ => true) 131000 60000 131040 =
        some [37] := by
  refine ⟨by decide +kernel, ?_, by decide +kernel⟩
  exact cString_storeString (by decide +kernel) (by decide)

end Strings

end Xeros.Analysis
