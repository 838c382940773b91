import Xeros.Analysis.SignalDelivery
import Xeros.Refinement.Accounts

/-!
# Signals and the context they interrupt

`signal` puts the return code and the stack pointer of the process below its stack, where
`dispatch_syscall_sigreturn` looks for them.  The kernel keeps no other copy, and the handler's own
system calls overwrite both fields.  When handlers return with the context they were given, the
process resumes as it was, after however many of them.
-/

set_option autoImplicit false

namespace Xeros.Analysis

open Xeros.Foundations Xeros.Model Xeros.Abstract Xeros.Interface KernelOf

/-! ## The frame -/

/-- The bytes that `signal` writes below the stack pointer. -/
abbrev signalFrameSize : ℕ := 60

/-- The memory in which a process with the stack pointer `sp` and the return code `ret` enters a
handler: both are saved below `sp`, and nothing but the frame was written. -/
structure Framed (m m' : Memory) (sp : ℕ) (ret : ℤ) : Prop where
  saved : load32 m' (subWord sp 4) = toWord ret
  context : load32 m' (subWord sp 8) = sp
  same : ∀ a < 4294967296, a + signalFrameSize < sp ∨ sp ≤ a → load8 m' a = load8 m a

/-- The frame of `signal`, and the `eax` of its context. -/
theorem signalFrame_framed (c : Core) (p : PcbPtr) (sig : ℕ)
    (hlo : signalFrameSize ≤ (c.pcb p).esp) (hhi : (c.pcb p).esp < 4294967296) :
    Framed c.mem (store32 (signalFrame c p sig) (signalContext (c.pcb p).esp + 28)
      (toWord (c.pcb p).ret)) (c.pcb p).esp (c.pcb p).ret := by
  obtain ⟨sp, hsp⟩ : ∃ sp, sp = (c.pcb p).esp := ⟨_, rfl⟩
  have hlt := toWord_lt (c.pcb p).ret
  rw [← hsp] at hlo hhi ⊢
  have hsize : signalFrameSize = 60 := rfl
  rw [hsize] at hlo
  have h4 : subWord sp 4 = sp - 4 := subWord_of_le hhi (by omega)
  have h8 : subWord (sp - 4) 4 = sp - 8 := subWord_of_le (by omega) (by omega)
  have h12 : subWord (sp - 8) 4 = sp - 12 := subWord_of_le (by omega) (by omega)
  have h16 : subWord (sp - 12) 4 = sp - 16 := subWord_of_le (by omega) (by omega)
  have hcf : subWord (sp - 16) sizeofContextFrame = sp - 60 := by
    rw [subWord_of_le (by omega) (by show 44 ≤ sp - 16; omega)]
    show sp - 16 - 44 = sp - 60
    omega
  have hctx : signalContext sp = sp - 60 := by
    unfold signalContext
    rw [h4, h8, h12, h16, hcf]
  -- everything but the four words and the context frame is as before
  have hbyte : ∀ (m : Memory) (d : ℕ) (w x : ℕ), d ≤ sp - 4 → x < 4294967296 →
      (x < d ∨ d + 4 ≤ x) → load8 (store32 m d w) x = load8 m x := by
    intro m d w x hd hx hout
    apply load8_store32_of_ne
    intro j hj
    rw [Nat.mod_eq_of_lt hx, Nat.mod_eq_of_lt (by omega)]
    omega
  have hframe : ∀ (m : Memory) (func x : ℕ), x < 4294967296 → (x < sp - 60 ∨ sp - 16 ≤ x) →
      load8 (setupContextFrame m (sp - 60) func) x = load8 m x := by
    intro m func x hx hout
    apply load8_setupContextFrame_of_ne
    intro j hj
    have hj44 : j < 44 := hj
    rw [Nat.mod_eq_of_lt hx, Nat.mod_eq_of_lt (by omega)]
    omega
  have hword : ∀ (m : Memory) (d w e : ℕ), d ≤ sp - 4 → e ≤ sp - 4 → (e + 4 ≤ d ∨ d + 4 ≤ e) →
      load32 (store32 m d w) e = load32 m e := by
    intro m d w e hd he hout
    apply load32_congr
    intro j hj
    exact hbyte m d w (e + j) hd (by omega) (by omega)
  have hframe32 : ∀ (m : Memory) (func e : ℕ), sp - 16 ≤ e → e ≤ sp - 4 →
      load32 (setupContextFrame m (sp - 60) func) e = load32 m e := by
    intro m func e he he'
    apply load32_congr
    intro j hj
    exact hframe m func (e + j) (by omega) (by omega)
  rw [hctx]
  unfold signalFrame
  dsimp only
  rw [← hsp, hctx, h4, h8, h12, h16]
  refine ⟨?_, ?_, fun x hx hout => ?_⟩
  · rw [h4, hword _ _ _ _ (by omega) (by omega) (by omega), hframe32 _ _ _ (by omega) (by omega),
      hword _ _ _ _ (by omega) (by omega) (by omega), hword _ _ _ _ (by omega) (by omega) (by omega),
      hword _ _ _ _ (by omega) (by omega) (by omega), load32_store32_same, Nat.mod_eq_of_lt hlt]
  · rw [subWord_of_le hhi (by omega), hword _ _ _ _ (by omega) (by omega) (by omega),
      hframe32 _ _ _ (by omega) (by omega), hword _ _ _ _ (by omega) (by omega) (by omega),
      hword _ _ _ _ (by omega) (by omega) (by omega), load32_store32_same, Nat.mod_eq_of_lt hhi]
  · rw [hsize] at hout
    rw [hbyte _ _ _ _ (by omega) hx (by omega), hframe _ _ _ hx (by omega),
      hbyte _ _ _ _ (by omega) hx (by omega), hbyte _ _ _ _ (by omega) hx (by omega),
      hbyte _ _ _ _ (by omega) hx (by omega), hbyte _ _ _ _ (by omega) hx (by omega)]

/-! ## One delivery and its return -/

variable {r : Run Links} {i : Fin pcbTableSize} {sig j k n : ℕ}

/-- A delivery builds the frame of the signal below the stack pointer of the process. -/
theorem DeliversIn.framed (h : DeliversIn r i sig j) (hj : j < r.len)
    (hlo : signalFrameSize ≤ ((r.state j).pcb (.table i)).esp)
    (hhi : ((r.state j).pcb (.table i)).esp < 4294967296) :
    ∃ u, (r.state j).enterUser (.table i) = some u ∧ Framed (r.state j).mem u.mem
      ((r.state j).pcb (.table i)).esp ((r.state j).pcb (.table i)).ret := by
  obtain ⟨hcur, hen, hbit, -⟩ := (deliversIn_iff hj).mp h
  have hfire : ((r.state j).pcb (.table i)).signalsFired ≠ 0 ∧
      ((r.state j).pcb (.table i)).signalsEnabled = true := by
    refine ⟨fun h0 => ?_, hen⟩
    rw [h0] at hbit
    simp [flagBitCheck] at hbit
  have hfinds := (r.sane hj.le).finds hcur
  rw [hcur] at hfinds
  refine ⟨_, enterUser_signal hfinds hfire, ?_⟩
  have hkept : (((r.state j).takeSignal (.table i)).pcb (.table i)).esp =
        ((r.state j).pcb (.table i)).esp ∧
      (((r.state j).takeSignal (.table i)).pcb (.table i)).ret =
        ((r.state j).pcb (.table i)).ret := by
    unfold takeSignal
    rw [setPcb_toCore, Core.setPcb_pcb_self]
    exact ⟨rfl, rfl⟩
  have hframe := signalFrame_framed ((r.state j).takeSignal (.table i)).toCore (.table i)
    ((r.state j).highestPending (.table i)) (by rw [hkept.1]; exact hlo) (by rw [hkept.1]; exact hhi)
  rw [hkept.1, hkept.2] at hframe
  show Framed _ (((r.state j).takeSignal (.table i)).toCore.pushSignalFrame (.table i)
    ((r.state j).highestPending (.table i)) |>.store _ _).mem _ _
  rw [pushSignalFrame_eq]
  exact hframe

/-- The handler entered in step `j` returns in step `k` as `sigtramp` does: with the context it was
given, and with the return code that was saved below it. -/
def KeepsFrame (r : Run Links) (i : Fin pcbTableSize) (j k : ℕ) : Prop :=
  ∀ u, (r.state j).enterUser (.table i) = some u →
    (r.input k).arg 0 = load32 u.mem (subWord ((r.state j).pcb (.table i)).esp 8) ∧
      load32 (r.input k).mem (subWord ((r.state j).pcb (.table i)).esp 4) =
        load32 u.mem (subWord ((r.state j).pcb (.table i)).esp 4)

/-- What `syssigreturn` does to a process that lives on. -/
theorem returned_registers (hk : k < r.len) (h : ReturnsIn r i k) :
    (r.state (k + 1)).currproc = .table i ∧
      ((r.state (k + 1)).pcb (.table i)).signalsEnabled = true ∧
      ((r.state (k + 1)).pcb (.table i)).esp = (r.input k).arg 0 ∧
      ((r.state (k + 1)).pcb (.table i)).ret =
        toInt (load32 (r.input k).mem (subWord ((r.input k).arg 0) 4)) := by
  obtain ⟨hcur, hreq, hlives⟩ := h
  obtain ⟨s, req, heff⟩ := r.effect hk
  have hsys : (r.input k).reason = .syscall := syscall_of_request hreq (by simp) (by simp)
  have harg : s.arg 0 = (r.input k).arg 0 := atTrap_arg heff.trap hsys 0
  have hmem : s.mem = (r.input k).mem := by
    have htrap := heff.trap
    unfold atTrap at htrap
    obtain ⟨u, -, rfl⟩ := Option.map_eq_some_iff.mp htrap
    rfl
  have hc : s.currproc = .table i := heff.currproc.trans hcur
  have hdis := heff.handled
  rw [heff.request] at hreq
  rw [Option.some.inj hreq] at hdis
  unfold dispatchRequest dispatchSyscallSigreturn at hdis
  dsimp only at hdis
  obtain ⟨result, -, hdis⟩ := Option.bind_eq_some_iff.mp hdis
  split_ifs at hdis with hres
  · -- a bad context ends the process
    obtain ⟨s', req', hs', -, -, hsane, -⟩ := r.device hk
    rw [heff.trap] at hs'
    obtain rfl := Option.some.inj hs'
    have hstop := cleanupProc_stopped hsane (by rw [hc]; simp) hdis
    rw [hc] at hstop
    exact absurd hstop hlives
  · have heq := Option.some.inj hdis
    rw [harg, hmem] at heq
    rw [← heq]
    unfold setRet
    rw [setPcb_toCore, setPcb_toCore, Core.setPcb_currproc, Core.setPcb_currproc, hc,
      Core.setPcb_pcb_self, Core.setPcb_pcb_self]
    exact ⟨rfl, rfl, rfl, rfl⟩

/-! ## Handlers one after the other -/

/-- The context of the process at step `k` is that of step `m`. -/
def SameContext (r : Run Links) (i : Fin pcbTableSize) (m k : ℕ) : Prop :=
  ((r.state k).pcb (.table i)).esp = ((r.state m).pcb (.table i)).esp ∧
    toWord ((r.state k).pcb (.table i)).ret = toWord ((r.state m).pcb (.table i)).ret

/-- From step `m` on the process runs handlers only: at step `k` it is about to resume as it was, or
in the handler that it entered as it was and that has not returned. -/
def InHandlers (r : Run Links) (i : Fin pcbTableSize) (m k : ℕ) : Prop :=
  (r.state k).currproc = .table i ∧ ((r.state k).pcb (.table i)).signalsEnabled = true ∧
      SameContext r i m k ∨
    ((r.state k).pcb (.table i)).signalsEnabled = false ∧ ∃ j sig, m ≤ j ∧ j < k ∧
      DeliversIn r i sig j ∧ SameContext r i m j ∧ ∀ l, j ≤ l → l < k → ¬ ReturnsIn r i l

variable {m : ℕ}

/-- A handler that kept its frame returns to the context it interrupted. -/
theorem SameContext.returns (h : SameContext r i m j) (hk : k < r.len) (hjk : j ≤ k)
    (hlo : signalFrameSize ≤ ((r.state m).pcb (.table i)).esp)
    (hhi : ((r.state m).pcb (.table i)).esp < 4294967296) (hdel : DeliversIn r i sig j)
    (hret : ReturnsIn r i k) (hkeep : KeepsFrame r i j k) : InHandlers r i m (k + 1) := by
  obtain ⟨hesp, hword⟩ := h
  obtain ⟨u, hu, hframe⟩ := hdel.framed (by omega) (by rw [hesp]; exact hlo) (by rw [hesp]; exact hhi)
  obtain ⟨harg, hsaved⟩ := hkeep u hu
  obtain ⟨hcur, hen, hesp', hret'⟩ := returned_registers hk hret
  rw [hframe.context] at harg
  rw [hframe.saved] at hsaved
  refine .inl ⟨hcur, hen, ?_, ?_⟩
  · rw [hesp', harg, hesp]
  · rw [hret', harg, hsaved, toWord_toInt (toWord_lt _), hword]

/-- One step of a process that runs handlers only. -/
theorem InHandlers.step (h : InHandlers r i m k) (hk : k < r.len) (hmk : m ≤ k)
    (hlo : signalFrameSize ≤ ((r.state m).pcb (.table i)).esp)
    (hhi : ((r.state m).pcb (.table i)).esp < 4294967296)
    (hlive : ((r.state k).pcb (.table i)).currState ≠ .stopped)
    (hlives : ((r.state (k + 1)).pcb (.table i)).currState ≠ .stopped)
    (hhandler : (r.state k).currproc = .table i →
      ((r.state k).pcb (.table i)).signalsEnabled = true → ∃ sig, DeliversIn r i sig k)
    (hkeeps : ∀ j sig, m ≤ j → j ≤ k → DeliversIn r i sig j → ReturnsIn r i k →
      (∀ l, j ≤ l → l < k → ¬ ReturnsIn r i l) → KeepsFrame r i j k) :
    InHandlers r i m (k + 1) := by
  have hstep := enabled_step (r := r) hk hlive hlives
  have hin : ∀ j sig, m ≤ j → j ≤ k → DeliversIn r i sig j → SameContext r i m j →
      (∀ l, j ≤ l → l < k → ¬ ReturnsIn r i l) →
      (¬ ReturnsIn r i k → ((r.state (k + 1)).pcb (.table i)).signalsEnabled = false) →
      InHandlers r i m (k + 1) := by
    intro j sig hmj hjk hdel hsame hno hoff
    by_cases hret : ReturnsIn r i k
    · exact hsame.returns hk hjk hlo hhi hdel hret (hkeeps j sig hmj hjk hdel hret hno)
    · refine .inr ⟨hoff hret, j, sig, hmj, by omega, hdel, hsame, fun l hjl hlk => ?_⟩
      rcases Nat.lt_succ_iff_lt_or_eq.mp hlk with hlt | rfl
      · exact hno l hjl hlt
      · exact hret
  rcases h with ⟨hcur, hen, hsame⟩ | ⟨hoff, j, sig, hmj, hjk, hdel, hsame, hno⟩
  · -- the process resumes, so the next signal is delivered
    obtain ⟨sig, hdel⟩ := hhandler hcur hen
    refine hin k sig hmk le_rfl hdel hsame (fun l hkl hlk => absurd hlk (by omega)) fun hret => ?_
    rw [← Bool.not_eq_true, hstep]
    rintro (hr | ⟨-, hnone⟩)
    · exact hret hr
    · exact hnone ⟨sig, hdel⟩
  · refine hin j sig hmj hjk.le hdel hsame hno fun hret => ?_
    rw [← Bool.not_eq_true, hstep]
    rintro (hr | ⟨hen, -⟩)
    · exact hret hr
    · rw [hoff] at hen
      simp at hen

/-- In every run, a process that is interrupted by a signal, and by any number of further ones, and
whose handlers return as `sigtramp` does, resumes with the stack pointer and the `eax` it had; every
one of the deliveries wrote its frame at the same place below the stack, and nothing else. -/
theorem signal_round_trip (r : Run Links) {m n : ℕ} (hmn : m < n) (hn : n ≤ r.len)
    (i : Fin pcbTableSize) {sig : ℕ} (hfirst : DeliversIn r i sig m)
    (hlo : signalFrameSize ≤ ((r.state m).pcb (.table i)).esp)
    (hhi : ((r.state m).pcb (.table i)).esp < 4294967296)
    (hlive : ∀ k, m ≤ k → k ≤ n → ((r.state k).pcb (.table i)).currState ≠ .stopped)
    (hhandlers : ∀ k, m < k → k < n → (r.state k).currproc = .table i →
      ((r.state k).pcb (.table i)).signalsEnabled = true → ∃ sig', DeliversIn r i sig' k)
    (hkeeps : ∀ j k sig', m ≤ j → j ≤ k → k < n → DeliversIn r i sig' j → ReturnsIn r i k →
      (∀ l, j ≤ l → l < k → ¬ ReturnsIn r i l) → KeepsFrame r i j k)
    (hdone : ((r.state n).pcb (.table i)).signalsEnabled = true) :
    ((r.state n).currproc = .table i ∧
        ((r.state n).pcb (.table i)).esp = ((r.state m).pcb (.table i)).esp ∧
        toWord ((r.state n).pcb (.table i)).ret = toWord ((r.state m).pcb (.table i)).ret) ∧
      ∀ j sig', m ≤ j → j < n → DeliversIn r i sig' j →
        ∃ u, (r.state j).enterUser (.table i) = some u ∧ Framed (r.state j).mem u.mem
          ((r.state m).pcb (.table i)).esp ((r.state m).pcb (.table i)).ret := by
  have hinv : ∀ k, m ≤ k → k ≤ n → InHandlers r i m k := by
    intro k hmk hkn
    induction k, hmk using Nat.le_induction with
    | base =>
      obtain ⟨hcur, hen, -⟩ := (deliversIn_iff (by omega)).mp hfirst
      exact .inl ⟨hcur, hen, rfl, rfl⟩
    | succ k hmk ih =>
      refine (ih (by omega)).step (by omega) hmk hlo hhi (hlive k hmk (by omega))
        (hlive (k + 1) (by omega) hkn) (fun hcur hen => ?_) fun j sig' hmj hjk => ?_
      · rcases Nat.eq_or_lt_of_le hmk with rfl | hlt
        · exact ⟨sig, hfirst⟩
        · exact hhandlers k hlt hkn hcur hen
      · exact hkeeps j k sig' hmj hjk hkn
  constructor
  · rcases hinv n hmn.le le_rfl with ⟨hcur, -, hsame⟩ | ⟨hoff, -⟩
    · exact ⟨hcur, hsame⟩
    · rw [hoff] at hdone
      simp at hdone
  · intro j sig' hmj hjn hdel
    obtain ⟨-, hen, -⟩ := (deliversIn_iff (by omega)).mp hdel
    rcases hinv j hmj hjn.le with ⟨-, -, hesp, hword⟩ | ⟨hoff, -⟩
    · obtain ⟨u, hu, hframe⟩ := hdel.framed (by omega) (by rw [hesp]; exact hlo)
        (by rw [hesp]; exact hhi)
      rw [hesp] at hframe
      exact ⟨u, hu, hword ▸ hframe.saved, hframe.context, hframe.same⟩
    · rw [hoff] at hen
      simp at hen

/-- The process in slot 1 has handlers for signals 5 and 9, and gets both from the root; each handler
returns at once. -/
def twoSignalsScript : List Act :=
  [.call [2, 40400, 8192] [], .call [3] [], .call [13, 5, 40500, 2000000] [],
    .call [13, 9, 40500, 2000000] [], .call [3] [], .call [6, 34, 5] [], .call [6, 34, 9] [],
    .call [3] [], .call [14, 147920] [], .call [14, 147920] []]

/-- `syssigreturn` with the stack pointer that the process in slot 1 had. -/
abbrev sigreturnAct : Act := .call [14, 147920] []

/-- The process in slot `i` enters its handler of `sig`, which returns with its context. -/
abbrev HandlesAtOnce (s : Kernel) (i : Fin 32) (sig : ℕ) : Prop :=
  s.currproc = .table i ∧ flagBitCheck (s.pcb (.table i)).signalsFired sig = true ∧
    (sigreturnAct.trap s).request = some .sigreturn ∧
    ((s.enterUser (.table i)).map fun u => flagBitCheck (u.pcb (.table i)).signalsFired sig) =
      some false ∧
    ((s.enterUser (.table i)).map fun u => load32 u.mem (subWord (s.pcb (.table i)).esp 8)) =
      some ((sigreturnAct.trap s).arg 0) ∧
    ((s.enterUser (.table i)).map fun u => load32 u.mem (subWord (s.pcb (.table i)).esp 4)) =
      some (load32 (sigreturnAct.trap s).mem (subWord (s.pcb (.table i)).esp 4))

theorem HandlesAtOnce.delivers {i : Fin 32} (hk : k < r.len) (h : HandlesAtOnce (r.state k) i sig)
    (hin : r.input k = sigreturnAct.trap (r.state k)) :
    DeliversIn r i sig k ∧ KeepsFrame r i k k := by
  obtain ⟨hcur, hbit, -, hoff, harg, hsaved⟩ := h
  obtain ⟨u, hu, hclear⟩ := Option.map_eq_some_iff.mp hoff
  refine ⟨deliversIn_of_taken hk hcur hu hbit hclear, fun u' hu' => ?_⟩
  rw [hu', Option.map_some, Option.some_inj] at harg hsaved
  rw [hin]
  exact ⟨harg.symm, hsaved.symm⟩

/-- After both handlers it resumes where the first one interrupted it. -/
theorem signal_round_trip_two : ∃ r : Run Links, r.len = 10 ∧
    ((r.state 10).pcb (.table 1)).esp = ((r.state 8).pcb (.table 1)).esp := by
  obtain ⟨r, hlen, -, hin, htest⟩ := exists_run (Q := Links) smallPc 40300 (fun _ _ => True)
    twoSignalsScript
    (fun n s => decide ((n = 8 → HandlesAtOnce s 1 9 ∧ (s.pcb (.table 1)).esp = 147920) ∧
      (n = 9 → HandlesAtOnce s 1 5) ∧ (8 ≤ n → (s.pcb (.table 1)).currState ≠ .stopped) ∧
      (n = 10 → (s.pcb (.table 1)).signalsEnabled = true))) (by decide +kernel)
  obtain ⟨h8, hesp⟩ := (of_decide_eq_true (htest 8 (by decide))).1 rfl
  have h9 := (of_decide_eq_true (htest 9 (by decide))).2.1 rfl
  have hdone := (of_decide_eq_true (htest 10 (by decide))).2.2.2 rfl
  have hlive : ∀ k, 8 ≤ k → k ≤ 10 → ((r.state k).pcb (.table 1)).currState ≠ .stopped :=
    fun k hk8 hk => (of_decide_eq_true (htest k hk)).2.2.1 hk8
  have hlen10 : r.len = 10 := hlen
  have hin8 := hin 8 sigreturnAct rfl
  have hin9 := hin 9 sigreturnAct rfl
  obtain ⟨hdel8, hkeep8⟩ := h8.delivers (by omega) hin8
  obtain ⟨hdel9, hkeep9⟩ := h9.delivers (by omega) hin9
  have hret8 : ReturnsIn r 1 8 := by
    refine ⟨h8.1, ?_, hlive 9 (by omega) (by omega)⟩
    rw [hin8]
    exact h8.2.2.1
  refine ⟨r, hlen10, ?_⟩
  refine (signal_round_trip r (m := 8) (n := 10) (by omega) (by omega) 1 hdel8 ?_ ?_ hlive ?_ ?_
    hdone).1.2.1
  · rw [hesp]
    decide
  · rw [hesp]
    decide
  · intro k hk8 hk10 hcur hen
    obtain rfl : k = 9 := by omega
    exact ⟨5, hdel9⟩
  · intro j k sig' hj8 hjk hk10 hdel hret hno
    rcases Nat.eq_or_lt_of_le hjk with rfl | hlt
    · rcases Nat.eq_or_lt_of_le hj8 with rfl | hj9
      · exact hkeep8
      · obtain rfl : j = 9 := by omega
        exact hkeep9
    · obtain rfl : j = 8 := by omega
      exact absurd hret8 (hno 8 le_rfl hlt)

end Xeros.Analysis
