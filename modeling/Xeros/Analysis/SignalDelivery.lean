import Xeros.Analysis.Modifiers
import Xeros.Analysis.Pids
import Xeros.Foundations.Latch

/-!
# Delivery of signals

A signal that was sent to a process stays pending until the process enters its handler.  Handlers do
not nest: the next one is entered when the last one has returned with `syssigreturn`; and of the
signals that are pending, the highest goes first.
-/

set_option autoImplicit false

namespace Xeros.Analysis

open Xeros.Foundations Xeros.Model Xeros.Abstract Xeros.Interface KernelOf

/-! ## The highest bit -/

theorem flagBitCheck_large (flag : BitVec 32) {j : ℕ} (hj : 32 ≤ j) :
    flagBitCheck flag j = false := BitVec.getLsbD_of_ge flag j hj

theorem exists_flagBit {flag : BitVec 32} (h : flag ≠ 0) : ∃ j, flagBitCheck flag j = true := by
  by_contra hno
  push Not at hno
  refine h (BitVec.eq_of_getLsbD_eq fun j _ => ?_)
  exact (Bool.eq_false_iff.mpr (hno j)).trans BitVec.getLsbD_zero.symm

/-- The loop of `call_highest_priority_signal` skips no bit that is set. -/
theorem highestSignal_above (flag : BitVec 32) {n j : ℕ} (hj : highestSignal flag n < j)
    (hjn : j ≤ n) : flagBitCheck flag j = false := by
  induction n with
  | zero => omega
  | succ n ih =>
    unfold highestSignal at hj
    split_ifs at hj with hbit
    · omega
    · rcases Nat.le_succ_iff.mp hjn with hle | rfl
      · exact ih hj hle
      · exact Bool.eq_false_iff.mpr hbit

/-- It stops at a bit that is set. -/
theorem highestSignal_check {flag : BitVec 32} {n j : ℕ} (hjn : j ≤ n)
    (hbit : flagBitCheck flag j = true) : flagBitCheck flag (highestSignal flag n) = true := by
  induction n with
  | zero =>
    obtain rfl := Nat.le_zero.mp hjn
    exact hbit
  | succ n ih =>
    unfold highestSignal
    split_ifs with hn
    · exact hn
    · rcases Nat.le_succ_iff.mp hjn with hle | rfl
      · exact ih hle
      · exact absurd hbit hn

theorem highestSignal_eq_iff {flag : BitVec 32} (h : flag ≠ 0) (sig : ℕ) :
    highestSignal flag 31 = sig ↔
      flagBitCheck flag sig = true ∧ ∀ j, sig < j → flagBitCheck flag j = false := by
  obtain ⟨b, hb⟩ := exists_flagBit h
  have hb31 : b ≤ 31 := by
    by_contra hlt
    rw [flagBitCheck_large flag (by omega)] at hb
    simp at hb
  have hbit := highestSignal_check hb31 hb
  have habove : ∀ j, highestSignal flag 31 < j → flagBitCheck flag j = false := by
    intro j hj
    by_cases hj31 : j ≤ 31
    · exact highestSignal_above flag hj hj31
    · exact flagBitCheck_large flag (by omega)
  constructor
  · rintro rfl
    exact ⟨hbit, habove⟩
  · rintro ⟨hsig, hno⟩
    rcases lt_trichotomy (highestSignal flag 31) sig with hlt | heq | hgt
    · rw [habove sig hlt] at hsig
      simp at hsig
    · exact heq
    · rw [hno _ hgt] at hbit
      simp at hbit

/-! ## One step -/

variable {Q : Type} [ProcLists Q]

/-- In step `k`, `syskill` sends `sig` to the process in slot `i`, which has a handler for it. -/
def MarksIn (r : Run Q) (i : Fin pcbTableSize) (sig k : ℕ) : Prop :=
  ∃ s, (r.state k).atTrap (r.input k) = some s ∧ (r.input k).request = some .kill ∧
    s.Marks (.table i) sig

/-- The process `p` enters user mode in `sigtramp`.  On its stack are the arguments: its handler of
`sig` (what its signal table holds by now) and the context to return to; and its return code. -/
structure EntersHandler (s u : KernelOf Q) (p : PcbPtr) (sig : ℕ) : Prop where
  esp : (u.pcb p).esp = signalContext (s.pcb p).esp
  eip : load32 u.mem ((u.pcb p).esp + 32) = s.image.sigtramp % 4294967296
  handler : load32 u.mem ((u.pcb p).esp + 48) =
    load32 (savedContext s.toCore p) ((s.pcb p).signalTable + 4 * sig)
  context : load32 u.mem ((u.pcb p).esp + 52) = (s.pcb p).esp % 4294967296
  saved : load32 u.mem ((u.pcb p).esp + 56) = toWord (s.pcb p).ret

/-- In step `k`, the process in slot `i` enters user mode in its handler of `sig`, which was pending
and no longer is. -/
def DeliversIn (r : Run Q) (i : Fin pcbTableSize) (sig k : ℕ) : Prop :=
  (r.state k).currproc = .table i ∧
    flagBitCheck ((r.state k).pcb (.table i)).signalsFired sig = true ∧
    ∃ u, (r.state k).enterUser (.table i) = some u ∧
      flagBitCheck (u.pcb (.table i)).signalsFired sig = false ∧
      EntersHandler (r.state k) u (.table i) sig

/-- In step `k`, the process in slot `i` calls `syssigreturn` and lives on. -/
def ReturnsIn (r : Run Q) (i : Fin pcbTableSize) (k : ℕ) : Prop :=
  (r.state k).currproc = .table i ∧ (r.input k).request = some .sigreturn ∧
    ((r.state (k + 1)).pcb (.table i)).currState ≠ .stopped

variable [LawfulProcLists Q] [CheckedProcLists Q] {r : Run Q} {i : Fin pcbTableSize} {sig k n : ℕ}

/-- Entering user mode takes the highest pending signal off, if signals are enabled. -/
theorem enterUser_fired (hk : k < r.len) (hcur : (r.state k).currproc = .table i) :
    ∃ u, (r.state k).enterUser (.table i) = some u ∧
      (u.pcb (.table i)).signalsFired = ((r.state k).pcb (.table i)).delivered.signalsFired := by
  obtain ⟨s, req, heff⟩ := r.effect hk
  have htrap := heff.trap
  unfold KernelOf.atTrap at htrap
  obtain ⟨u, hu, -⟩ := Option.map_eq_some_iff.mp htrap
  have hdel := (r.sane hk.le).deliverable (r.idleUnsignalled hk.le)
  have hpcb := enterUser_pcb hdel hu (.table i)
  rw [hcur] at hu hpcb
  rw [if_pos rfl] at hpcb
  refine ⟨u, hu, ?_⟩
  rw [hpcb]

omit [ProcLists Q] [LawfulProcLists Q] [CheckedProcLists Q] in
/-- The frame that `signal` builds for the highest pending signal. -/
theorem entersHandler {s u : KernelOf Q} {p : PcbPtr}
    (hfinds : s.pidToProc (s.pcb p).pid = some p)
    (hfire : (s.pcb p).signalsFired ≠ 0 ∧ (s.pcb p).signalsEnabled = true)
    (hu : s.enterUser p = some u) : EntersHandler s u p (s.highestPending p) := by
  rw [enterUser_signal hfinds hfire] at hu
  obtain rfl := Option.some.inj hu
  have htaken : ((s.takeSignal p).pcb p).esp = (s.pcb p).esp ∧
      ((s.takeSignal p).pcb p).ret = (s.pcb p).ret ∧
      ((s.takeSignal p).pcb p).signalTable = (s.pcb p).signalTable := by
    unfold takeSignal
    rw [setPcb_toCore, Core.setPcb_pcb_self]
    exact ⟨rfl, rfl, rfl⟩
  have hsaved : savedContext (s.takeSignal p).toCore p = savedContext s.toCore p := by
    unfold savedContext
    rw [htaken.1, htaken.2.1]
    rfl
  have hwords := signalFrame_words (s.takeSignal p).toCore p (s.highestPending p)
    (toWord (s.pcb p).ret)
  rw [hsaved, htaken.1, htaken.2.1, htaken.2.2] at hwords
  obtain ⟨heip, hhandler, hcontext, hret⟩ := hwords
  have hesp : (((s.takeSignal p).toCore.pushSignalFrame p (s.highestPending p)).pcb p).esp =
      signalContext (s.pcb p).esp := by
    rw [pushSignalFrame_eq, Core.setPcb_pcb_self, htaken.1]
  have hmem : ((s.takeSignal p).toCore.pushSignalFrame p (s.highestPending p)).mem =
      signalFrame (s.takeSignal p).toCore p (s.highestPending p) := by
    rw [pushSignalFrame_eq]
    rfl
  constructor
  · exact hesp
  all_goals
    show load32 (store32 ((s.takeSignal p).toCore.pushSignalFrame p (s.highestPending p)).mem _ _)
      ((((s.takeSignal p).toCore.pushSignalFrame p (s.highestPending p)).pcb p).esp + _) = _
    rw [hesp, hmem]
  · exact heip
  · exact hhandler
  · exact hcontext
  · exact hret

/-- The signal that is taken off on the way to user mode is the highest one pending, and signals are
enabled then. -/
theorem taken_iff (hk : k < r.len) (hcur : (r.state k).currproc = .table i) {u : KernelOf Q}
    (hu : (r.state k).enterUser (.table i) = some u)
    (hbit : flagBitCheck ((r.state k).pcb (.table i)).signalsFired sig = true) :
    flagBitCheck (u.pcb (.table i)).signalsFired sig = false ↔
      ((r.state k).pcb (.table i)).signalsFired ≠ 0 ∧
        ((r.state k).pcb (.table i)).signalsEnabled = true ∧
        (r.state k).highestPending (.table i) = sig := by
  have hsig : sig < 32 := by
    by_contra hlt
    rw [flagBitCheck_large _ (by omega)] at hbit
    simp at hbit
  obtain ⟨u', hu', hfired⟩ := enterUser_fired hk hcur
  rw [hu] at hu'
  obtain rfl := Option.some.inj hu'
  rw [hfired]
  unfold Pcb.delivered
  split_ifs with hfire
  · show flagBitCheck (flagBitClear _ ((r.state k).highestPending (.table i))) sig = false ↔ _
    rw [flagBitCheck_clear _ _ hsig, hbit, Bool.true_and]
    constructor
    · intro hoff
      have heq : sig = (r.state k).highestPending (.table i) := by simpa using hoff
      exact ⟨hfire.1, hfire.2, heq.symm⟩
    · rintro ⟨-, -, heq⟩
      simp [heq]
  · rw [hbit]
    constructor
    · intro hoff
      simp at hoff
    · rintro ⟨hne, hen, -⟩
      exact absurd ⟨hne, hen⟩ hfire

/-- A pending signal that is taken off is delivered. -/
theorem deliversIn_of_taken (hk : k < r.len) (hcur : (r.state k).currproc = .table i)
    {u : KernelOf Q} (hu : (r.state k).enterUser (.table i) = some u)
    (hbit : flagBitCheck ((r.state k).pcb (.table i)).signalsFired sig = true)
    (hoff : flagBitCheck (u.pcb (.table i)).signalsFired sig = false) : DeliversIn r i sig k := by
  obtain ⟨hne, hen, hhigh⟩ := (taken_iff hk hcur hu hbit).mp hoff
  have hfinds := (r.sane hk.le).finds hcur
  rw [hcur] at hfinds
  have henters := entersHandler hfinds ⟨hne, hen⟩ hu
  rw [hhigh] at henters
  exact ⟨hcur, hbit, u, hu, hoff, henters⟩

/-- A signal is delivered when it is the highest one pending and signals are enabled. -/
theorem deliversIn_iff (hk : k < r.len) :
    DeliversIn r i sig k ↔ (r.state k).currproc = .table i ∧
      ((r.state k).pcb (.table i)).signalsEnabled = true ∧
      flagBitCheck ((r.state k).pcb (.table i)).signalsFired sig = true ∧
      ∀ j, sig < j → flagBitCheck ((r.state k).pcb (.table i)).signalsFired j = false := by
  constructor
  · rintro ⟨hcur, hbit, u, hu, hoff, -⟩
    obtain ⟨hne, hen, hhigh⟩ := (taken_iff hk hcur hu hbit).mp hoff
    exact ⟨hcur, hen, (highestSignal_eq_iff hne sig).mp hhigh⟩
  · rintro ⟨hcur, hen, hbit, habove⟩
    obtain ⟨u, hu, -⟩ := enterUser_fired hk hcur
    have hne : ((r.state k).pcb (.table i)).signalsFired ≠ 0 := by
      intro h0
      rw [h0] at hbit
      simp [flagBitCheck] at hbit
    have hhigh := (highestSignal_eq_iff hne sig).mpr ⟨hbit, habove⟩
    exact deliversIn_of_taken hk hcur hu hbit ((taken_iff hk hcur hu hbit).mpr ⟨hne, hen, hhigh⟩)

/-- What the handler of a step finds pending. -/
theorem trap_fired {s : KernelOf Q} {req : SyscallRequest} (hk : k < r.len)
    (heff : r.Effect k s req) (hsig : sig < 32) :
    flagBitCheck (s.pcb (.table i)).signalsFired sig = true ↔
      flagBitCheck ((r.state k).pcb (.table i)).signalsFired sig = true ∧
        ¬ DeliversIn r i sig k := by
  by_cases hcur : (r.state k).currproc = .table i
  · obtain ⟨args, hself⟩ := heff.current
    obtain ⟨u, hu, hfired⟩ := enterUser_fired hk hcur
    have hs : (s.pcb (.table i)).signalsFired = (u.pcb (.table i)).signalsFired := by
      rw [hfired, ← hcur, ← heff.currproc, hself]
      rfl
    rw [hs]
    constructor
    · intro hbit
      refine ⟨?_, ?_⟩
      · rw [hfired] at hbit
        unfold Pcb.delivered at hbit
        split_ifs at hbit
        · dsimp only at hbit
          rw [flagBitCheck_clear _ _ hsig, Bool.and_eq_true] at hbit
          exact hbit.1
        · exact hbit
      · rintro ⟨-, -, u', hu', hoff, -⟩
        rw [hu] at hu'
        obtain rfl := Option.some.inj hu'
        rw [hbit] at hoff
        simp at hoff
    · rintro ⟨hbit, hno⟩
      by_contra hoff
      exact hno (deliversIn_of_taken hk hcur hu hbit (Bool.eq_false_iff.mpr hoff))
  · rw [heff.other _ (by rw [heff.currproc]; exact fun hc => hcur hc.symm)]
    constructor
    · intro hbit
      exact ⟨hbit, fun hdel => hcur hdel.1⟩
    · exact And.left

theorem trap_enabled {s : KernelOf Q} {req : SyscallRequest} (hk : k < r.len)
    (heff : r.Effect k s req) :
    (s.pcb (.table i)).signalsEnabled = true ↔
      ((r.state k).pcb (.table i)).signalsEnabled = true ∧ ¬ ∃ sig, DeliversIn r i sig k := by
  by_cases hcur : (r.state k).currproc = .table i
  · obtain ⟨args, hself⟩ := heff.current
    have hs : (s.pcb (.table i)).signalsEnabled =
        ((r.state k).pcb (.table i)).delivered.signalsEnabled := by
      rw [← hcur, ← heff.currproc, hself]
      rfl
    rw [hs]
    unfold Pcb.delivered
    split_ifs with hfire
    · simp only [false_iff, not_and, not_not]
      intro hen
      have hhigh := (highestSignal_eq_iff hfire.1 _).mp rfl
      exact ⟨_, (deliversIn_iff hk).mpr ⟨hcur, hen, hhigh⟩⟩
    · constructor
      · intro hen
        refine ⟨hen, ?_⟩
        rintro ⟨sig, hdel⟩
        obtain ⟨-, -, hbit, -⟩ := (deliversIn_iff hk).mp hdel
        have hzero : ((r.state k).pcb (.table i)).signalsFired = 0 := by
          by_contra hne
          exact hfire ⟨hne, hen⟩
        rw [hzero] at hbit
        simp [flagBitCheck] at hbit
      · exact And.left
  · rw [heff.other _ (by rw [heff.currproc]; exact fun hc => hcur hc.symm)]
    constructor
    · intro hen
      refine ⟨hen, ?_⟩
      rintro ⟨sig, hdel⟩
      exact hcur hdel.1
    · exact And.left

omit [LawfulProcLists Q] [CheckedProcLists Q] in
theorem marksIn_iff {s : KernelOf Q} {req : SyscallRequest} (heff : r.Effect k s req) :
    MarksIn r i sig k ↔ req = .kill ∧ s.Marks (.table i) sig := by
  unfold MarksIn
  rw [heff.trap, heff.request]
  simp

/-- The pending bit of `sig` is set by `syskill` and cleared by the delivery. -/
theorem pending_step (hk : k < r.len) (hlive : ((r.state k).pcb (.table i)).currState ≠ .stopped)
    (hsig : sig < 32) :
    flagBitCheck ((r.state (k + 1)).pcb (.table i)).signalsFired sig = true ↔
      MarksIn r i sig k ∨ flagBitCheck ((r.state k).pcb (.table i)).signalsFired sig = true ∧
        ¬ DeliversIn r i sig k := by
  obtain ⟨s, req, heff⟩ := r.effect hk
  rw [← trap_fired hk heff hsig, marksIn_iff heff]
  cases heff.data (.table i) with
  | same hno h =>
    rw [h.signalsFired]
    constructor
    · exact .inr
    · rintro (⟨hreq, hm⟩ | hbit)
      · exact absurd (.inr ⟨hreq, sig, hm⟩) hno
      · exact hbit
  | marked sig' hreq hm h =>
    rw [h.signalsFired, flagBitCheck_set _ _ hsig]
    obtain ⟨hpid, harg, hlt, hh⟩ := hm
    simp only [Bool.or_eq_true, decide_eq_true_eq]
    constructor
    · rintro (hbit | rfl)
      · exact .inr hbit
      · exact .inl ⟨hreq, hpid, harg, hlt, hh⟩
    · rintro (⟨-, -, harg', -⟩ | hbit)
      · right
        exact_mod_cast harg'.symm.trans harg
      · exact .inl hbit
  | charged hreq _ h =>
    rw [h.signalsFired, hreq]
    simp
  | returned hreq _ h =>
    rw [h.signalsFired, hreq]
    simp
  | filled _ _ hst _ =>
    rw [heff.currState] at hst
    exact absurd hst hlive
  | ended f hreq _ _ h =>
    rw [h.signalsFired]
    rcases hreq with rfl | rfl <;> simp [Pcb.withFds]
  | descriptors f hreq _ h =>
    rw [h.signalsFired]
    rcases hreq with rfl | rfl <;> simp [Pcb.withFds]

/-- Signals are disabled by a delivery and enabled again by `syssigreturn`. -/
theorem enabled_step (hk : k < r.len) (hlive : ((r.state k).pcb (.table i)).currState ≠ .stopped)
    (hlives : ((r.state (k + 1)).pcb (.table i)).currState ≠ .stopped) :
    ((r.state (k + 1)).pcb (.table i)).signalsEnabled = true ↔
      ReturnsIn r i k ∨ ((r.state k).pcb (.table i)).signalsEnabled = true ∧
        ¬ ∃ sig, DeliversIn r i sig k := by
  obtain ⟨s, req, heff⟩ := r.effect hk
  have hret : ReturnsIn r i k ↔ req = .sigreturn ∧ PcbPtr.table i = s.currproc := by
    unfold ReturnsIn
    rw [heff.request, heff.currproc, Option.some_inj, eq_comm (b := PcbPtr.table i)]
    simp only [hlives, ne_eq, not_false_eq_true, and_true]
    rw [and_comm]
  rw [← trap_enabled hk heff, hret]
  cases heff.data (.table i) with
  | same hno h =>
    rw [h.signalsEnabled]
    constructor
    · exact .inr
    · rintro (⟨hreq, hp⟩ | hen)
      · exact absurd (.inl ⟨.inr (.inr hreq), hp⟩) hno
      · exact hen
  | returned hreq hp h =>
    rw [h.signalsEnabled]
    simp [hreq, hp]
  | charged hreq _ h =>
    rw [h.signalsEnabled, hreq]
    simp
  | marked sig hreq _ h =>
    rw [h.signalsEnabled, hreq]
    simp
  | filled _ _ hst _ =>
    rw [heff.currState] at hst
    exact absurd hst hlive
  | ended f _ _ hst _ => exact absurd hst hlives
  | descriptors f hreq _ h =>
    rw [h.signalsEnabled]
    rcases hreq with rfl | rfl <;> simp [Pcb.withFds]

/-! ## Runs -/

/-- `sig` was sent to the process in slot `i` in the steps from `m` on, and not delivered since. -/
def PendingSince (r : Run Q) (i : Fin pcbTableSize) (sig m n : ℕ) : Prop :=
  SetSince (MarksIn r i sig) (DeliversIn r i sig) m n

variable {c : ℕ}

/-- The pending bits of a process that lives since step `c`. -/
theorem pending_iff (hcn : c < n) (hn : n ≤ r.len) (hc : CreatesIn r i c)
    (hlive : ∀ j, c < j → j < n → ((r.state j).pcb (.table i)).currState ≠ .stopped)
    (hsig : sig < 32) : flagBitCheck ((r.state n).pcb (.table i)).signalsFired sig = true ↔
      PendingSince r i sig (c + 1) n := by
  have hlatch : Latch (fun k => flagBitCheck ((r.state k).pcb (.table i)).signalsFired sig = true)
      (MarksIn r i sig) (DeliversIn r i sig) (c + 1) n := by
    intro k hk hkn
    exact pending_step (by omega) (hlive k hk hkn) hsig
  apply hlatch.on_iff_setSince hcn
  obtain ⟨pid, table, b, sp, heq⟩ := created_pcb r (by omega) hc
  rw [heq]
  simp [freshPcb, Pcb.zero, flagBitCheck]

/-- Signals are enabled when every handler that was entered has returned. -/
theorem enabled_iff (hcn : c < n) (hn : n ≤ r.len) (hc : CreatesIn r i c)
    (hlive : ∀ j, c < j → j ≤ n → ((r.state j).pcb (.table i)).currState ≠ .stopped) :
    ((r.state n).pcb (.table i)).signalsEnabled = true ↔
      ∀ j, c < j → j < n → (∃ sig, DeliversIn r i sig j) →
        ∃ k, j ≤ k ∧ k < n ∧ ReturnsIn r i k := by
  have hlatch : Latch (fun k => ((r.state k).pcb (.table i)).signalsEnabled = true)
      (ReturnsIn r i) (fun k => ∃ sig, DeliversIn r i sig k) (c + 1) n := by
    intro k hk hkn
    exact enabled_step (by omega) (hlive k hk hkn.le) (hlive (k + 1) (by omega) hkn)
  apply hlatch.on_iff_answered hcn
  obtain ⟨pid, table, b, sp, heq⟩ := created_pcb r (by omega) hc
  rw [heq]
  rfl

/-- In every run, a process that runs enters its handler of `sig`, as `signal` lays it out, exactly
when `sig` is pending, which means that it was sent and not delivered since, no higher signal is
pending, and every handler that the process entered before has returned. -/
theorem signals_delivered_iff (r : Run Links) {c n : ℕ} (hcn : c < n) (hn : n < r.len)
    (i : Fin pcbTableSize) (hc : CreatesIn r i c)
    (hlive : ∀ j, c < j → j ≤ n → ((r.state j).pcb (.table i)).currState ≠ .stopped)
    (hcur : (r.state n).currproc = .table i) {sig : ℕ} (hsig : sig < signalTableSize) :
    DeliversIn r i sig n ↔ PendingSince r i sig (c + 1) n ∧
      (∀ j, sig < j → j < signalTableSize → ¬ PendingSince r i j (c + 1) n) ∧
      ∀ j, c < j → j < n → (∃ sig', DeliversIn r i sig' j) →
        ∃ k, j ≤ k ∧ k < n ∧ ReturnsIn r i k := by
  have hpending : ∀ j < 32, flagBitCheck ((r.state n).pcb (.table i)).signalsFired j = true ↔
      PendingSince r i j (c + 1) n := fun j hj =>
    pending_iff hcn hn.le hc (fun k hk hkn => hlive k hk hkn.le) hj
  have habove : (∀ j, sig < j → flagBitCheck ((r.state n).pcb (.table i)).signalsFired j = false) ↔
      ∀ j, sig < j → j < signalTableSize → ¬ PendingSince r i j (c + 1) n := by
    constructor
    · intro h j hj hj32 hp
      have hbit := (hpending j hj32).mpr hp
      rw [h j hj] at hbit
      simp at hbit
    · intro h j hj
      by_cases hj32 : j < 32
      · exact Bool.eq_false_iff.mpr fun hbit => h j hj hj32 ((hpending j hj32).mp hbit)
      · exact flagBitCheck_large _ (by omega)
  rw [deliversIn_iff hn, habove, hpending sig hsig, enabled_iff hcn hn.le hc hlive]
  constructor
  · rintro ⟨-, hen, hp, ha⟩
    exact ⟨hp, ha, hen⟩
  · rintro ⟨hp, ha, hen⟩
    exact ⟨hcur, hen, hp, ha⟩

/-- The process in slot 1 installs a handler for signal 5, which the root sends to it. -/
def signalScript : List Act :=
  [.call [2, 40400, 8192] [], .call [3] [], .call [13, 5, 40500, 2000000] [], .call [3] [],
    .call [6, 34, 5] [], .call [3] [], .call [5] []]

/-- When the process in slot 1 runs again, it enters its handler, since the signal is pending. -/
theorem signals_delivered_iff_first : ∃ r : Run Links, r.len = 7 ∧ DeliversIn r 1 5 6 ∧
    PendingSince r 1 5 1 6 := by
  obtain ⟨r, hlen, -, hin, htest⟩ := exists_run (Q := Links) smallPc 40300 (fun _ _ => True)
    signalScript
    (fun n s => decide ((n = 0 → s.currproc = .table 0 ∧
        ((Act.call [2, 40400, 8192] []).trap s).request = some .create) ∧
      (n = 1 → PidOf (s.pcb (.table 0)).ret 1) ∧
      (1 ≤ n → (s.pcb (.table 1)).currState ≠ .stopped) ∧
      (n = 6 → s.currproc = .table 1 ∧ flagBitCheck (s.pcb (.table 1)).signalsFired 5 = true ∧
        ((s.enterUser (.table 1)).map fun u => flagBitCheck (u.pcb (.table 1)).signalsFired 5) =
          some false))) (by decide +kernel)
  obtain ⟨hcur0, hcreate⟩ := (of_decide_eq_true (htest 0 (by decide))).1 rfl
  have hpid := (of_decide_eq_true (htest 1 (by decide))).2.1 rfl
  obtain ⟨hcur, hbit, henter⟩ := (of_decide_eq_true (htest 6 (by decide))).2.2.2 rfl
  have hlen7 : r.len = 7 := hlen
  rw [← hin 0 (Act.call [2, 40400, 8192] []) rfl] at hcreate
  rw [← hcur0] at hpid
  have hdel : DeliversIn r 1 5 6 := by
    obtain ⟨u, hu, hoff⟩ := Option.map_eq_some_iff.mp henter
    exact deliversIn_of_taken (by omega) hcur hu hbit hoff
  have hlive : ∀ j, 0 < j → j ≤ 6 → ((r.state j).pcb (.table 1)).currState ≠ .stopped :=
    fun j h0 h6 => (of_decide_eq_true (htest j (h6.trans (by decide)))).2.2.1 h0
  exact ⟨r, hlen7, hdel, ((signals_delivered_iff r (c := 0) (n := 6) (by omega) (by omega) 1
    ⟨hcreate, hpid⟩ hlive hcur (by decide)).mp hdel).1⟩

end Xeros.Analysis
