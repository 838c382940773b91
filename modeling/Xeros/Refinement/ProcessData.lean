import Xeros.Refinement.Upkeep

/-!
# What a turn of the dispatcher does to control blocks

Scheduling changes state, queue, peer and return code of a process; the rest of a control block is
its data.  `DataStep` lists all the ways in which a request changes the data of a process: a tick is
charged, a signal is marked, a handler returns, a slot of the table is filled, a process ends, a
descriptor changes.  It holds in every run.
-/

set_option autoImplicit false

namespace Xeros.Model

open Xeros.Foundations Xeros.Abstract Xeros.Interface

theorem PcbPtr.exists_table {p : PcbPtr} (hp : p ≠ .idle) : ∃ i, p = .table i := by
  cases p with
  | idle => exact absurd rfl hp
  | table i => exact ⟨i, rfl⟩

/-- A control block with other descriptors. -/
def Pcb.withFds (x : Pcb) (f : Fin pcbNumFds → Option DeviceId) : Pcb := { x with fdTable := f }

/-- The slot of the process `x` after it was filled with `y`: it is free again, or a new process
with no signals and no ticks. -/
inductive Pcb.Refilled (x : Pcb) : Pcb → Prop where
  | free (table : ℕ) : Refilled x
      { Pcb.zero with signalTable := table, pid := x.pid, currState := .stopped }
  | created (table b sp : ℕ) (hpid : 1 ≤ nextPid x.pid) : Refilled x
      { KernelOf.freshPcb table with
        pid := nextPid x.pid, memoryRegion := b, esp := sp, currState := .ready }

theorem Pcb.SameData.cpuTime {x y : Pcb} (h : x.SameData y) : y.cpuTime = x.cpuTime := by
  rw [h]
  rfl

theorem Pcb.SameData.signalsFired {x y : Pcb} (h : x.SameData y) :
    y.signalsFired = x.signalsFired := by
  rw [h]
  rfl

theorem Pcb.SameData.signalsEnabled {x y : Pcb} (h : x.SameData y) :
    y.signalsEnabled = x.signalsEnabled := by
  rw [h]
  rfl

/-- A control block after the highest of its pending signals was delivered, if one can be. -/
def Pcb.delivered (x : Pcb) : Pcb :=
  if x.signalsFired ≠ 0 ∧ x.signalsEnabled = true then
    { x with
      signalsFired := flagBitClear x.signalsFired (highestSignal x.signalsFired (signalTableSize - 1))
      signalsEnabled := false }
  else x

/-- The control block of the running process as a handler finds it. -/
def Pcb.atTrap (x : Pcb) (t : Trap) (args : ℕ) : Pcb :=
  { x.delivered with esp := t.esp, ret := KernelOf.Trap.eax t, args := args }

@[simp] theorem Pcb.atTrap_cpuTime (x : Pcb) (t : Trap) (args : ℕ) :
    (x.atTrap t args).cpuTime = x.cpuTime := by
  unfold Pcb.atTrap Pcb.delivered
  split_ifs <;> rfl

@[simp] theorem Pcb.atTrap_currState (x : Pcb) (t : Trap) (args : ℕ) :
    (x.atTrap t args).currState = x.currState := by
  unfold Pcb.atTrap Pcb.delivered
  split_ifs <;> rfl

namespace KernelOf

variable {Q : Type} {s s' s'' : KernelOf Q} {p : PcbPtr}

/-- All control blocks keep their data. -/
def KeepsData (s s' : KernelOf Q) : Prop := ∀ p, (s.pcb p).SameData (s'.pcb p)

theorem KeepsData.refl (s : KernelOf Q) : KeepsData s s := fun p => Pcb.SameData.refl (s.pcb p)

theorem KeepsData.trans (h : KeepsData s s') (h' : KeepsData s' s'') : KeepsData s s'' := fun p =>
  (h p).trans (h' p)

theorem Calm.keepsData (h : Calm s s') : KeepsData s s' := h.pcb

theorem KeepsData.calm (h : KeepsData s s') (h' : Calm s' s'') : KeepsData s s'' :=
  h.trans h'.keepsData

theorem KeepsData.setRet (h : KeepsData s s') (r : ℤ) : KeepsData s (s'.setRet r) :=
  h.calm (calm_setRet s' r)

/-- `syskill`, as the kernel `s` finds it, sends `sig` to `p`, which has a handler for it. -/
def Marks (s : KernelOf Q) (p : PcbPtr) (sig : ℕ) : Prop :=
  s.pidToProc (toInt (s.arg 0)) = some p ∧ toInt (s.arg 1) = sig ∧ sig < signalTableSize ∧
    s.handlerOf p sig ≠ 0

/-- The request is one that changes the data of `p` in a way of its own. -/
def Touches (s : KernelOf Q) (req : SyscallRequest) (p : PcbPtr) : Prop :=
  (req = .timerInt ∨ req = .stop ∨ req = .sigreturn) ∧ p = s.currproc ∨
    req = .kill ∧ ∃ sig, s.Marks p sig

theorem not_touches {req : SyscallRequest} (hp : p ≠ s.currproc) (hreq : req ≠ .kill) :
    ¬ s.Touches req p := by
  rintro (⟨-, hc⟩ | ⟨hk, -⟩)
  · exact hp hc
  · exact hreq hk

/-- What the request `req` does to the data of the process `p`. -/
inductive DataStep (s : KernelOf Q) (req : SyscallRequest) (s' : KernelOf Q) (p : PcbPtr) :
    Prop where
  | same (hno : ¬ s.Touches req p) (h : (s.pcb p).SameData (s'.pcb p))
  | charged (hreq : req = .timerInt) (hp : p = s.currproc)
      (h : { s.pcb p with cpuTime := wrapInt ((s.pcb p).cpuTime + 1) }.SameData (s'.pcb p))
  | marked (sig : ℕ) (hreq : req = .kill) (hm : s.Marks p sig)
      (h : { s.pcb p with signalsFired := flagBitSet (s.pcb p).signalsFired sig }.SameData (s'.pcb p))
  | returned (hreq : req = .sigreturn) (hp : p = s.currproc)
      (h : { s.pcb p with esp := s.arg 0, signalsEnabled := true }.SameData (s'.pcb p))
  | filled (hreq : req = .create) (hp : p ≠ s.currproc)
      (hs : (s.pcb p).currState = .stopped) (h : (s.pcb p).Refilled (s'.pcb p))
  | ended (f : Fin pcbNumFds → Option DeviceId) (hreq : req = .stop ∨ req = .sigreturn)
      (hp : p = s.currproc) (hs : (s'.pcb p).currState = .stopped)
      (h : ((s.pcb p).withFds f).SameData (s'.pcb p))
  | descriptors (f : Fin pcbNumFds → Option DeviceId) (hreq : req = .sysopen ∨ req = .close)
      (hp : p = s.currproc) (h : ((s.pcb p).withFds f).SameData (s'.pcb p))

theorem KeepsData.dataStep {req : SyscallRequest} (h : KeepsData s s')
    (hreq : req ≠ .timerInt ∧ req ≠ .stop ∧ req ≠ .sigreturn ∧ req ≠ .kill) :
    DataStep s req s' p := by
  refine .same ?_ (h p)
  rintro (⟨ht | hs | hr, -⟩ | ⟨hk, -⟩)
  · exact hreq.1 ht
  · exact hreq.2.1 hs
  · exact hreq.2.2.1 hr
  · exact hreq.2.2.2 hk

/-- One assignment to a process, and scheduling after it. -/
theorem setPcb_data {f : Pcb → Pcb} (h : KeepsData (s.setPcb p f) s') :
    (f (s.pcb p)).SameData (s'.pcb p) ∧ ∀ q, q ≠ p → (s.pcb q).SameData (s'.pcb q) := by
  constructor
  · have hp := h p
    rwa [setPcb_toCore, Core.setPcb_pcb_self] at hp
  · intro q hq
    have hq' := h q
    rwa [setPcb_toCore, Core.setPcb_pcb_ne _ _ hq] at hq'

theorem Copies.keepsData (h : Copies s s') : KeepsData s s' := by
  obtain ⟨m, hm⟩ := h
  exact hm.toCalm.keepsData

variable [ProcLists Q]

/-! ## Scheduling -/

/-- Processes were moved, and the next one is dispatched. -/
theorem Calm.reschedule (h : Calm s s') (hidle : ¬ s.Reading .idle)
    (hs : s'.reschedule = some s'') : Calm s s'' :=
  h.trans (reschedule_calm hs fun hr => hidle ((h.reading _).mp hr)).1

/-- The running process gives up the processor. -/
theorem Quiet.yield (h : Quiet s s') (hrun : Running s) (hidle : ¬ s.Reading .idle)
    (hs : (s'.addPcbToQueue s'.currproc .ready >>= fun u => u.reschedule) = some s'') :
    Calm s s'' := by
  obtain ⟨u, hu, hs⟩ := Option.bind_eq_some_iff.mp hs
  have hnot : ¬ s'.Reading s'.currproc := (h.keepsRunning hrun).not_reading
  exact (h.toCalm.trans (addPcbToQueue_calm hu (by simp) hnot)).reschedule hidle hs

theorem timerHandler_data (h : Sane s) (hs : s.timerHandler = some s') :
    DataStep s .timerInt s' p := by
  unfold timerHandler at hs
  dsimp only at hs
  obtain ⟨u, hu, hs⟩ := Option.bind_eq_some_iff.mp hs
  obtain ⟨h1, hrun1⟩ := kept_setPcb_current (s := s) (f := fun x =>
    { x with cpuTime := wrapInt (x.cpuTime + 1) }) ⟨rfl, rfl, rfl, rfl⟩ rfl h.running
  have hidle : ¬ (s.setPcb s.currproc fun x =>
      { x with cpuTime := wrapInt (x.cpuTime + 1) }).Reading .idle := fun hr =>
    h.idle ((h1.reading _).mp hr)
  obtain ⟨hself, hother⟩ := setPcb_data ((tick_quiet hu).yield hrun1 hidle hs).keepsData
  by_cases hp : p = s.currproc
  · rw [← hp] at hself
    exact .charged rfl hp hself
  · exact .same (not_touches hp (by simp)) (hother p hp)

theorem dispatchSyscallSleep_data (h : Sane s) (hs : s.dispatchSyscallSleep = some s') :
    KeepsData s s' := by
  unfold dispatchSyscallSleep at hs
  dsimp only at hs
  split_ifs at hs
  · obtain rfl := Option.some.inj hs
    exact KeepsData.refl s
  · obtain ⟨u, hu, hs⟩ := Option.bind_eq_some_iff.mp hs
    exact ((sleep_calm hu h.running.not_reading).reschedule h.idle hs).keepsData

theorem dispatchSyscallWait_data (h : Sane s) (hs : s.dispatchSyscallWait = some s') :
    KeepsData s s' := by
  unfold dispatchSyscallWait at hs
  dsimp only at hs
  cases hp : s.pidToProc (toInt (s.arg 0)) with
  | none =>
    rw [hp] at hs
    obtain rfl := Option.some.inj hs
    exact (KeepsData.refl s).setRet _
  | some o =>
    rw [hp] at hs
    obtain ⟨u, hu, hs⟩ := Option.bind_eq_some_iff.mp hs
    obtain ⟨k, rfl⟩ := addProcToBlockingQueue_eq hu
    have hc : Calm s ((s.blockCurrent.setQueues k).setPcb s.currproc fun x =>
        { x with blockingProc := some o, blockingQueueName := .waiting }) := by
      show Calm s (((s.setQueues k).setPcb s.currproc fun x =>
        { x with currState := .blocked }).setPcb s.currproc fun x =>
        { x with blockingProc := some o, blockingQueueName := .waiting })
      rw [setPcb_setPcb]
      exact blocked_calm h.running k (fun _ => rfl) fun _ => by simp
    exact ((hc.trans (calm_setRet _ _)).reschedule h.idle hs).keepsData

/-! ## Messages -/

theorem MsgOutcome.data {r : ℤ × KernelOf Q} (h : Sane s) (hm : MsgOutcome s r.1 r.2)
    (hs : finishMsg r = some s') : KeepsData s s' := by
  obtain ⟨r, u⟩ := r
  unfold finishMsg at hs
  dsimp only at hm hs
  cases hm with
  | finished _ _ hr hcopy =>
    rw [if_neg hr] at hs
    obtain rfl := Option.some.inj hs
    exact hcopy.keepsData.setRet r
  | blocks k f hdata hname =>
    rw [if_pos rfl] at hs
    have hc : Calm s ((((s.setQueues k).setPcb s.currproc f).setRet blockerr).blockCurrent) := by
      show Calm s ((((s.setQueues k).setPcb s.currproc f).setPcb s.currproc fun x =>
        { x with ret := blockerr }).setPcb s.currproc fun x => { x with currState := .blocked })
      rw [setPcb_setPcb, setPcb_setPcb]
      refine blocked_calm h.running k (fun x => ?_) hname
      exact (hdata x).trans rfl
    exact ((hc.trans (calm_setRet _ _)).reschedule h.idle hs).keepsData

theorem dispatchSyscallSend_data (h : Sane s) (hs : s.dispatchSyscallSend = some s') :
    KeepsData s s' := by
  have hret : ∀ r, KeepsData s (s.setRet r) := fun r => (KeepsData.refl s).setRet r
  unfold dispatchSyscallSend at hs
  dsimp only at hs
  split_ifs at hs
  · obtain rfl := Option.some.inj hs
    exact hret _
  · obtain rfl := Option.some.inj hs
    exact hret _
  · obtain ⟨result, -, hs⟩ := Option.bind_eq_some_iff.mp hs
    split_ifs at hs
    · obtain rfl := Option.some.inj hs
      exact hret _
    · cases hd : s.pidToProc (toInt (s.arg 0)) with
      | none =>
        rw [hd] at hs
        obtain rfl := Option.some.inj hs
        exact hret _
      | some dest =>
        rw [hd] at hs
        obtain ⟨r, hr, hs⟩ := Option.bind_eq_some_iff.mp hs
        exact (send_outcome hr).data h hs

theorem dispatchSyscallRecv_data (h : Sane s) (hs : s.dispatchSyscallRecv = some s') :
    KeepsData s s' := by
  have hret : ∀ r, KeepsData s (s.setRet r) := fun r => (KeepsData.refl s).setRet r
  unfold dispatchSyscallRecv at hs
  dsimp only at hs
  obtain ⟨result, -, hs⟩ := Option.bind_eq_some_iff.mp hs
  split_ifs at hs
  · obtain rfl := Option.some.inj hs
    exact hret _
  · obtain rfl := Option.some.inj hs
    exact hret _
  · obtain ⟨result, -, hs⟩ := Option.bind_eq_some_iff.mp hs
    split_ifs at hs
    · obtain rfl := Option.some.inj hs
      exact hret _
    · unfold recvFrom at hs
      split_ifs at hs
      · obtain rfl := Option.some.inj hs
        exact hret _
      · obtain ⟨r, hr, hs⟩ := Option.bind_eq_some_iff.mp hs
        exact (recvAny_outcome hr).data h hs
      · cases hd : s.pidToProc (toInt (load32 s.mem (s.arg 0))) with
        | none =>
          rw [hd] at hs
          obtain rfl := Option.some.inj hs
          exact hret _
        | some src =>
          rw [hd] at hs
          obtain ⟨r, hr, hs⟩ := Option.bind_eq_some_iff.mp hs
          exact (recv_outcome hr).data h hs

/-! ## Signals -/

theorem dispatchSyscallKill_data {r : ℤ × KernelOf Q} (hs : s.dispatchSyscallKill = some r) :
    DataStep s .kill (setRetOf r) p := by
  obtain ⟨r, s'⟩ := r
  rw [setRetOf_mk]
  unfold dispatchSyscallKill at hs
  dsimp only at hs
  have hsame : (∀ sig, ¬ s.Marks p sig) → DataStep s .kill (s.setRet r) p := by
    intro hno
    refine .same ?_ ((KeepsData.refl s).setRet r p)
    rintro (⟨hreq, -⟩ | ⟨-, sig, hm⟩)
    · simp at hreq
    · exact hno sig hm
  cases hq : s.pidToProc (toInt (s.arg 0)) with
  | none =>
    rw [hq] at hs
    obtain ⟨rfl, rfl⟩ := Prod.mk.inj (Option.some.inj hs)
    refine hsame fun sig hm => ?_
    rw [hm.1] at hq
    simp at hq
  | some q =>
    rw [hq] at hs
    dsimp only at hs
    unfold setProcSignal at hs
    split_ifs at hs with hsig hh
    · obtain ⟨rfl, rfl⟩ := Prod.mk.inj (Option.some.inj hs)
      refine hsame fun sig hm => ?_
      obtain ⟨-, heq, hlt, -⟩ := hm
      omega
    · obtain ⟨u, hu⟩ : ∃ u, u = s.setPcb q fun x =>
        { x with signalsFired := flagBitSet x.signalsFired (toInt (s.arg 1)).toNat } := ⟨_, rfl⟩
      dsimp only at hs
      rw [← hu] at hs
      have hdata : KeepsData u s' := by
        split_ifs at hs with hblk
        · obtain ⟨u1, hu1, hs⟩ := Option.bind_eq_some_iff.mp hs
          obtain ⟨u2, hu2, hs⟩ := Option.bind_eq_some_iff.mp hs
          obtain ⟨-, rfl⟩ := Prod.mk.inj (Option.some.inj hs)
          by_cases hdev : (u.pcb q).blockingQueueName = .device
          · rw [resolveBlocking_reader hu1 hdev] at hu2
            obtain ⟨-, k, rfl⟩ := addPcbToQueue_eq hu2
            intro x
            rw [setPcb_toCore, Core.setPcb_pcb, setQueues_toCore, setPcb_toCore,
              Core.setPcb_pcb_self, Core.setPcb_pcb]
            split_ifs with hx
            · rw [hx]
              exact rfl
            · exact Pcb.SameData.refl _
          · obtain ⟨hquiet, -, hb, hn⟩ := resolveBlocking_quiet hu1 hdev
            exact (hquiet.trans (ready_quiet hu2 hb (by rw [hn]; simp))).toCalm.keepsData
        · obtain ⟨-, rfl⟩ := Prod.mk.inj (Option.some.inj hs)
          exact KeepsData.refl u
      rw [hu] at hdata
      obtain ⟨hself, hother⟩ := setPcb_data (hdata.setRet r)
      have hnat : toInt (s.arg 1) = ((toInt (s.arg 1)).toNat : ℤ) := by omega
      by_cases hp : p = q
      · rw [← hp] at hself hq hh
        have hlt : (toInt (s.arg 1)).toNat < signalTableSize := by omega
        exact .marked _ rfl ⟨hq, hnat, hlt, hh⟩ hself
      · refine .same ?_ (hother p hp)
        rintro (⟨hreq, -⟩ | ⟨-, sig, hm⟩)
        · simp at hreq
        · exact hp (Option.some.inj (hm.1.symm.trans hq))
    · obtain ⟨rfl, rfl⟩ := Prod.mk.inj (Option.some.inj hs)
      refine hsame fun sig hm => ?_
      obtain ⟨hpid, heq, -, hm⟩ := hm
      rw [hq] at hpid
      obtain rfl := Option.some.inj hpid
      rw [heq] at hh
      exact hh hm

omit [ProcLists Q] in
/-- A request that only changes descriptors of the running process, besides scheduling. -/
theorem descriptors_data {req : SyscallRequest}
    (hreq : req = .sysopen ∨ req = .close) {f : Fin pcbNumFds → Option DeviceId} {u : KernelOf Q}
    (hself : u.pcb s.currproc = (s.pcb s.currproc).withFds f)
    (hother : ∀ q, q ≠ s.currproc → (s.pcb q).SameData (u.pcb q)) (h : KeepsData u s') :
    DataStep s req s' p := by
  by_cases hp : p = s.currproc
  · refine .descriptors f hreq hp ?_
    rw [hp, ← hself]
    exact h _
  · refine .same (not_touches hp ?_) ((hother p hp).trans (h p))
    rcases hreq with rfl | rfl <;> simp

/-- The check of the queues has seen that the ready queue starts with a process that is ready. -/
theorem addPcbToQueue_ready [CheckedProcLists Q] {st : ProcState} {q : PcbPtr}
    (hs : s.addPcbToQueue p st = some s') (hpid : (s.pcb p).pid ≠ 0)
    (hq : ProcLists.head s'.queues (.proc .ready) = some q) : (s'.pcb q).currState = .ready := by
  unfold addPcbToQueue at hs
  obtain ⟨_, -, hs⟩ := Option.bind_eq_some_iff.mp hs
  obtain ⟨_, -, hs⟩ := Option.bind_eq_some_iff.mp hs
  dsimp only at hs
  have hsame : ((s.setPcb p fun x => { x with currState := st }).pcb p).pid = (s.pcb p).pid := by
    rw [setPcb_toCore, Core.setPcb_pcb_self]
  rw [hsame, if_neg hpid] at hs
  obtain ⟨k, -, hs⟩ := Option.bind_eq_some_iff.mp hs
  obtain ⟨_, hv, hs⟩ := Option.bind_eq_some_iff.mp hs
  have heq := Option.some.inj hs
  rw [← heq] at hq ⊢
  exact CheckedProcLists.verifyPcbQueues_head hv (.inl rfl) hq

/-- A process that was put in the stopped queue stays there while the next one is dispatched. -/
theorem reschedule_stopped [CheckedProcLists Q] {w : KernelOf Q} (hw : s.addPcbToQueue p .stopped = some w)
    (hp : p ≠ .idle) (hpid : (s.pcb p).pid ≠ 0) (hs : w.reschedule = some s') :
    (s'.pcb p).currState = .stopped := by
  have hstop := (addPcbToQueue_checked hw).2.1
  have hready : ProcLists.head w.queues (.proc .ready) ≠ some p := by
    intro hhead
    have hst := addPcbToQueue_ready hw hpid hhead
    rw [hstop] at hst
    simp at hst
  unfold reschedule getNextProc at hs
  cases hh : ProcLists.head w.queues (.proc .ready) with
  | none =>
    rw [hh] at hs
    obtain rfl := Option.some.inj hs
    rw [setCurrproc_pcb, setPcb_toCore, Core.setPcb_pcb_ne _ _ hp]
    exact hstop
  | some q =>
    rw [hh] at hs hready
    dsimp only at hs
    cases hr : w.removePcbFromQueue q with
    | none =>
      rw [hr] at hs
      exact absurd hs (by simp)
    | some u =>
      rw [hr] at hs
      obtain rfl := Option.some.inj hs
      obtain ⟨-, k, rfl⟩ := removePcbFromQueue_eq hr
      have hpq : p ≠ q := fun heq => hready (by rw [heq])
      rw [setCurrproc_pcb, setPcb_toCore, Core.setPcb_pcb_ne _ _ hpq]
      exact hstop

/-- The process that ends is stopped when the next one runs. -/
theorem ended_stopped [CheckedProcLists Q] {heap : Heap} {u v w : KernelOf Q} (h : Sane s)
    (hcur : s.currproc ≠ .idle) (hu : Quiet (s.setHeap heap) u) (hv : ClosesSome s.currproc u v)
    (hw : v.addPcbToQueue s.currproc .stopped = some w) (hs : w.reschedule = some s') :
    (s'.pcb s.currproc).currState = .stopped := by
  obtain ⟨i, hi⟩ := PcbPtr.exists_table hcur
  have hsv := ((h.setHeap heap).quiet hu).closesSome hv
  have hpid := (hsv.pids i).1
  apply reschedule_stopped hw hcur _ hs
  rw [hi]
  omega

theorem cleanupProc_stopped [CheckedProcLists Q] (h : Sane s) (hcur : s.currproc ≠ .idle)
    (hs : (s.cleanupProc s.currproc >>= fun u => u.reschedule) = some s') :
    (s'.pcb s.currproc).currState = .stopped := by
  obtain ⟨w, hw, hs⟩ := Option.bind_eq_some_iff.mp hs
  obtain ⟨heap, u, v, hu, hv, hvw⟩ := cleanupProc_stages hw h.running
  exact ended_stopped h hcur hu hv hvw hs

/-- The running process ends. -/
theorem cleanupProc_data [CheckedProcLists Q] {req : SyscallRequest} (h : Sane s)
    (hcur : s.currproc ≠ .idle) (hreq : req = .stop ∨ req = .sigreturn)
    (hs : (s.cleanupProc s.currproc >>= fun u => u.reschedule) = some s') :
    DataStep s req s' p := by
  have hstop := cleanupProc_stopped h hcur hs
  obtain ⟨w, hw, hs⟩ := Option.bind_eq_some_iff.mp hs
  obtain ⟨heap, u, v, hu, hv, hvw⟩ := cleanupProc_stages hw h.running
  have hsv := ((h.setHeap heap).quiet hu).closesSome hv
  have honly := hv.fdsOnly
  have hc : v.currproc = s.currproc := honly.currproc.trans hu.currproc
  rw [← hc] at hvw
  have hend := (ended_calm hsv hvw hs).1.keepsData
  have hself : (s.pcb s.currproc).SameData (u.pcb s.currproc) := hu.pcb s.currproc
  have hv' : KeepsData (s.setPcb s.currproc fun x => x.withFds (v.pcb s.currproc).fdTable) v := by
    intro q
    rw [setPcb_toCore, Core.setPcb_pcb]
    split_ifs with hq
    · rw [hq, honly.self]
      generalize (v.pcb s.currproc).fdTable = f
      generalize u.pcb s.currproc = y at hself ⊢
      rw [hself]
      exact rfl
    · rw [honly.other q hq]
      exact hu.pcb q
  obtain ⟨hself, hother⟩ := setPcb_data (hv'.trans hend)
  by_cases hp : p = s.currproc
  · rw [← hp] at hself hstop
    exact .ended _ hreq hp hstop hself
  · refine .same (not_touches hp ?_) (hother p hp)
    rcases hreq with rfl | rfl <;> simp

theorem dispatchSyscallSigreturn_data [CheckedProcLists Q] (h : Sane s) (hcur : s.currproc ≠ .idle)
    (hs : s.dispatchSyscallSigreturn = some s') :
    DataStep s .sigreturn s' p := by
  unfold dispatchSyscallSigreturn at hs
  dsimp only at hs
  obtain ⟨result, -, hs⟩ := Option.bind_eq_some_iff.mp hs
  split_ifs at hs
  · exact cleanupProc_data h hcur (.inr rfl) hs
  · obtain rfl := Option.some.inj hs
    have hset : KeepsData (s.setPcb s.currproc fun x =>
        { x with esp := s.arg 0, signalsEnabled := true })
        ((s.setRet (toInt (load32 s.mem (subWord (s.arg 0) 4)))).setPcb
          (s.setRet (toInt (load32 s.mem (subWord (s.arg 0) 4)))).currproc fun x =>
          { x with esp := s.arg 0, signalsEnabled := true }) := by
      intro q
      show Pcb.SameData _ (((s.setPcb s.currproc fun x =>
        { x with ret := toInt (load32 s.mem (subWord (s.arg 0) 4)) }).setPcb s.currproc fun x =>
        { x with esp := s.arg 0, signalsEnabled := true }).pcb q)
      rw [setPcb_setPcb, setPcb_toCore, Core.setPcb_pcb, setPcb_toCore, Core.setPcb_pcb]
      split_ifs with hq
      · exact rfl
      · exact Pcb.SameData.refl _
    obtain ⟨hself, hother⟩ := setPcb_data hset
    by_cases hp : p = s.currproc
    · rw [← hp] at hself
      exact .returned rfl hp hself
    · exact .same (not_touches hp (by simp)) (hother p hp)

/-! ## New processes -/

/-- A slot of the table is looked for, and the slot that is found is cleared. -/
theorem getNextAvailablePcb_creation {r : Option PcbPtr} (hs : s.getNextAvailablePcb = some (r, s')) :
    r = none ∧ s' = s ∨ ∃ q k heap table, ProcLists.head s.queues (.proc .stopped) = some q ∧
      ((s.pcb q).currState = .ready ∨ (s.pcb q).currState = .stopped) ∧
      s.toHeap.kmalloc (signalTableSize * 4) = some (table, heap) ∧
      (r = none ∧ table = 0 ∧ s' = (s.setQueues k).withSlot heap q
          { Pcb.zero with signalTable := table, pid := (s.pcb q).pid, currState := .stopped } ∨
        r = some q ∧ table ≠ 0 ∧ 1 ≤ nextPid (s.pcb q).pid ∧
          s' = (s.setQueues k).withSlot { heap with mem := memset heap.mem table 0 4 } q
            { freshPcb table with pid := nextPid (s.pcb q).pid }) := by
  unfold getNextAvailablePcb at hs
  cases hh : ProcLists.head s.queues (.proc .stopped) with
  | none =>
    rw [hh] at hs
    obtain ⟨rfl, rfl⟩ := Prod.mk.inj (Option.some.inj hs)
    exact .inl ⟨rfl, rfl⟩
  | some q =>
    rw [hh] at hs
    dsimp only at hs
    obtain ⟨s1, hs1, hs⟩ := Option.bind_eq_some_iff.mp hs
    obtain ⟨hq, k, rfl⟩ := removePcbFromQueue_eq hs1
    obtain ⟨⟨table, s2⟩, hs2, hs⟩ := Option.bind_eq_some_iff.mp hs
    obtain ⟨heap, hk, rfl⟩ := kmalloc_eq hs2
    dsimp only at hs
    split_ifs at hs with ht
    · obtain ⟨s3, hs3, hs⟩ := Option.bind_eq_some_iff.mp hs
      obtain ⟨-, k', rfl⟩ := addPcbToQueue_eq hs3
      obtain ⟨rfl, rfl⟩ := Prod.mk.inj (Option.some.inj hs)
      refine .inr ⟨q, k', heap, table, rfl, hq, hk, .inl ⟨rfl, ht, ?_⟩⟩
      unfold withSlot setPcb setQueues setHeap Core.setPcb Core.setHeap
      simp only [Function.update_self, Function.update_idem]
    · obtain ⟨_, hpid, hs⟩ := Option.bind_eq_some_iff.mp hs
      obtain ⟨rfl, rfl⟩ := Prod.mk.inj (Option.some.inj hs)
      have hpid := cAssert_eq_some.mp hpid
      rw [setPcb_toCore, Core.setPcb_pcb_self] at hpid
      refine .inr ⟨q, ProcLists.clearLinks k q, heap, table, rfl, hq, hk,
        .inr ⟨rfl, ht, hpid, ?_⟩⟩
      unfold withSlot setPcb setQueues setMem setHeap Core.setPcb Core.setMem Core.setHeap freshPcb
      simp only [Function.update_self, Function.update_idem]

/-- What `create` does to the heap: it ends with the block of a stack and of a signal table, or with
neither. -/
inductive Allocates (h : Heap) (func : ℕ) (size : ℤ) : Option (ℕ × ℕ) → Heap → Prop where
  | refused : Allocates h func size none h
  | noStack (h1 : Heap) (hk : h.kmalloc (toWord size) = some (0, h1)) :
      Allocates h func size none h1
  | full (b : ℕ) (h1 h2 : Heap) (hk : h.kmalloc (toWord size) = some (b, h1)) (hb : b ≠ 0)
      (hf : h1.kfree b = some h2) : Allocates h func size none h2
  | noTable (b : ℕ) (h1 h2 h3 : Heap) (hk : h.kmalloc (toWord size) = some (b, h1)) (hb : b ≠ 0)
      (hk2 : h1.kmalloc (signalTableSize * 4) = some (0, h2)) (hf : h2.kfree b = some h3) :
      Allocates h func size none h3
  | created (b table : ℕ) (h1 h2 : Heap) (hk : h.kmalloc (toWord size) = some (b, h1)) (hb : b ≠ 0)
      (hk2 : h1.kmalloc (signalTableSize * 4) = some (table, h2)) (ht : table ≠ 0) :
      Allocates h func size (some (b, table))
        (stackHeap { h2 with mem := memset h2.mem table 0 4 } b func size)

/-- What `create` returns and does to the heap and the control blocks. -/
inductive Creation (s : KernelOf Q) (func : ℕ) (stack : ℤ) : ℤ → KernelOf Q → Prop where
  | failed (r : ℤ) (heap : Heap) (hr : r = einval ∨ r = enomem ∨ r = eproclimit)
      (hheap : Allocates s.toHeap func (stackSize stack) none heap) :
      Creation s func stack r (s.setHeap heap)
  | recycled (q : PcbPtr) (k : Q) (heap : Heap) (table : ℕ)
      (hh : ProcLists.head s.queues (.proc .stopped) = some q)
      (hq : (s.pcb q).currState = .ready ∨ (s.pcb q).currState = .stopped)
      (hheap : Allocates s.toHeap func (stackSize stack) none heap) :
      Creation s func stack eproclimit ((s.setQueues k).withSlot heap q
        { Pcb.zero with signalTable := table, pid := (s.pcb q).pid, currState := .stopped })
  | created (q : PcbPtr) (k : Q) (heap : Heap) (table b sp : ℕ)
      (hh : ProcLists.head s.queues (.proc .stopped) = some q)
      (hq : (s.pcb q).currState = .ready ∨ (s.pcb q).currState = .stopped)
      (hpid : 1 ≤ nextPid (s.pcb q).pid)
      (hheap : Allocates s.toHeap func (stackSize stack) (some (b, table)) heap) :
      Creation s func stack (nextPid (s.pcb q).pid) ((s.setQueues k).withSlot heap q
        { freshPcb table with
          pid := nextPid (s.pcb q).pid, memoryRegion := b, esp := sp, currState := .ready })

omit [ProcLists Q] in
theorem withSlot_toHeap (s : KernelOf Q) (heap : Heap) (p : PcbPtr) (x : Pcb) :
    (s.withSlot heap p x).toHeap = heap := rfl

omit [ProcLists Q] in
theorem setupStack_heap (s : KernelOf Q) (p : PcbPtr) (b func : ℕ) (stack : ℤ) :
    ∃ sp, s.setupStack p b func stack =
      (s.setHeap (stackHeap s.toHeap b func stack)).setPcb p fun x =>
        { x with memoryRegion := b, esp := sp } := by
  unfold setupStack
  simp only [store_eq, setPcb_setMem, setMem_setMem, setPcb_setPcb]
  exact ⟨_, rfl⟩

theorem create_creation {func : ℕ} {stack r : ℤ} (hs : s.create func stack = some (r, s')) :
    Creation s func stack r s' := by
  unfold create at hs
  have hsize : (if stack < defaultStackSize then defaultStackSize else stack) = stackSize stack :=
    rfl
  rw [hsize] at hs
  split_ifs at hs with hf
  · obtain ⟨rfl, rfl⟩ := Prod.mk.inj (Option.some.inj hs)
    exact .failed einval s.toHeap (.inl rfl) .refused
  dsimp only at hs
  obtain ⟨⟨b, s1⟩, hs1, hs⟩ := Option.bind_eq_some_iff.mp hs
  obtain ⟨heap, hk, rfl⟩ := kmalloc_eq hs1
  dsimp only at hs
  split_ifs at hs with hb
  · obtain ⟨rfl, rfl⟩ := Prod.mk.inj (Option.some.inj hs)
    dsimp only at hk
    rw [hb] at hk
    exact .failed enomem heap (.inr (.inl rfl)) (.noStack heap hk)
  · obtain ⟨⟨np, s2⟩, hs2, hs⟩ := Option.bind_eq_some_iff.mp hs
    rcases getNextAvailablePcb_creation hs2 with
      ⟨rfl, rfl⟩ | ⟨q, k, heap2, table, hh, hq, hk2, hr⟩
    · dsimp only at hs
      obtain ⟨s3, hs3, hs⟩ := Option.bind_eq_some_iff.mp hs
      obtain ⟨heap3, hfree, rfl⟩ := kfree_eq hs3
      obtain ⟨rfl, rfl⟩ := Prod.mk.inj (Option.some.inj hs)
      exact .failed eproclimit heap3 (.inr (.inr rfl)) (.full b heap heap3 hk hb hfree)
    · rcases hr with ⟨rfl, rfl, rfl⟩ | ⟨rfl, ht, hpid, rfl⟩
      · dsimp only at hs
        obtain ⟨s3, hs3, hs⟩ := Option.bind_eq_some_iff.mp hs
        obtain ⟨heap3, hfree, rfl⟩ := kfree_eq hs3
        obtain ⟨rfl, rfl⟩ := Prod.mk.inj (Option.some.inj hs)
        exact .recycled q k heap3 0 hh hq (.noTable b heap heap2 heap3 hk hb hk2 hfree)
      · dsimp only at hs
        obtain ⟨s3, hs3, hs⟩ := Option.bind_eq_some_iff.mp hs
        obtain ⟨sp, hm⟩ := setupStack_heap (((s.setHeap heap).setQueues k).withSlot
          { heap2 with mem := memset heap2.mem table 0 4 } q
          { freshPcb table with pid := nextPid (s.pcb q).pid }) q b func (stackSize stack)
        have hpcb : (s.setHeap heap).pcb q = s.pcb q := rfl
        rw [withSlot_toHeap] at hm
        rw [hpcb, hm] at hs3
        obtain ⟨-, k', rfl⟩ := addPcbToQueue_eq hs3
        obtain ⟨rfl, rfl⟩ := Prod.mk.inj (Option.some.inj hs)
        have hheap : Allocates s.toHeap func (stackSize stack) (some (b, table)) (stackHeap
            { heap2 with mem := memset heap2.mem table 0 4 } b func (stackSize stack)) :=
          .created b table heap heap2 hk hb hk2 ht
        revert hheap
        generalize stackHeap { heap2 with mem := memset heap2.mem table 0 4 } b func
          (stackSize stack) = heap3
        intro hheap
        have heq : ((((((s.setHeap heap).setQueues k).withSlot
            { heap2 with mem := memset heap2.mem table 0 4 } q
            { freshPcb table with pid := nextPid (s.pcb q).pid }).setHeap heap3).setPcb q fun x =>
            { x with memoryRegion := b, esp := sp }).setQueues k').setPcb q (fun x =>
            { x with currState := .ready }) = (s.setQueues k').withSlot heap3 q
            { freshPcb table with
              pid := nextPid (s.pcb q).pid, memoryRegion := b, esp := sp, currState := .ready } := by
          unfold withSlot setPcb setQueues setHeap Core.setPcb Core.setHeap
          simp only [Function.update_self, Function.update_idem]
        rw [heq]
        have hret : (((s.setQueues k').withSlot heap3 q
            { freshPcb table with
              pid := nextPid (s.pcb q).pid, memoryRegion := b, esp := sp,
              currState := .ready }).pcb q).pid = nextPid (s.pcb q).pid := by
          rw [withSlot_pcb_self]
        rw [hret]
        exact .created q k' heap3 table b sp hh hq hpid hheap

theorem Creation.data {func : ℕ} {stack r : ℤ} (h : Sane s) (ho : Orderly none s)
    (hc : Creation s func stack r s') :
    DataStep s .create (s'.setRet r) p := by
  have hfill : ∀ (q : PcbPtr) (k : Q) (heap : Heap) (x : Pcb),
      ProcLists.head s.queues (.proc .stopped) = some q →
      ((s.pcb q).currState = .ready ∨ (s.pcb q).currState = .stopped) → (s.pcb q).Refilled x →
      DataStep s .create (((s.setQueues k).withSlot heap q x).setRet r) p := by
    intro q k heap x hh hq hx
    have hstop : (s.pcb q).currState = .stopped := hq.resolve_left (ho.head q hh).1
    have hne : q ≠ s.currproc := by
      intro hqc
      have hrun : (s.pcb s.currproc).currState = .running := h.running
      rw [← hqc, hstop] at hrun
      simp at hrun
    have hret : ∀ y, y ≠ s.currproc →
        (((s.setQueues k).withSlot heap q x).setRet r).pcb y =
          ((s.setQueues k).withSlot heap q x).pcb y := by
      intro y hy
      unfold setRet
      rw [setPcb_toCore]
      exact Core.setPcb_pcb_ne _ _ hy
    by_cases hp : p = q
    · refine .filled rfl (hp ▸ hne) (hp ▸ hstop) ?_
      rw [hp, hret q hne, withSlot_pcb_self]
      exact hx
    · have hno : ¬ s.Touches .create p := by simp [Touches]
      refine .same hno (Pcb.SameData.trans ?_ (KeepsData.setRet (KeepsData.refl _) r p))
      rw [withSlot_pcb_ne _ _ _ hp]
      exact Pcb.SameData.refl _
  cases hc with
  | failed _ heap hr _ =>
    have hheap : KeepsData s (s.setHeap heap) := KeepsData.refl s
    exact (hheap.setRet r).dataStep (by simp)
  | recycled q k heap table hh hq _ => exact hfill q k heap _ hh hq (.free table)
  | created q k heap table b sp hh hq hpid _ =>
    exact hfill q k heap _ hh hq (.created table b sp hpid)

theorem dispatchSyscallCreate_data {r : ℤ × KernelOf Q} (h : Sane s) (ho : Orderly none s)
    (hs : s.dispatchSyscallCreate = some r) : DataStep s .create (setRetOf r) p := by
  obtain ⟨r, u⟩ := r
  rw [setRetOf_mk]
  unfold dispatchSyscallCreate at hs
  dsimp only at hs
  obtain ⟨result, -, hs⟩ := Option.bind_eq_some_iff.mp hs
  split_ifs at hs
  · obtain ⟨rfl, rfl⟩ := Prod.mk.inj (Option.some.inj hs)
    exact ((KeepsData.refl s).setRet _).dataStep (by simp)
  · exact (create_creation hs).data h ho

/-! ## Devices -/

omit [ProcLists Q] in
theorem CharStep.keepsData {c : UInt8} (h : CharStep s c s') : KeepsData s s' :=
  h.broadcast.sameData

omit [ProcLists Q] in
theorem Flushes.keepsData (h : Flushes s s') : KeepsData s s' := by
  induction h with
  | refl => exact KeepsData.refl s
  | tail _ hstep ih =>
    obtain ⟨-, -, u, hu, rfl⟩ := hstep
    exact ih.trans hu.keepsData

omit [ProcLists Q] in
theorem dispatchSyscallOpen_data {r : ℤ × KernelOf Q} (hs : s.dispatchSyscallOpen = some r) :
    DataStep s .sysopen (setRetOf r) p := by
  obtain ⟨r, u⟩ := r
  rw [setRetOf_mk]
  cases diOpen_cases hs with
  | refused => exact ((KeepsData.refl s).setRet _).dataStep (by simp)
  | opened e fd k he hfd hk =>
    have hopen : KeepsData ((s.setKbd k).setPcb s.currproc fun x =>
        { x with fdTable := Function.update x.fdTable fd (some e) })
        (((s.setKbd k).setPcb s.currproc fun x =>
        { x with fdTable := Function.update x.fdTable fd (some e) }).setRet fd.val) :=
      KeepsData.setRet (KeepsData.refl _) _
    obtain ⟨hself, hother⟩ := setPcb_data hopen
    by_cases hp : p = s.currproc
    · subst hp
      exact .descriptors (Function.update (s.pcb s.currproc).fdTable fd (some e))
        (.inl rfl) rfl hself
    · exact .same (not_touches hp (by simp)) (hother p hp)

omit [ProcLists Q] in
theorem dispatchSyscallClose_data (s : KernelOf Q) :
    DataStep s .close (setRetOf s.dispatchSyscallClose) p := by
  rcases diClose_cases s s.currproc (toInt (s.arg 0)) with ⟨heq, -⟩ | ⟨i, e, -, -, hc⟩
  · unfold dispatchSyscallClose
    rw [heq]
    exact ((KeepsData.refl s).setRet _).dataStep (by simp)
  · refine descriptors_data (.inr rfl) hc.pcb_self (fun q hq => ?_)
      (KeepsData.setRet (KeepsData.refl _) _)
    rw [hc.pcb_ne hq]
    exact Pcb.SameData.refl _

theorem dispatchSyscallRead_data (h : Sane s) (hcur : s.currproc ≠ .idle)
    (hs : s.dispatchSyscallRead = some s') : KeepsData s s' := by
  by_cases hd : s.ReachesDriver
  · obtain ⟨r, u, hu, hblock, hreturn⟩ := dispatchSyscallRead_driver hd hs
    obtain ⟨i, hi⟩ := PcbPtr.exists_table hcur
    rw [hi] at hu
    obtain ⟨hflush, -, -⟩ := kbdRead_flushes (h.startRead _ _).tasksOwned hu
    have hu' : KeepsData s u := hflush.keepsData
    by_cases hb : r = blockerr
    · have hsu := (h.startRead (i := i) _ _).flushes hflush
      have hcu : u.currproc = s.currproc := hflush.currproc
      obtain ⟨-, -, -, -, hdata, -⟩ := blockedRead hsu (by rw [hcu]; exact hcur) (hblock hb)
      exact hu'.trans hdata
    · rw [hreturn hb]
      exact hu'.setRet r
  · obtain ⟨r, rfl⟩ := dispatchSyscallRead_refused hd hs
    exact (KeepsData.refl s).setRet r

theorem keyboardHandler_data {control data : ℕ} (h : Sane s)
    (hs : s.keyboardHandler control data = some s') : KeepsData s s' := by
  cases keyboardIsr_outcome h.tasksOwned hs with
  | ignored hc heq =>
    rw [heq]
    exact KeepsData.refl s
  | typed hc hr hstep => exact hstep.keepsData
  | stored hc hr hroom heq =>
    rw [heq]
    exact KeepsData.refl s

/-! ## Requests that change memory -/

omit [ProcLists Q] in
theorem dispatchSyscallGetcputimes_mem {r : ℤ}
    (hs : s.dispatchSyscallGetcputimes = some (r, s')) : ∃ m, s' = s.setMem m := by
  unfold dispatchSyscallGetcputimes at hs
  dsimp only at hs
  obtain ⟨result, -, hs⟩ := Option.bind_eq_some_iff.mp hs
  split_ifs at hs
  · obtain ⟨-, rfl⟩ := Prod.mk.inj (Option.some.inj hs)
    exact ⟨s.mem, rfl⟩
  · obtain ⟨⟨n, w⟩, hw, hs⟩ := Option.bind_eq_some_iff.mp hs
    obtain ⟨-, rfl⟩ := Prod.mk.inj (Option.some.inj hs)
    exact getAllProcInfo_eq hw

omit [ProcLists Q] in
theorem dispatchSyscallSighandler_mem {r : ℤ}
    (hs : s.dispatchSyscallSighandler = some (r, s')) : ∃ m, s' = s.setMem m := by
  unfold dispatchSyscallSighandler at hs
  dsimp only at hs
  split_ifs at hs
  · obtain ⟨-, rfl⟩ := Prod.mk.inj (Option.some.inj hs)
    exact ⟨s.mem, rfl⟩
  all_goals
    obtain ⟨newResult, -, hs⟩ := Option.bind_eq_some_iff.mp hs
    split_ifs at hs
    · obtain ⟨-, rfl⟩ := Prod.mk.inj (Option.some.inj hs)
      exact ⟨s.mem, rfl⟩
    · obtain ⟨oldResult, -, hs⟩ := Option.bind_eq_some_iff.mp hs
      split_ifs at hs
      · obtain ⟨-, rfl⟩ := Prod.mk.inj (Option.some.inj hs)
        exact ⟨s.mem, rfl⟩
      · obtain ⟨-, rfl⟩ := Prod.mk.inj (Option.some.inj hs)
        exact ⟨_, rfl⟩

/-! ## A whole turn -/

/-- Every request does one of these things to the data of every process. -/
theorem dispatchRequest_data [CheckedProcLists Q] {t : Trap} {req : SyscallRequest} (h : Sane s) (ho : Orderly none s)
    (hcur : req ≠ .timerInt → req ≠ .keyboardInt → s.currproc ≠ .idle) (hs : s.dispatchRequest t req = some s')
    (p : PcbPtr) : DataStep s req s' p := by
  have hrefl := KeepsData.refl s
  unfold dispatchRequest at hs
  cases req with
  | timerInt => exact timerHandler_data h hs
  | keyboardInt => exact (keyboardHandler_data h hs).dataStep (by simp)
  | create =>
    obtain ⟨r, hr, rfl⟩ := Option.map_eq_some_iff.mp hs
    exact dispatchSyscallCreate_data h ho hr
  | yield => exact ((Quiet.refl s).yield h.running h.idle hs).keepsData.dataStep (by simp)
  | stop => exact cleanupProc_data h (hcur (by simp) (by simp)) (.inl rfl) hs
  | getpid =>
    obtain rfl := Option.some.inj hs
    exact (hrefl.setRet _).dataStep (by simp)
  | kill =>
    obtain ⟨r, hr, rfl⟩ := Option.map_eq_some_iff.mp hs
    exact dispatchSyscallKill_data hr
  | wait => exact (dispatchSyscallWait_data h hs).dataStep (by simp)
  | puts =>
    obtain ⟨m, rfl⟩ := dispatchSyscallPuts_mem hs
    have hm : KeepsData s (s.setMem m) := hrefl
    exact hm.dataStep (by simp)
  | send => exact (dispatchSyscallSend_data h hs).dataStep (by simp)
  | recv => exact (dispatchSyscallRecv_data h hs).dataStep (by simp)
  | sleep => exact (dispatchSyscallSleep_data h hs).dataStep (by simp)
  | cputimes =>
    obtain ⟨⟨r, u⟩, hr, rfl⟩ := Option.map_eq_some_iff.mp hs
    obtain ⟨m, rfl⟩ := dispatchSyscallGetcputimes_mem hr
    have hm : KeepsData s (s.setMem m) := hrefl
    exact (hm.setRet _).dataStep (by simp)
  | sighandler =>
    obtain ⟨⟨r, u⟩, hr, rfl⟩ := Option.map_eq_some_iff.mp hs
    obtain ⟨m, rfl⟩ := dispatchSyscallSighandler_mem hr
    have hm : KeepsData s (s.setMem m) := hrefl
    exact (hm.setRet _).dataStep (by simp)
  | sigreturn => exact dispatchSyscallSigreturn_data h (hcur (by simp) (by simp)) hs
  | sysopen =>
    obtain ⟨r, hr, rfl⟩ := Option.map_eq_some_iff.mp hs
    exact dispatchSyscallOpen_data hr
  | close =>
    obtain rfl := Option.some.inj hs
    exact dispatchSyscallClose_data s
  | write =>
    unfold dispatchSyscallWrite at hs
    dsimp only at hs
    obtain ⟨result, -, hs⟩ := Option.bind_eq_some_iff.mp hs
    obtain ⟨written, -, hs⟩ := Option.bind_eq_some_iff.mp hs
    obtain rfl := Option.some.inj hs
    split_ifs
    · exact ((hrefl.setRet _).setRet _).dataStep (by simp)
    · exact (hrefl.setRet _).dataStep (by simp)
  | read => exact (dispatchSyscallRead_data h (hcur (by simp) (by simp)) hs).dataStep (by simp)
  | ioctl =>
    obtain rfl := Option.some.inj hs
    unfold dispatchSyscallIoctl diIoctl
    cases hc : checkFd (s.pcb s.currproc) (toInt (s.arg 0)) with
    | none => exact (hrefl.setRet _).dataStep (by simp)
    | some e =>
      dsimp only
      obtain ⟨eof, f, heq⟩ := kbdIoctl_eq s (s.arg 1) (s.arg 2)
      have hk : KeepsData s (s.setKbd { s.kbd with
          gKeyboardEof := eof, gKeyboardEchoFlag := f }) := KeepsData.refl s
      show DataStep s .ioctl (setRetOf (s.kbdIoctl (s.arg 1) (s.arg 2))) p
      unfold setRetOf
      rw [heq]
      exact (hk.setRet _).dataStep (by simp)

/-! ## The way to the handler -/

/-- Nobody but the running process can be found under its pid, and the idle process has no signals
pending. -/
structure Deliverable (s : KernelOf Q) : Prop where
  finds : ∀ i, s.currproc = .table i →
    s.pidToProc (s.pcb s.currproc).pid = some s.currproc
  idle : s.currproc = .idle → (s.pcb s.currproc).signalsFired = 0

omit [ProcLists Q] in
theorem Sane.finds (h : Sane s) {i : Fin pcbTableSize} (hi : s.currproc = .table i) :
    s.pidToProc (s.pcb s.currproc).pid = some s.currproc := by
  have hrun : (s.pcb s.currproc).currState = .running := h.running
  obtain ⟨h1, hslot⟩ := h.pids i
  rw [hi] at hrun ⊢
  unfold Core.pidToProc
  rw [if_pos h1, hslot, if_pos ⟨rfl, by rw [hrun]; simp⟩]

omit [ProcLists Q] in
theorem highestSignal_le (fired : BitVec 32) (n : ℕ) : highestSignal fired n ≤ n := by
  induction n with
  | zero => exact le_refl 0
  | succ n ih =>
    unfold highestSignal
    split_ifs
    · exact le_refl _
    · exact ih.trans n.le_succ

omit [ProcLists Q] in
/-- Entering user mode with no signal to deliver. -/
theorem enterUser_plain {proc : PcbPtr}
    (hno : ¬ ((s.pcb proc).signalsFired ≠ 0 ∧ (s.pcb proc).signalsEnabled = true)) :
    s.enterUser proc = some { s with
      toCore := s.toCore.store ((s.pcb proc).esp + 28) (toWord (s.pcb proc).ret) } := by
  unfold enterUser
  rw [if_neg hno]
  rfl

/-- The kernel when the highest pending signal of `proc` is taken off. -/
def takeSignal (s : KernelOf Q) (proc : PcbPtr) : KernelOf Q :=
  s.setPcb proc fun x =>
    { x with signalsFired :=
        flagBitClear x.signalsFired (highestSignal x.signalsFired (signalTableSize - 1)) }

/-- The highest pending signal of `proc`. -/
def highestPending (s : KernelOf Q) (proc : PcbPtr) : ℕ :=
  highestSignal (s.pcb proc).signalsFired (signalTableSize - 1)

omit [ProcLists Q] in
/-- Entering user mode in the handler of the highest pending signal. -/
theorem enterUser_signal {proc : PcbPtr}
    (hfinds : s.pidToProc (s.pcb proc).pid = some proc)
    (hfire : (s.pcb proc).signalsFired ≠ 0 ∧ (s.pcb proc).signalsEnabled = true) :
    s.enterUser proc = some { s with
      toCore := ((s.takeSignal proc).pushSignalFrame proc (s.highestPending proc)).store
        (signalContext (s.pcb proc).esp + 28) (toWord (s.pcb proc).ret) } := by
  have hview : ∀ p, ((s.takeSignal proc).pcb p).view = (s.pcb p).view := by
    intro p
    unfold takeSignal
    rw [setPcb_toCore, Core.setPcb_pcb]
    split_ifs with hp
    · rw [hp]
      rfl
    · rfl
  have hself : (s.takeSignal proc).pcb proc = { s.pcb proc with
      signalsFired := flagBitClear (s.pcb proc).signalsFired
        (highestSignal (s.pcb proc).signalsFired (signalTableSize - 1)) } := by
    unfold takeSignal
    rw [setPcb_toCore, Core.setPcb_pcb_self]
  have hle : s.highestPending proc ≤ 31 := highestSignal_le _ _
  have hvalid : ¬ ((s.highestPending proc : ℤ) < 0 ∨
      (s.highestPending proc : ℤ) ≥ (signalTableSize : ℕ)) := by
    have h32 : signalTableSize = 32 := rfl
    omega
  have hsignal : (s.takeSignal proc).toCore.signal (s.pcb proc).pid (s.highestPending proc) =
      (0, (s.takeSignal proc).pushSignalFrame proc (s.highestPending proc)) := by
    unfold Core.signal
    rw [pidToProc_congr hview, hfinds]
    dsimp only
    rw [if_neg hvalid]
    rfl
  have hcall : s.callHighestPrioritySignal proc =
      some ((s.takeSignal proc).pushSignalFrame proc (s.highestPending proc)) := by
    unfold Core.callHighestPrioritySignal
    rw [cAssert_pos hfire.1]
    have hpid : ((s.takeSignal proc).pcb proc).pid = (s.pcb proc).pid := congrArg ProcView.pid (hview proc)
    rw [← hpid] at hsignal
    exact congrArg (fun r => some (Prod.snd r)) hsignal
  unfold enterUser
  rw [if_pos hfire, hcall]
  have hpush : ((s.takeSignal proc).pushSignalFrame proc (s.highestPending proc)).pcb proc =
      { (s.takeSignal proc).pcb proc with
        signalsEnabled := false, esp := signalContext (s.pcb proc).esp } := by
    have hesp : ((s.takeSignal proc).pcb proc).esp = (s.pcb proc).esp := by rw [hself]
    rw [pushSignalFrame_eq, Core.setPcb_pcb_self, Core.setMem_pcb, hesp]
  show some _ = _
  rw [hpush, hself]

omit [ProcLists Q] in
/-- What entering user mode does to control blocks. -/
theorem enterUser_pcb (h : Deliverable s) (hs : s.enterUser s.currproc = some s') (p : PcbPtr) :
    s'.pcb p = if p = s.currproc then
        { (s.pcb s.currproc).delivered with esp := (s'.pcb s.currproc).esp }
      else s.pcb p := by
  by_cases hfire : (s.pcb s.currproc).signalsFired ≠ 0 ∧ (s.pcb s.currproc).signalsEnabled = true
  · obtain ⟨i, hi⟩ := PcbPtr.exists_table fun hc => hfire.1 (h.idle hc)
    rw [enterUser_signal (h.finds i hi) hfire] at hs
    obtain rfl := Option.some.inj hs
    have hpcb : ∀ q, (((s.takeSignal s.currproc).pushSignalFrame s.currproc
        (s.highestPending s.currproc)).pcb q) = if q = s.currproc then
          { s.pcb s.currproc with
            signalsFired := flagBitClear (s.pcb s.currproc).signalsFired
              (highestSignal (s.pcb s.currproc).signalsFired (signalTableSize - 1))
            signalsEnabled := false
            esp := signalContext ((s.takeSignal s.currproc).pcb s.currproc).esp }
        else s.pcb q := by
      intro q
      rw [pushSignalFrame_eq, Core.setPcb_pcb, Core.setMem_pcb]
      unfold takeSignal
      rw [setPcb_toCore, Core.setPcb_pcb_self, Core.setPcb_pcb]
      split_ifs <;> rfl
    show ((s.takeSignal s.currproc).pushSignalFrame s.currproc
      (s.highestPending s.currproc)).pcb p = _
    rw [hpcb p]
    have hself := hpcb s.currproc
    rw [if_pos rfl] at hself
    split_ifs with hp
    · unfold Pcb.delivered
      rw [if_pos hfire]
      exact congrArg (fun a => { s.pcb s.currproc with
        signalsFired := flagBitClear (s.pcb s.currproc).signalsFired
          (highestSignal (s.pcb s.currproc).signalsFired (signalTableSize - 1))
        signalsEnabled := false
        esp := a }) (congrArg Pcb.esp hself).symm
    · rfl
  · rw [enterUser_plain hfire] at hs
    obtain rfl := Option.some.inj hs
    show s.pcb p = _
    split_ifs with hp
    · unfold Pcb.delivered
      rw [if_neg hfire, hp]
      rfl
    · rfl

omit [ProcLists Q] in
/-- The trap changes the control block of the running process only. -/
theorem atTrap_pcb {t : Trap} (h : Deliverable s) (hs : s.atTrap t = some s') :
    ∃ args, s'.pcb s.currproc = (s.pcb s.currproc).atTrap t args ∧
      ∀ p, p ≠ s.currproc → s'.pcb p = s.pcb p := by
  unfold KernelOf.atTrap at hs
  obtain ⟨u, hu, rfl⟩ := Option.map_eq_some_iff.mp hs
  have hc : u.currproc = s.currproc := (enterUser_fields hu).1.currproc
  have hpcb := enterUser_pcb h hu
  refine ⟨((u.leaveUser u.currproc t).pcb s.currproc).args, ?_, fun p hp => ?_⟩
  · have hself := hpcb s.currproc
    rw [if_pos rfl] at hself
    unfold leaveUser
    rw [setPcb_toCore, hc, Core.setPcb_pcb_self, setMem_toCore, Core.setMem_pcb, hself]
    rfl
  · have hother := hpcb p
    rw [if_neg hp] at hother
    unfold leaveUser
    rw [setPcb_toCore, hc, Core.setPcb_pcb_ne _ _ hp]
    exact hother

end KernelOf

end Xeros.Model
