import Xeros.Refinement.Frames
import Xeros.Refinement.Turns

/-!
# What requests leave alone

`Kept` is the frame of a request that neither creates nor ends a process and does not use a
device: descriptors, stacks and keyboard tasks are as before.  As in `Xeros.Refinement.Frames`,
nothing is asked of the queues.
-/

set_option autoImplicit false

namespace Xeros.Model

open Xeros.Foundations Xeros.Abstract

/-- Two control blocks with the same pid, descriptors and memory. -/
structure Pcb.SameOwner (x y : Pcb) : Prop where
  pid : y.pid = x.pid
  fdTable : y.fdTable = x.fdTable
  memoryRegion : y.memoryRegion = x.memoryRegion
  signalTable : y.signalTable = x.signalTable

theorem Pcb.SameOwner.refl (x : Pcb) : x.SameOwner x := ⟨rfl, rfl, rfl, rfl⟩

theorem Pcb.SameOwner.trans {x y z : Pcb} (h : x.SameOwner y) (h' : y.SameOwner z) :
    x.SameOwner z :=
  ⟨h'.pid.trans h.pid, h'.fdTable.trans h.fdTable, h'.memoryRegion.trans h.memoryRegion,
    h'.signalTable.trans h.signalTable⟩

theorem Pcb.SameData.sameOwner {x y : Pcb} (h : x.SameData y) : x.SameOwner y := by
  unfold SameData at h
  rw [h]
  exact ⟨rfl, rfl, rfl, rfl⟩

namespace KernelOf

variable {Q : Type} {s s' s'' : KernelOf Q} {p : PcbPtr} {R : PcbPtr → Prop}

/-- Processes, devices and stacks are kept; afterwards the processes of `R` are in a read. -/
structure Kept (R : PcbPtr → Prop) (s s' : KernelOf Q) : Prop where
  image : s'.image = s.image
  gFreeList : s'.gFreeList = s.gFreeList
  gDeviceTable : s'.gDeviceTable = s.gDeviceTable
  kbd : s'.kbd = s.kbd
  owner : ∀ p, (s.pcb p).SameOwner (s'.pcb p)
  esp : ∀ p, p ≠ s.currproc → (s'.pcb p).esp = (s.pcb p).esp
  reading : ∀ p, s'.Reading p ↔ R p

theorem kept_setMem (s : KernelOf Q) (m : Memory) : Kept s.Reading s (s.setMem m) :=
  ⟨rfl, rfl, rfl, rfl, fun _ => Pcb.SameOwner.refl _, fun _ _ => rfl, fun _ => Iff.rfl⟩

theorem Kept.refl (s : KernelOf Q) : Kept s.Reading s s := kept_setMem s s.mem

/-- A request whose processes are moved after the part that does something else. -/
theorem Kept.calm (h : Kept R s s') (h' : Calm s' s'') : Kept R s s'' :=
  ⟨by rw [h'.toHeap, h.image], by rw [h'.toHeap, h.gFreeList],
    h'.gDeviceTable.trans h.gDeviceTable, h'.kbd.trans h.kbd,
    fun p => (h.owner p).trans (h'.pcb p).sameOwner,
    fun p hp => (h'.pcb p).esp.trans (h.esp p hp), fun p => (h'.reading p).trans (h.reading p)⟩

theorem Calm.kept (h : Calm s s') : Kept s.Reading s s' := (Kept.refl s).calm h

/-- An assignment that leaves state and queue name alone. -/
theorem kept_setPcb {f : Pcb → Pcb} (howner : (s.pcb p).SameOwner (f (s.pcb p)))
    (hesp : (f (s.pcb p)).esp = (s.pcb p).esp)
    (hstate : (f (s.pcb p)).currState = (s.pcb p).currState)
    (hname : (f (s.pcb p)).blockingQueueName = (s.pcb p).blockingQueueName) :
    Kept s.Reading s (s.setPcb p f) := by
  have hself : (s.setPcb p f).pcb p = f (s.pcb p) := Core.setPcb_pcb_self _ _ _
  have hother : ∀ q, q ≠ p → (s.setPcb p f).pcb q = s.pcb q := fun q hq =>
    Core.setPcb_pcb_ne _ _ hq
  refine ⟨rfl, rfl, rfl, rfl, fun q => ?_, fun q _ => ?_, fun q => ?_⟩
  all_goals by_cases hq : q = p
  · rw [hq, hself]
    exact howner
  · rw [hother q hq]
    exact Pcb.SameOwner.refl _
  · rw [hq, hself]
    exact hesp
  · rw [hother q hq]
  · unfold Core.Reading
    rw [hq, hself, hstate, hname]
  · unfold Core.Reading
    rw [hother q hq]

/-- An assignment to the running process that does not move it. -/
theorem kept_setPcb_current {f : Pcb → Pcb}
    (howner : (s.pcb s.currproc).SameOwner (f (s.pcb s.currproc)))
    (hstate : (f (s.pcb s.currproc)).currState = (s.pcb s.currproc).currState) (hrun : Running s) :
    Kept s.Reading s (s.setPcb s.currproc f) ∧ Running (s.setPcb s.currproc f) := by
  have hself : (s.setPcb s.currproc f).pcb s.currproc = f (s.pcb s.currproc) :=
    Core.setPcb_pcb_self _ _ _
  have hother : ∀ q, q ≠ s.currproc → (s.setPcb s.currproc f).pcb q = s.pcb q := fun q hq =>
    Core.setPcb_pcb_ne _ _ hq
  have hrun' : Running (s.setPcb s.currproc f) := by
    show ((s.setPcb s.currproc f).pcb s.currproc).currState = .running
    rw [hself, hstate]
    exact hrun
  refine ⟨⟨rfl, rfl, rfl, rfl, fun q => ?_, fun q hq => ?_, fun q => ?_⟩, hrun'⟩
  · by_cases hq : q = s.currproc
    · rw [hq, hself]
      exact howner
    · rw [hother q hq]
      exact Pcb.SameOwner.refl _
  · rw [hother q hq]
  · by_cases hq : q = s.currproc
    · rw [hq]
      exact ⟨fun h => absurd h hrun'.not_reading, fun h => absurd h hrun.not_reading⟩
    · unfold Core.Reading
      rw [hother q hq]

theorem setRet_running (r : ℤ) (h : Running s) : Running (s.setRet r) :=
  (quiet_setPcb_ret s s.currproc fun _ => r).keepsRunning h

theorem calm_setRet (s : KernelOf Q) (r : ℤ) : Calm s (s.setRet r) :=
  (quiet_setPcb_ret s s.currproc fun _ => r).toCalm

theorem Kept.setRet (h : Kept R s s') (r : ℤ) : Kept R s (s'.setRet r) := h.calm (calm_setRet s' r)

/-- The frame of a request, with somebody running before and after it. -/
structure Handles (R : PcbPtr → Prop) (s s' : KernelOf Q) : Prop where
  kept : Kept R s s'
  running : Running s'

theorem Handles.setRet (h : Handles R s s') (r : ℤ) : Handles R s (s'.setRet r) :=
  ⟨h.kept.setRet r, setRet_running r h.running⟩

theorem handles_refl (h : Running s) : Handles s.Reading s s := ⟨Kept.refl s, h⟩

theorem handles_setMem (h : Running s) (m : Memory) : Handles s.Reading s (s.setMem m) :=
  ⟨kept_setMem s m, h⟩

theorem Handles.quiet (h : Handles R s s') (h' : Quiet s' s'') : Handles R s s'' :=
  ⟨h.kept.calm h'.toCalm, h'.keepsRunning h.running⟩

variable [ProcLists Q]

/-- The current process is done, and the next one is dispatched. -/
theorem Kept.reschedule (h : Kept R s s') (hidle : ¬ R .idle) (hs : s'.reschedule = some s'') :
    Handles R s s'' := by
  obtain ⟨hc, hr⟩ := reschedule_calm hs (by rw [h.reading]; exact hidle)
  exact ⟨h.calm hc, hr⟩

/-! ## Scheduling -/

/-- The running process gives up the processor. -/
theorem Handles.yield (h : Handles R s s') (hidle : ¬ R .idle)
    (hs : (s'.addPcbToQueue s'.currproc .ready >>= fun u => u.reschedule) = some s'') :
    Handles R s s'' := by
  obtain ⟨u, hu, hs⟩ := Option.bind_eq_some_iff.mp hs
  have hc := addPcbToQueue_calm hu (by simp) h.running.not_reading
  exact (h.kept.calm hc).reschedule hidle hs

theorem timerHandler_handles (hs : s.timerHandler = some s') (hrun : Running s)
    (hidle : ¬ s.Reading .idle) : Handles s.Reading s s' := by
  unfold timerHandler at hs
  dsimp only at hs
  obtain ⟨u, hu, hs⟩ := Option.bind_eq_some_iff.mp hs
  obtain ⟨h1, hrun1⟩ := kept_setPcb_current (s := s) (f := fun x =>
    { x with cpuTime := wrapInt (x.cpuTime + 1) }) ⟨rfl, rfl, rfl, rfl⟩ rfl hrun
  exact ((Handles.mk h1 hrun1).quiet (tick_quiet hu)).yield hidle hs

theorem dispatchSyscallSleep_handles (hs : s.dispatchSyscallSleep = some s') (hrun : Running s)
    (hidle : ¬ s.Reading .idle) : Handles s.Reading s s' := by
  unfold dispatchSyscallSleep at hs
  dsimp only at hs
  split_ifs at hs
  · obtain rfl := Option.some.inj hs
    exact handles_refl hrun
  · obtain ⟨u, hu, hs⟩ := Option.bind_eq_some_iff.mp hs
    exact (sleep_calm hu hrun.not_reading).kept.reschedule hidle hs

omit [ProcLists Q] in
/-- The running process blocks, but not in a read. -/
theorem blocked_calm (hrun : Running s) (k : Q) {f : Pcb → Pcb} (hdata : ∀ x : Pcb, x.SameData (f x))
    (hname : ∀ x, (f x).blockingQueueName ≠ .device) :
    Calm s ((s.setQueues k).setPcb s.currproc f) :=
  (quiet_setQueues s k).toCalm.trans (calm_setPcb (hdata _) hrun.not_reading fun _ => hname _)

theorem dispatchSyscallWait_handles (hs : s.dispatchSyscallWait = some s') (hrun : Running s)
    (hidle : ¬ s.Reading .idle) : Handles s.Reading s s' := by
  unfold dispatchSyscallWait at hs
  dsimp only at hs
  cases hp : s.pidToProc (toInt (s.arg 0)) with
  | none =>
    rw [hp] at hs
    obtain rfl := Option.some.inj hs
    exact (handles_refl hrun).setRet _
  | some o =>
    rw [hp] at hs
    obtain ⟨u, hu, hs⟩ := Option.bind_eq_some_iff.mp hs
    obtain ⟨k, rfl⟩ := addProcToBlockingQueue_eq hu
    have hc : Calm s ((s.blockCurrent.setQueues k).setPcb s.currproc fun x =>
        { x with blockingProc := some o, blockingQueueName := .waiting }) := by
      show Calm s (((s.setQueues k).setPcb s.currproc fun x =>
        { x with currState := .blocked }).setPcb s.currproc fun x =>
        { x with blockingProc := some o, blockingQueueName := .waiting })
      rw [setPcb_setPcb]
      exact blocked_calm hrun k (fun _ => rfl) fun _ => by simp
    exact (hc.kept.calm (calm_setRet _ _)).reschedule hidle hs

/-! ## Messages -/

omit [ProcLists Q] in
theorem Quiet.setMem (h : Quiet s s') (m : Memory) : Quiet (s.setMem m) (s'.setMem m) := by
  refine ⟨⟨?_, h.gDeviceTable, h.kbd, h.pcb, h.reading⟩, h.currproc, h.running⟩
  rw [setMem_toCore, setMem_toCore]
  unfold Core.setMem
  rw [Core.setHeap_toHeap, Core.setHeap_toHeap, h.toHeap]

omit [ProcLists Q] in
theorem quiet_record (s : KernelOf Q) (src dest : PcbPtr) : Quiet s (s.record src dest) :=
  ⟨⟨rfl, rfl, rfl, fun _ => Pcb.SameData.refl _, fun _ => Iff.rfl⟩, rfl, fun _ => id⟩

/-- `s'` is `s` with other memory, after processes were moved. -/
def Copies (s s' : KernelOf Q) : Prop := ∃ m, Quiet (s.setMem m) s'

omit [ProcLists Q] in
theorem Quiet.copies (h : Quiet s s') : Copies s s' := ⟨s.mem, h⟩

omit [ProcLists Q] in
theorem Copies.quiet (h : Copies s s') (h' : Quiet s' s'') : Copies s s'' :=
  h.imp fun _ hm => hm.trans h'

omit [ProcLists Q] in
theorem Copies.setMem (h : Copies s s') (m : Memory) : Copies s (s'.setMem m) := by
  obtain ⟨m0, hm⟩ := h
  exact ⟨m, hm.setMem m⟩

omit [ProcLists Q] in
theorem Copies.transfer (h : Copies s s') (src dest : PcbPtr) (a b n : ℕ) :
    Copies s (s'.transfer src dest a b n) :=
  (h.setMem _).quiet (quiet_record _ src dest)

omit [ProcLists Q] in
theorem Copies.handles (h : Copies s s') (hrun : Running s) : Handles s.Reading s s' := by
  obtain ⟨m, hm⟩ := h
  exact (handles_setMem hrun m).quiet hm

theorem unblockPeer_quiet (hs : s.unblockPeer p = some s')
    (hq : (s.pcb p).blockingQueueName ≠ .device) : Quiet s s' := by
  unfold unblockPeer at hs
  obtain ⟨_, hb, hs⟩ := Option.bind_eq_some_iff.mp hs
  obtain ⟨u, hu⟩ : ∃ u, u = s.setPcb p fun x => { x with ret := syspidOk } := ⟨_, rfl⟩
  dsimp only at hs
  rw [← hu] at hs
  have hself : u.pcb p = { s.pcb p with ret := syspidOk } := by
    rw [hu, setPcb_toCore, Core.setPcb_pcb_self]
  have hquiet : Quiet s u := hu ▸ quiet_setPcb_ret s p fun _ => syspidOk
  refine hquiet.trans (ready_quiet hs ?_ ?_)
  · rw [hself]
    exact cAssert_eq_some.mp hb
  · rw [hself]
    exact hq

/-- The outcome of `send`, `recv` and `recv_any` for the running process. -/
inductive MsgOutcome (s : KernelOf Q) : ℤ → KernelOf Q → Prop where
  | finished (r : ℤ) (s' : KernelOf Q) (hr : r ≠ blockerr) (h : Copies s s') : MsgOutcome s r s'
  | blocks (k : Q) (f : Pcb → Pcb) (hdata : ∀ x : Pcb, x.SameData (f x))
      (hname : ∀ x, (f x).blockingQueueName ≠ .device) :
      MsgOutcome s blockerr ((s.setQueues k).setPcb s.currproc f)

theorem removeProcFromBlockingQueue_false {o : Option PcbPtr} {q : BlockingQueue}
    (h : s.removeProcFromBlockingQueue p o q = some (false, s')) : s' = s := by
  unfold removeProcFromBlockingQueue at h
  obtain ⟨owner, -, h⟩ := Option.bind_eq_some_iff.mp h
  split_ifs at h
  · exact (Prod.mk.inj (Option.some.inj h)).2.symm
  · obtain ⟨_, -, h⟩ := Option.bind_eq_some_iff.mp h
    exact absurd (Prod.mk.inj (Option.some.inj h)).1 (by simp)

theorem addProcToBlockingQueue_blocks {o : PcbPtr} {q : BlockingQueue} (hq : q ≠ .device)
    (h : s.addProcToBlockingQueue s.currproc o q = some s') : MsgOutcome s blockerr s' := by
  obtain ⟨k, rfl⟩ := addProcToBlockingQueue_eq h
  exact .blocks k _ (fun _ => rfl) fun _ => hq

/-- The rest of `send` after the receiver was found. -/
theorem send_finish {u u1 : KernelOf Q} {dest : PcbPtr} {a b n : ℕ} (h : Copies s u)
    (hname : (u.pcb dest).blockingQueueName ≠ .device)
    (hu1 : (u.transfer s.currproc dest a b n).unblockPeer dest = some u1) :
    MsgOutcome s syspidOk u1 :=
  .finished _ _ (by decide) ((h.transfer s.currproc dest a b n).quiet (unblockPeer_quiet hu1 hname))

theorem send_outcome {dest : PcbPtr} {buf len : ℕ} {r : ℤ}
    (hs : s.send s.currproc dest buf len = some (r, s')) : MsgOutcome s r s' := by
  unfold send at hs
  obtain ⟨_, -, hs⟩ := Option.bind_eq_some_iff.mp hs
  by_cases hany : (s.pcb dest).blockingQueueName = .receiveAny
  · rw [if_pos hany] at hs
    obtain ⟨⟨waiting, u⟩, hu, hs⟩ := Option.bind_eq_some_iff.mp hs
    obtain ⟨rfl, rfl⟩ := Prod.mk.inj (Option.some.inj hu)
    dsimp only at hs
    rw [if_pos rfl, if_pos hany] at hs
    obtain ⟨u1, hu1, hs⟩ := Option.bind_eq_some_iff.mp hs
    obtain ⟨rfl, rfl⟩ := Prod.mk.inj (Option.some.inj hs)
    have hread : ¬ s.Reading dest := by
      rintro ⟨-, hr⟩
      rw [hany] at hr
      simp at hr
    have hset : Quiet s (s.setPcb dest fun x => { x with blockingQueueName := .noBlocker }) :=
      Calm.quiet (calm_setPcb rfl hread (by simp)) id
    refine send_finish (hset.copies.setMem _) ?_ hu1
    show ((s.setPcb dest fun x => { x with blockingQueueName := .noBlocker }).pcb
      dest).blockingQueueName ≠ .device
    rw [setPcb_toCore, Core.setPcb_pcb_self]
    simp
  · rw [if_neg hany] at hs
    obtain ⟨⟨waiting, u⟩, hu, hs⟩ := Option.bind_eq_some_iff.mp hs
    dsimp only at hs
    split_ifs at hs with hw hany'
    · obtain ⟨hquiet, hout⟩ := removeProcFromBlockingQueue_quiet hu (by simp)
      rw [(hout hw).2.2.2] at hany'
      simp at hany'
    · obtain ⟨u1, hu1, hs⟩ := Option.bind_eq_some_iff.mp hs
      obtain ⟨rfl, rfl⟩ := Prod.mk.inj (Option.some.inj hs)
      obtain ⟨hquiet, hout⟩ := removeProcFromBlockingQueue_quiet hu (by simp)
      refine send_finish hquiet.copies ?_ hu1
      rw [(hout hw).2.2.2]
      simp
    · obtain rfl : waiting = false := by simpa using hw
      obtain rfl := removeProcFromBlockingQueue_false hu
      obtain ⟨u1, hu1, hs⟩ := Option.bind_eq_some_iff.mp hs
      obtain ⟨rfl, rfl⟩ := Prod.mk.inj (Option.some.inj hs)
      exact addProcToBlockingQueue_blocks (by simp) hu1

theorem recv_outcome {src : PcbPtr} {buf len : ℕ} {r : ℤ}
    (hs : s.recv src s.currproc buf len = some (r, s')) : MsgOutcome s r s' := by
  unfold recv at hs
  obtain ⟨_, -, hs⟩ := Option.bind_eq_some_iff.mp hs
  obtain ⟨⟨waiting, u⟩, hu, hs⟩ := Option.bind_eq_some_iff.mp hs
  dsimp only at hs
  split_ifs at hs with hw
  · obtain ⟨u1, hu1, hs⟩ := Option.bind_eq_some_iff.mp hs
    obtain ⟨rfl, rfl⟩ := Prod.mk.inj (Option.some.inj hs)
    obtain ⟨hquiet, hout⟩ := removeProcFromBlockingQueue_quiet hu (by simp)
    have hcopy := hquiet.copies.transfer src s.currproc buf (u.argOf src 1)
      (min (u.argOf src 2) len)
    refine .finished _ _ (by decide) (hcopy.quiet (unblockPeer_quiet hu1 ?_))
    show (u.pcb src).blockingQueueName ≠ .device
    rw [(hout hw).2.2.2]
    simp
  · obtain rfl : waiting = false := by simpa using hw
    obtain rfl := removeProcFromBlockingQueue_false hu
    obtain ⟨u1, hu1, hs⟩ := Option.bind_eq_some_iff.mp hs
    obtain ⟨rfl, rfl⟩ := Prod.mk.inj (Option.some.inj hs)
    exact addProcToBlockingQueue_blocks (by simp) hu1

theorem recvAny_outcome {buf len : ℕ} {r : ℤ}
    (hs : s.recvAny s.currproc buf len = some (r, s')) : MsgOutcome s r s' := by
  unfold recvAny at hs
  obtain ⟨_, -, hs⟩ := Option.bind_eq_some_iff.mp hs
  cases hh : ProcLists.head s.queues (.blocking s.currproc .sender) with
  | none =>
    rw [hh] at hs
    obtain ⟨rfl, rfl⟩ := Prod.mk.inj (Option.some.inj hs)
    exact .blocks s.queues (fun x => { x with blockingQueueName := .receiveAny }) (fun _ => rfl)
      fun _ => by simp
  | some src =>
    rw [hh] at hs
    dsimp only at hs
    obtain ⟨⟨waiting, u⟩, hu, hs⟩ := Option.bind_eq_some_iff.mp hs
    dsimp only at hs
    obtain ⟨hquiet, hout⟩ := removeProcFromBlockingQueue_quiet hu (by simp)
    split_ifs at hs with hw
    · obtain ⟨u1, hu1, hs⟩ := Option.bind_eq_some_iff.mp hs
      obtain ⟨rfl, rfl⟩ := Prod.mk.inj (Option.some.inj hs)
      have hstore : Copies s (u.store (u.argOf s.currproc 0) (toWord (u.pcb src).pid)) :=
        hquiet.copies.setMem _
      have hcopy := hstore.transfer src s.currproc buf
        ((u.store (u.argOf s.currproc 0) (toWord (u.pcb src).pid)).argOf src 1)
        (min ((u.store (u.argOf s.currproc 0) (toWord (u.pcb src).pid)).argOf src 2) len)
      refine .finished _ _ (by decide) (hcopy.quiet (unblockPeer_quiet hu1 ?_))
      show (u.pcb src).blockingQueueName ≠ .device
      rw [(hout hw).2.2.2]
      simp
    · obtain ⟨rfl, rfl⟩ := Prod.mk.inj (Option.some.inj hs)
      exact .finished _ _ (by decide) hquiet.copies

/-- The end of a message call. -/
theorem MsgOutcome.finish {r : ℤ × KernelOf Q} (h : MsgOutcome s r.1 r.2) (hrun : Running s)
    (hidle : ¬ s.Reading .idle) (hs : finishMsg r = some s') : Handles s.Reading s s' := by
  obtain ⟨r, u⟩ := r
  unfold finishMsg at hs
  dsimp only at h hs
  cases h with
  | finished _ _ hr hcopy =>
    rw [if_neg hr] at hs
    obtain rfl := Option.some.inj hs
    exact (hcopy.handles hrun).setRet r
  | blocks k f hdata hname =>
    rw [if_pos rfl] at hs
    have hc : Calm s ((((s.setQueues k).setPcb s.currproc f).setRet blockerr).blockCurrent) := by
      show Calm s ((((s.setQueues k).setPcb s.currproc f).setPcb s.currproc fun x =>
        { x with ret := blockerr }).setPcb s.currproc fun x => { x with currState := .blocked })
      rw [setPcb_setPcb, setPcb_setPcb]
      refine blocked_calm hrun k (fun x => ?_) hname
      exact (hdata x).trans rfl
    exact (hc.kept.calm (calm_setRet _ _)).reschedule hidle hs

theorem dispatchSyscallSend_handles (hs : s.dispatchSyscallSend = some s') (hrun : Running s)
    (hidle : ¬ s.Reading .idle) : Handles s.Reading s s' := by
  have hret : ∀ r, Handles s.Reading s (s.setRet r) := fun r => (handles_refl hrun).setRet r
  unfold dispatchSyscallSend at hs
  dsimp only at hs
  split_ifs at hs
  · obtain rfl := Option.some.inj hs
    exact hret _
  · obtain rfl := Option.some.inj hs
    exact hret _
  · obtain ⟨result, -, hs⟩ := Option.bind_eq_some_iff.mp hs
    split_ifs at hs
    · obtain rfl := Option.some.inj hs
      exact hret _
    · cases hd : s.pidToProc (toInt (s.arg 0)) with
      | none =>
        rw [hd] at hs
        obtain rfl := Option.some.inj hs
        exact hret _
      | some dest =>
        rw [hd] at hs
        obtain ⟨r, hr, hs⟩ := Option.bind_eq_some_iff.mp hs
        exact (send_outcome hr).finish hrun hidle hs

theorem recvFrom_handles {fromPid : ℤ} {buffer len : ℕ}
    (hs : s.recvFrom fromPid buffer len = some s') (hrun : Running s)
    (hidle : ¬ s.Reading .idle) : Handles s.Reading s s' := by
  unfold recvFrom at hs
  split_ifs at hs
  · obtain rfl := Option.some.inj hs
    exact (handles_refl hrun).setRet _
  · obtain ⟨r, hr, hs⟩ := Option.bind_eq_some_iff.mp hs
    exact (recvAny_outcome hr).finish hrun hidle hs
  · cases hd : s.pidToProc fromPid with
    | none =>
      rw [hd] at hs
      obtain rfl := Option.some.inj hs
      exact (handles_refl hrun).setRet _
    | some src =>
      rw [hd] at hs
      obtain ⟨r, hr, hs⟩ := Option.bind_eq_some_iff.mp hs
      exact (recv_outcome hr).finish hrun hidle hs

theorem dispatchSyscallRecv_handles (hs : s.dispatchSyscallRecv = some s') (hrun : Running s)
    (hidle : ¬ s.Reading .idle) : Handles s.Reading s s' := by
  have hret : ∀ r, Handles s.Reading s (s.setRet r) := fun r => (handles_refl hrun).setRet r
  unfold dispatchSyscallRecv at hs
  dsimp only at hs
  obtain ⟨result, -, hs⟩ := Option.bind_eq_some_iff.mp hs
  split_ifs at hs
  · obtain rfl := Option.some.inj hs
    exact hret _
  · obtain rfl := Option.some.inj hs
    exact hret _
  · obtain ⟨result, -, hs⟩ := Option.bind_eq_some_iff.mp hs
    split_ifs at hs
    · obtain rfl := Option.some.inj hs
      exact hret _
    · exact recvFrom_handles hs hrun hidle

/-! ## Requests about the process itself -/

omit [ProcLists Q] in
theorem dispatchSyscallGetcputimes_handles {r : ℤ} (hs : s.dispatchSyscallGetcputimes = some (r, s'))
    (hrun : Running s) : Handles s.Reading s s' := by
  unfold dispatchSyscallGetcputimes at hs
  dsimp only at hs
  obtain ⟨result, -, hs⟩ := Option.bind_eq_some_iff.mp hs
  split_ifs at hs
  · obtain ⟨-, rfl⟩ := Prod.mk.inj (Option.some.inj hs)
    exact handles_refl hrun
  · obtain ⟨⟨n, u⟩, hu, hs⟩ := Option.bind_eq_some_iff.mp hs
    obtain ⟨-, rfl⟩ := Prod.mk.inj (Option.some.inj hs)
    obtain ⟨m, rfl⟩ := getAllProcInfo_eq hu
    exact handles_setMem hrun m

omit [ProcLists Q] in
theorem dispatchSyscallSighandler_handles {r : ℤ}
    (hs : s.dispatchSyscallSighandler = some (r, s')) (hrun : Running s) :
    Handles s.Reading s s' := by
  unfold dispatchSyscallSighandler at hs
  dsimp only at hs
  split_ifs at hs
  · obtain ⟨-, rfl⟩ := Prod.mk.inj (Option.some.inj hs)
    exact handles_refl hrun
  all_goals
    obtain ⟨newResult, -, hs⟩ := Option.bind_eq_some_iff.mp hs
    split_ifs at hs
    · obtain ⟨-, rfl⟩ := Prod.mk.inj (Option.some.inj hs)
      exact handles_refl hrun
    · obtain ⟨oldResult, -, hs⟩ := Option.bind_eq_some_iff.mp hs
      split_ifs at hs
      · obtain ⟨-, rfl⟩ := Prod.mk.inj (Option.some.inj hs)
        exact handles_refl hrun
      · obtain ⟨-, rfl⟩ := Prod.mk.inj (Option.some.inj hs)
        exact handles_setMem hrun _

omit [ProcLists Q] in
theorem dispatchSyscallWrite_handles (hs : s.dispatchSyscallWrite = some s') (hrun : Running s) :
    Handles s.Reading s s' := by
  unfold dispatchSyscallWrite at hs
  dsimp only at hs
  obtain ⟨result, -, hs⟩ := Option.bind_eq_some_iff.mp hs
  obtain ⟨written, -, hs⟩ := Option.bind_eq_some_iff.mp hs
  obtain rfl := Option.some.inj hs
  split_ifs
  · exact ((handles_refl hrun).setRet _).setRet _
  · exact (handles_refl hrun).setRet _

omit [ProcLists Q] in
/-- A process in a read becomes ready. -/
theorem Handles.leaveRead (h : Handles s.Reading s s') {k : Q} {f : Pcb → Pcb}
    (hdata : (s'.pcb p).SameData (f (s'.pcb p))) (hstate : (f (s'.pcb p)).currState = .ready)
    (hread : s'.Reading p) :
    Handles (fun q => s.Reading q ∧ q ≠ p) s ((s'.setQueues k).setPcb p f) := by
  have hself : ((s'.setQueues k).setPcb p f).pcb p = f (s'.pcb p) := Core.setPcb_pcb_self _ _ _
  have hother : ∀ q, q ≠ p → ((s'.setQueues k).setPcb p f).pcb q = s'.pcb q := fun q hq =>
    Core.setPcb_pcb_ne _ _ hq
  have hk := h.kept
  have hne : s'.currproc ≠ p := by
    rintro rfl
    exact h.running.not_reading hread
  refine ⟨⟨hk.image, hk.gFreeList, hk.gDeviceTable, hk.kbd, fun q => ?_, fun q hq => ?_,
    fun q => ?_⟩, ?_⟩
  · by_cases hqp : q = p
    · rw [hqp, hself]
      exact (hk.owner p).trans hdata.sameOwner
    · rw [hother q hqp]
      exact hk.owner q
  · by_cases hqp : q = p
    · rw [hqp] at hq ⊢
      rw [hself]
      exact hdata.esp.trans (hk.esp p hq)
    · rw [hother q hqp]
      exact hk.esp q hq
  · by_cases hqp : q = p
    · unfold Core.Reading
      rw [hqp, hself, hstate]
      simp
    · unfold Core.Reading
      rw [hother q hqp]
      exact (hk.reading q).trans ⟨fun hr => ⟨hr, hqp⟩, fun hr => hr.1⟩
  · show (((s'.setQueues k).setPcb p f).pcb s'.currproc).currState = .running
    rw [hother _ hne]
    exact h.running

omit [ProcLists Q] in
theorem setPcb_congr {f g : Pcb → Pcb} (h : f (s.pcb p) = g (s.pcb p)) :
    s.setPcb p f = s.setPcb p g := by
  unfold setPcb Core.setPcb
  rw [h]

/-- The read of a process is interrupted. -/
theorem resolveBlocking_reader (h : s.resolveBlocking p = some s')
    (hq : (s.pcb p).blockingQueueName = .device) :
    s' = s.setPcb p fun x => { x with ret := syserr, blockingQueueName := .noBlocker } := by
  unfold resolveBlocking at h
  obtain ⟨_, -, h⟩ := Option.bind_eq_some_iff.mp h
  obtain ⟨_, -, h⟩ := Option.bind_eq_some_iff.mp h
  dsimp only at h
  have hname : ((s.setPcb p fun x =>
      { x with ret := signalledRet x.blockingQueueName x.ret }).pcb p).blockingQueueName =
      .device := by
    rw [setPcb_toCore, Core.setPcb_pcb_self]
    exact hq
  rw [hname] at h
  obtain ⟨_, -, h⟩ := Option.bind_eq_some_iff.mp h
  obtain rfl := Option.some.inj h
  rw [setPcb_setPcb]
  refine setPcb_congr ?_
  dsimp only
  rw [hq]
  rfl

/-- A signal takes at most its target out of a read. -/
theorem setProcSignal_handles {signal r : ℤ} (hs : s.setProcSignal p signal = some (r, s'))
    (hrun : Running s) : Handles s.Reading s s' ∨
      s.Reading p ∧ Handles (fun q => s.Reading q ∧ q ≠ p) s s' := by
  unfold setProcSignal at hs
  split_ifs at hs with hsig hh
  · obtain ⟨-, rfl⟩ := Prod.mk.inj (Option.some.inj hs)
    exact .inl (handles_refl hrun)
  · obtain ⟨u, hu⟩ : ∃ u, u = s.setPcb p fun x =>
      { x with signalsFired := flagBitSet x.signalsFired signal.toNat } := ⟨_, rfl⟩
    dsimp only at hs
    rw [← hu] at hs
    have hself : u.pcb p = { s.pcb p with
        signalsFired := flagBitSet (s.pcb p).signalsFired signal.toNat } := by
      rw [hu, setPcb_toCore, Core.setPcb_pcb_self]
    have hstate : ∀ q, (u.pcb q).currState = (s.pcb q).currState := by
      intro q
      by_cases hq : q = p
      · rw [hq, hself]
      · rw [hu, setPcb_toCore, Core.setPcb_pcb_ne _ _ hq]
    have hc : u.currproc = s.currproc := by rw [hu]; rfl
    have hkept : Handles s.Reading s u := by
      refine ⟨hu ▸ kept_setPcb ⟨rfl, rfl, rfl, rfl⟩ rfl rfl rfl, ?_⟩
      unfold Running
      rw [hc, hstate]
      exact hrun
    split_ifs at hs with hblk
    · obtain ⟨u1, hu1, hs⟩ := Option.bind_eq_some_iff.mp hs
      obtain ⟨u2, hu2, hs⟩ := Option.bind_eq_some_iff.mp hs
      obtain ⟨-, rfl⟩ := Prod.mk.inj (Option.some.inj hs)
      by_cases hdev : (u.pcb p).blockingQueueName = .device
      · refine .inr ⟨(hkept.kept.reading p).mp ⟨hblk, hdev⟩, ?_⟩
        rw [resolveBlocking_reader hu1 hdev] at hu2
        obtain ⟨-, k, rfl⟩ := addPcbToQueue_eq hu2
        have hout := hkept.leaveRead (k := k) (f := fun x =>
          { x with ret := syserr, blockingQueueName := .noBlocker, currState := .ready }) rfl rfl
          ⟨hblk, hdev⟩
        have heq : ((u.setPcb p fun x =>
            { x with ret := syserr, blockingQueueName := .noBlocker }).setQueues k).setPcb p
            (fun x => { x with currState := .ready }) = (u.setQueues k).setPcb p fun x =>
            { x with ret := syserr, blockingQueueName := .noBlocker, currState := .ready } :=
          setPcb_setPcb (u.setQueues k) p
            (fun x => { x with ret := syserr, blockingQueueName := .noBlocker })
            fun x => { x with currState := .ready }
        rw [heq]
        exact hout
      · obtain ⟨hquiet, -, hb, hn⟩ := resolveBlocking_quiet hu1 hdev
        exact .inl ((hkept.quiet hquiet).quiet (ready_quiet hu2 hb (by rw [hn]; simp)))
    · obtain ⟨-, rfl⟩ := Prod.mk.inj (Option.some.inj hs)
      exact .inl hkept
  · obtain ⟨-, rfl⟩ := Prod.mk.inj (Option.some.inj hs)
    exact .inl (handles_refl hrun)

end KernelOf

end Xeros.Model
