import Xeros.Refinement.Boot
import Xeros.Refinement.Reads

/-!
# What a turn of the dispatcher does to devices

`DeviceStep` lists what a request can do to the keyboard driver, to descriptors, and to the
processes that are in a read.  It holds in every run, also when a process was made ready that the
queues do not expect: `Sane` is all that is asked of the state.
-/

set_option autoImplicit false

namespace Xeros.Model

open Xeros.Foundations Xeros.Abstract

/-- `pid % KBD_TASK_LIST_SIZE`, for every pid that the slot `i` ever has. -/
def taskOf (i : Fin pcbTableSize) : Fin kbdTaskListSize :=
  ⟨(i.val + 1) % 32, Nat.mod_lt _ (by decide)⟩

theorem taskIndex_eq {pid : ℤ} {i : Fin pcbTableSize} (h : slotOfPid pid = i) :
    taskIndex pid = taskOf i := by
  subst h
  unfold taskIndex taskOf slotOfPid
  apply Fin.ext
  dsimp only
  omega

theorem taskOf_injective : Function.Injective taskOf := by
  intro i j h
  have hi : i.val < 32 := i.isLt
  have hj : j.val < 32 := j.isLt
  have hv : (i.val + 1) % 32 = (j.val + 1) % 32 := congrArg Fin.val h
  apply Fin.ext
  omega

namespace KernelOf

variable {Q : Type} {s s' s'' : KernelOf Q} {p : PcbPtr} {R : PcbPtr → Prop}

/-- Somebody runs, the idle process does not read, and pids and tasks belong to their slots. -/
structure Sane (s : KernelOf Q) : Prop where
  running : Running s
  idle : ¬ s.Reading .idle
  pids : ∀ i, 1 ≤ (s.pcb (.table i)).pid ∧ slotOfPid (s.pcb (.table i)).pid = i
  tasks : ∀ k p, (s.kbd.gKbdTaskList k).pcb = some p → ∃ i, p = .table i ∧ k = taskOf i

theorem Sane.tasksOwned (h : Sane s) : TasksOwned s := by
  intro k l p hk hl
  obtain ⟨i, rfl, rfl⟩ := h.tasks k p hk
  obtain ⟨j, hj, rfl⟩ := h.tasks l _ hl
  rw [PcbPtr.table.inj hj]

theorem Sane.taskIndex (h : Sane s) (i : Fin pcbTableSize) :
    taskIndex (s.pcb (.table i)).pid = taskOf i :=
  taskIndex_eq (h.pids i).2

/-- Slots and tasks stay as they are, and nobody starts a read. -/
theorem Sane.mono (h : Sane s) (hrun : Running s') (hread : ∀ p, s'.Reading p → s.Reading p)
    (hpid : ∀ p, (s'.pcb p).pid = (s.pcb p).pid)
    (htask : ∀ k, (s'.kbd.gKbdTaskList k).pcb = (s.kbd.gKbdTaskList k).pcb) : Sane s' :=
  ⟨hrun, fun hi => h.idle (hread _ hi), fun i => by rw [hpid]; exact h.pids i,
    fun k p hk => h.tasks k p (htask k ▸ hk)⟩

theorem Sane.calm (h : Sane s) (h' : Calm s s') (hrun : Running s') : Sane s' :=
  h.mono hrun (fun p => (h'.reading p).mp) (fun p => (h'.pcb p).pid) fun k => by rw [h'.kbd]

theorem Sane.quiet (h : Sane s) (h' : Quiet s s') : Sane s' :=
  h.calm h'.toCalm (h'.keepsRunning h.running)

theorem Sane.setRet (h : Sane s) (r : ℤ) : Sane (s.setRet r) :=
  h.quiet (quiet_setPcb_ret s s.currproc fun _ => r)

theorem Sane.setHeap (h : Sane s) (heap : Heap) : Sane (s.setHeap heap) :=
  ⟨h.running, h.idle, h.pids, h.tasks⟩

theorem Sane.handles (h : Sane s) (h' : Handles R s s') (hR : ∀ p, R p → s.Reading p) : Sane s' :=
  h.mono h'.running (fun p hp => hR p ((h'.kept.reading p).mp hp)) (fun p => (h'.kept.owner p).pid)
    fun k => by rw [h'.kept.kbd]

theorem Sane.broadcast {c : Option UInt8} (h : Sane s) (h' : Broadcast c allTasks s s') : Sane s' :=
  h.mono (h'.keepsRunning h.running) (fun p hp => ((h'.reading p).mp hp).1)
    (fun p => (h'.sameData p).pid) h'.task_pcb

/-- The driver's variables change, but not whose task is whose. -/
theorem Sane.setKbd (h : Sane s) {k : Keyboard}
    (hk : ∀ i, (k.gKbdTaskList i).pcb = (s.kbd.gKbdTaskList i).pcb) : Sane (s.setKbd k) :=
  ⟨h.running, h.idle, h.pids, fun i p hp => h.tasks i p ((hk i).symm.trans hp)⟩

theorem Sane.charStep {c : UInt8} (h : Sane s) (h' : CharStep s c s') : Sane s' := by
  refine Sane.broadcast (h.setKbd fun i => ?_) h'.broadcast
  rw [(noticed_tasks s.kbd c).1]

theorem Sane.flushes (h : Sane s) (h' : Flushes s s') : Sane s' := by
  induction h' with
  | refl => exact h
  | tail _ hstep ih =>
    obtain ⟨-, -, u, hu, rfl⟩ := hstep
    exact Sane.setKbd (ih.charStep hu) fun _ => rfl

/-- Reads are started by processes of the table. -/
theorem Sane.startRead {i : Fin pcbTableSize} (h : Sane s) (buf : ℕ) (buflen : ℤ) :
    Sane (s.startRead (.table i) buf buflen) := by
  refine ⟨h.running, h.idle, h.pids, fun k p hk => ?_⟩
  have hreg : (s.startRead (.table i) buf buflen).kbd.gKbdTaskList =
      Function.update s.kbd.gKbdTaskList (taskOf i) ⟨some (.table i), buf, buflen, 0, true⟩ := by
    rw [← h.taskIndex i]
    rfl
  rw [hreg] at hk
  by_cases hki : k = taskOf i
  · rw [hki, Function.update_self] at hk
    exact ⟨i, (Option.some.inj hk).symm, hki⟩
  · rw [Function.update_of_ne hki] at hk
    exact h.tasks k p hk

/-- Only descriptors of the running process change. -/
theorem Sane.setFds (h : Sane s) (f : (Fin pcbNumFds → Option DeviceId) → Fin pcbNumFds →
    Option DeviceId) (p : PcbPtr) : Sane (s.setPcb p fun x => { x with fdTable := f x.fdTable }) := by
  have hsame : ∀ q, ((s.setPcb p fun x => { x with fdTable := f x.fdTable }).pcb q).currState =
      (s.pcb q).currState ∧ ((s.setPcb p fun x => { x with fdTable := f x.fdTable }).pcb
        q).blockingQueueName = (s.pcb q).blockingQueueName ∧
      ((s.setPcb p fun x => { x with fdTable := f x.fdTable }).pcb q).pid = (s.pcb q).pid := by
    intro q
    by_cases hq : q = p
    · rw [hq, setPcb_toCore, Core.setPcb_pcb_self]
      exact ⟨rfl, rfl, rfl⟩
    · rw [setPcb_toCore, Core.setPcb_pcb_ne _ _ hq]
      exact ⟨rfl, rfl, rfl⟩
  refine h.mono ?_ (fun q hq => ?_) (fun q => (hsame q).2.2) fun _ => rfl
  · unfold Running
    rw [(hsame _).1]
    exact h.running
  · unfold Core.Reading at hq ⊢
    rw [(hsame q).1, (hsame q).2.1] at hq
    exact hq

/-- `kbd_close` on an open device. -/
theorem kbdClose_eq {k : Keyboard} (h : 0 < k.gKbdRefcount) (pid : ℤ) :
    (k.kbdClose pid).2 = { k with
      gKbdRefcount := wrapInt (k.gKbdRefcount - 1)
      irqEnabled := if wrapInt (k.gKbdRefcount - 1) = 0 then false else k.irqEnabled
      gKbdTaskRefcount := if (k.gKbdTaskList (taskIndex pid)).waitingOnRead then
        wrapInt (k.gKbdTaskRefcount - 1) else k.gKbdTaskRefcount
      gKbdTaskList := Function.update k.gKbdTaskList (taskIndex pid)
        { k.gKbdTaskList (taskIndex pid) with waitingOnRead := false } } := by
  unfold Keyboard.kbdClose Keyboard.setTask
  rw [if_neg (by omega)]
  dsimp only
  by_cases hr : wrapInt (k.gKbdRefcount - 1) = 0
  · by_cases hw : (k.gKbdTaskList (taskIndex pid)).waitingOnRead <;> simp [hr, hw]
  · by_cases hw : (k.gKbdTaskList (taskIndex pid)).waitingOnRead <;> simp [hr, hw]

theorem kbdClose_tasks {k : Keyboard} (h : 0 < k.gKbdRefcount) (pid : ℤ) (i : Fin kbdTaskListSize) :
    (((k.kbdClose pid).2).gKbdTaskList i).pcb = (k.gKbdTaskList i).pcb := by
  rw [kbdClose_eq h]
  dsimp only
  rw [Function.update_apply]
  split_ifs with hi
  · rw [hi]
  · rfl

theorem kbdOpen_tasks {k k' : Keyboard} {pid flag r : ℤ} (h : k.kbdOpen pid flag = some (r, k')) :
    k'.gKbdTaskList = k.gKbdTaskList ∧ k'.gKbdTaskRefcount = k.gKbdTaskRefcount := by
  unfold Keyboard.kbdOpen at h
  split_ifs at h
  · rw [← (Prod.mk.inj (Option.some.inj h)).2]
    exact ⟨rfl, rfl⟩
  · rw [← (Prod.mk.inj (Option.some.inj h)).2]
    exact ⟨rfl, rfl⟩
  · dsimp only at h
    obtain ⟨_, -, h⟩ := Option.bind_eq_some_iff.mp h
    rw [← (Prod.mk.inj (Option.some.inj h)).2]
    exact ⟨rfl, rfl⟩

/-- The driver after its first user opened it. -/
def freshKbd (k : Keyboard) (flag : ℤ) : Keyboard :=
  { k with
    gKbdRefcount := 1
    gKbdCurrentType := flag
    gKbdDone := false
    gKeyboardBufferHead := 0
    gKeyboardBufferTail := 0
    gKeyboardKeystateFlag := 0
    gKeyboardEof := kbdDefaultEof
    gKeyboardEchoFlag := UInt8.ofNat (toWord flag)
    irqEnabled := true }

/-- The device is opened once more, or for the first time. -/
theorem kbdOpen_cases {k k' : Keyboard} {pid flag : ℤ} (h : k.kbdOpen pid flag = some (0, k')) :
    (0 < k.gKbdRefcount ∧ k.gKbdCurrentType = flag ∧
      k' = { k with gKbdRefcount := wrapInt (k.gKbdRefcount + 1) }) ∨
    (k.gKbdRefcount ≤ 0 ∧ (k.gKbdTaskList (taskIndex pid)).waitingOnRead = false ∧
      k' = freshKbd k flag) := by
  unfold Keyboard.kbdOpen at h
  split_ifs at h with h1 h2
  · exact absurd (Prod.mk.inj (Option.some.inj h)).1 (by decide)
  · exact .inl ⟨h1, not_not.mp h2, (Prod.mk.inj (Option.some.inj h)).2.symm⟩
  · dsimp only at h
    obtain ⟨_, hw, h⟩ := Option.bind_eq_some_iff.mp h
    exact .inr ⟨not_lt.mp h1, cAssert_eq_some.mp hw, (Prod.mk.inj (Option.some.inj h)).2.symm⟩

theorem Sane.closes {i : Fin pcbNumFds} (h : Sane s) (h' : Closes p i s s') : Sane s' := by
  rw [h'.eq]
  exact Sane.setFds (h.setKbd (kbdClose_tasks h'.refcount _)) (fun t => Function.update t i none) p

theorem Sane.closesSome (h : Sane s) (h' : ClosesSome p s s') : Sane s' := by
  induction h' with
  | refl => exact h
  | tail _ hstep ih =>
    obtain ⟨i, hc⟩ := hstep
    exact ih.closes hc

/-- A call of `sysread` passes the checks of the dispatcher and of `di_read`. -/
structure ReachesDriver (s : KernelOf Q) : Prop where
  verified : s.verifyUsrptr (s.arg 1) (toInt (s.arg 2)) = some ok
  isOpen : checkFd (s.pcb s.currproc) (toInt (s.arg 0)) ≠ none

theorem length_of_verified {h : Heap} {a : ℕ} {len r : ℤ} (hok : h.verifyUsrptr a len = some r) :
    1 ≤ len ∧ len < kernelStack := by
  unfold Heap.verifyUsrptr at hok
  obtain ⟨_, ha, -⟩ := Option.bind_eq_some_iff.mp hok
  have ha := cAssert_eq_some.mp ha
  exact ⟨by omega, ha.2⟩

variable [ProcLists Q]

/-- What a request does to devices and readers. -/
inductive DeviceStep (s : KernelOf Q) : SyscallRequest → KernelOf Q → Prop where
  | kept (req : SyscallRequest) (s' : KernelOf Q) (h : Handles s.Reading s s') : DeviceStep s req s'
  | signalled (p : PcbPtr) (s' : KernelOf Q) (hp : s.Reading p)
      (h : Handles (fun q => s.Reading q ∧ q ≠ p) s s') : DeviceStep s .kill s'
  | create (r : ℤ) (u : KernelOf Q) (h : CreateOutcome s r u) : DeviceStep s .create (u.setRet r)
  | ended (req : SyscallRequest) (heap : Heap) (u v w s' : KernelOf Q)
      (hu : Quiet (s.setHeap heap) u) (hv : ClosesSome s.currproc u v)
      (hw : v.addPcbToQueue s.currproc .stopped = some w) (hs : w.reschedule = some s') :
      DeviceStep s req s'
  | opened (e : DeviceId) (fd : Fin pcbNumFds) (k : Keyboard)
      (hfd : (s.pcb s.currproc).fdTable fd = none)
      (hk : s.kbd.kbdOpen (s.pcb s.currproc).pid (toInt (load32 s.mem (s.gDeviceTable e))) =
        some (0, k)) :
      DeviceStep s .sysopen (((s.setKbd k).setPcb s.currproc fun x =>
        { x with fdTable := Function.update x.fdTable fd (some e) }).setRet fd.val)
  | closed (i : Fin pcbNumFds) (u : KernelOf Q) (r : ℤ) (h : Closes s.currproc i s u) :
      DeviceStep s .close (u.setRet r)
  | ioctl (e f : UInt8) (r : ℤ) : DeviceStep s .ioctl
      ((s.setKbd { s.kbd with gKeyboardEof := e, gKeyboardEchoFlag := f }).setRet r)
  | read (i : Fin pcbTableSize) (u : KernelOf Q) (hi : s.currproc = .table i) (hd : s.ReachesDriver)
      (hu : Flushes (s.startRead (.table i) (s.arg 1) (toInt (s.arg 2))) u) (hdone : FlushDone u)
      (hr : readResult u.kbd (taskOf i) (toInt (s.arg 2)) ≠ blockerr) :
      DeviceStep s .read (u.setRet (readResult u.kbd (taskOf i) (toInt (s.arg 2))))
  | blocked (i : Fin pcbTableSize) (u s' : KernelOf Q) (hi : s.currproc = .table i)
      (hd : s.ReachesDriver)
      (hu : Flushes (s.startRead (.table i) (s.arg 1) (toInt (s.arg 2))) u) (hdone : FlushDone u)
      (hr : readResult u.kbd (taskOf i) (toInt (s.arg 2)) = blockerr)
      (hs : ((u.setRet blockerr).blockCurrent.setPcb u.currproc fun x =>
        { x with blockingQueueName := .device }).reschedule = some s') : DeviceStep s .read s'
  | key (c : UInt8) (flag : BitVec 32) (s' : KernelOf Q) (h : KeyOutcome s c flag s') :
      DeviceStep s .keyboardInt s'

theorem dispatchSyscallCreate_step {r : ℤ × KernelOf Q} (h : Sane s)
    (hs : s.dispatchSyscallCreate = some r) : DeviceStep s .create (setRetOf r) := by
  obtain ⟨r, u⟩ := r
  rw [setRetOf_mk]
  unfold dispatchSyscallCreate at hs
  dsimp only at hs
  obtain ⟨result, -, hs⟩ := Option.bind_eq_some_iff.mp hs
  split_ifs at hs
  · obtain ⟨rfl, rfl⟩ := Prod.mk.inj (Option.some.inj hs)
    exact .kept _ _ ((handles_refl h.running).setRet _)
  · exact .create r u (create_outcome hs)

theorem dispatchSyscallKill_step {r : ℤ × KernelOf Q} (h : Sane s)
    (hs : s.dispatchSyscallKill = some r) : DeviceStep s .kill (setRetOf r) := by
  obtain ⟨r, u⟩ := r
  rw [setRetOf_mk]
  unfold dispatchSyscallKill at hs
  dsimp only at hs
  cases hp : s.pidToProc (toInt (s.arg 0)) with
  | none =>
    rw [hp] at hs
    obtain ⟨rfl, rfl⟩ := Prod.mk.inj (Option.some.inj hs)
    exact .kept _ _ ((handles_refl h.running).setRet _)
  | some p =>
    rw [hp] at hs
    rcases setProcSignal_handles hs h.running with hk | ⟨hp, hk⟩
    · exact .kept _ _ (hk.setRet r)
    · exact .signalled p _ hp (hk.setRet r)

/-- The running process ends. -/
theorem cleanupProc_step {req : SyscallRequest} (h : Sane s)
    (hs : (s.cleanupProc s.currproc >>= fun u => u.reschedule) = some s') :
    DeviceStep s req s' := by
  obtain ⟨w, hw, hs⟩ := Option.bind_eq_some_iff.mp hs
  obtain ⟨heap, u, v, hu, hv, hvw⟩ := cleanupProc_stages hw h.running
  exact .ended req heap u v w s' hu hv hvw hs

theorem dispatchSyscallSigreturn_step (h : Sane s) (hs : s.dispatchSyscallSigreturn = some s') :
    DeviceStep s .sigreturn s' := by
  unfold dispatchSyscallSigreturn at hs
  dsimp only at hs
  obtain ⟨result, -, hs⟩ := Option.bind_eq_some_iff.mp hs
  split_ifs at hs
  · exact cleanupProc_step h hs
  · obtain rfl := Option.some.inj hs
    have h1 := (handles_refl h.running).setRet (toInt (load32 s.mem (subWord (s.arg 0) 4)))
    obtain ⟨h2, hrun2⟩ := kept_setPcb_current
      (s := s.setRet (toInt (load32 s.mem (subWord (s.arg 0) 4))))
      (f := fun x => { x with esp := s.arg 0, signalsEnabled := true }) ⟨rfl, rfl, rfl, rfl⟩ rfl
      h1.running
    refine .kept _ _ ⟨⟨h2.image.trans h1.kept.image, h2.gFreeList.trans h1.kept.gFreeList,
      h2.gDeviceTable.trans h1.kept.gDeviceTable, h2.kbd.trans h1.kept.kbd,
      fun q => (h1.kept.owner q).trans (h2.owner q), fun q hq => ?_,
      fun q => (h2.reading q).trans (h1.kept.reading q)⟩, hrun2⟩
    exact (h2.esp q hq).trans (h1.kept.esp q hq)

/-- A call that passes the checks is answered by `kbd_read`, or blocks. -/
theorem dispatchSyscallRead_driver (hd : s.ReachesDriver) (hs : s.dispatchSyscallRead = some s') :
    ∃ r u, s.kbdRead s.currproc (s.arg 1) (toInt (s.arg 2)) = some (r, u) ∧
      (r = blockerr → ((u.setRet r).blockCurrent.setPcb u.currproc fun x =>
        { x with blockingQueueName := .device }).reschedule = some s') ∧
      (r ≠ blockerr → s' = u.setRet r) := by
  unfold dispatchSyscallRead at hs
  dsimp only at hs
  obtain ⟨result, hresult, hs⟩ := Option.bind_eq_some_iff.mp hs
  obtain rfl : ok = result := Option.some.inj (hd.verified.symm.trans hresult)
  rw [if_neg (not_not.mpr rfl)] at hs
  obtain ⟨⟨r, u⟩, hu, hs⟩ := Option.bind_eq_some_iff.mp hs
  dsimp only at hs
  unfold diRead at hu
  obtain ⟨e, he⟩ := Option.ne_none_iff_exists'.mp hd.isOpen
  rw [he] at hu
  refine ⟨r, u, hu, fun hb => ?_, fun hb => ?_⟩
  · rw [if_pos hb] at hs
    exact hs
  · rw [if_neg hb] at hs
    exact (Option.some.inj hs).symm

/-- A call that does not pass the checks changes nothing. -/
theorem dispatchSyscallRead_refused (hd : ¬ s.ReachesDriver) (hs : s.dispatchSyscallRead = some s') :
    ∃ r, s' = s.setRet r := by
  unfold dispatchSyscallRead at hs
  dsimp only at hs
  obtain ⟨result, hresult, hs⟩ := Option.bind_eq_some_iff.mp hs
  split_ifs at hs with hok
  · exact ⟨_, (Option.some.inj hs).symm⟩
  · obtain rfl : result = ok := not_not.mp hok
    have hc : checkFd (s.pcb s.currproc) (toInt (s.arg 0)) = none := by
      by_contra hc
      exact hd ⟨hresult, hc⟩
    obtain ⟨⟨r, u⟩, hu, hs⟩ := Option.bind_eq_some_iff.mp hs
    dsimp only at hs
    unfold diRead at hu
    rw [hc] at hu
    obtain ⟨rfl, rfl⟩ := Prod.mk.inj (Option.some.inj hu)
    rw [if_neg (by decide)] at hs
    exact ⟨_, (Option.some.inj hs).symm⟩

theorem dispatchSyscallRead_step {i : Fin pcbTableSize} (h : Sane s) (hi : s.currproc = .table i)
    (hs : s.dispatchSyscallRead = some s') : DeviceStep s .read s' := by
  by_cases hd : s.ReachesDriver
  · obtain ⟨r, u, hu, hblock, hreturn⟩ := dispatchSyscallRead_driver hd hs
    rw [hi] at hu
    obtain ⟨hflush, hdone, hr⟩ := kbdRead_flushes (h.startRead _ _).tasksOwned hu
    rw [h.taskIndex i] at hr
    by_cases hb : r = blockerr
    · have hs := hblock hb
      rw [hb] at hr hs
      exact .blocked i u s' hi hd hflush hdone hr.symm hs
    · rw [hreturn hb, hr]
      rw [hr] at hb
      exact .read i u hi hd hflush hdone hb
  · obtain ⟨r, rfl⟩ := dispatchSyscallRead_refused hd hs
    exact .kept _ _ ((handles_refl h.running).setRet _)

/-- Every request does one of these things. -/
theorem dispatchRequest_step {t : Trap} {req : SyscallRequest} (h : Sane s)
    (hcur : req = .read → s.currproc ≠ .idle) (hs : s.dispatchRequest t req = some s') :
    DeviceStep s req s' := by
  have hrun := h.running
  have hidle := h.idle
  unfold dispatchRequest at hs
  cases req with
  | timerInt => exact .kept _ _ (timerHandler_handles hs hrun hidle)
  | keyboardInt => exact .key _ _ s' (keyboardIsr_outcome h.tasksOwned hs)
  | create =>
    obtain ⟨r, hr, rfl⟩ := Option.map_eq_some_iff.mp hs
    exact dispatchSyscallCreate_step h hr
  | yield => exact .kept _ _ ((handles_refl hrun).yield hidle hs)
  | stop => exact cleanupProc_step h hs
  | getpid =>
    obtain rfl := Option.some.inj hs
    exact .kept _ _ ((handles_refl hrun).setRet _)
  | kill =>
    obtain ⟨r, hr, rfl⟩ := Option.map_eq_some_iff.mp hs
    exact dispatchSyscallKill_step h hr
  | wait => exact .kept _ _ (dispatchSyscallWait_handles hs hrun hidle)
  | puts =>
    obtain ⟨m, rfl⟩ := dispatchSyscallPuts_mem hs
    exact .kept _ _ (handles_setMem hrun m)
  | send => exact .kept _ _ (dispatchSyscallSend_handles hs hrun hidle)
  | recv => exact .kept _ _ (dispatchSyscallRecv_handles hs hrun hidle)
  | sleep => exact .kept _ _ (dispatchSyscallSleep_handles hs hrun hidle)
  | cputimes =>
    obtain ⟨⟨r, u⟩, hr, rfl⟩ := Option.map_eq_some_iff.mp hs
    exact .kept _ _ ((dispatchSyscallGetcputimes_handles hr hrun).setRet r)
  | sighandler =>
    obtain ⟨⟨r, u⟩, hr, rfl⟩ := Option.map_eq_some_iff.mp hs
    exact .kept _ _ ((dispatchSyscallSighandler_handles hr hrun).setRet r)
  | sigreturn => exact dispatchSyscallSigreturn_step h hs
  | sysopen =>
    obtain ⟨⟨r, u⟩, hr, rfl⟩ := Option.map_eq_some_iff.mp hs
    cases diOpen_cases hr with
    | refused => exact .kept _ _ ((handles_refl hrun).setRet _)
    | opened e fd k he hfd hk => exact .opened e fd k hfd hk
  | close =>
    obtain rfl := Option.some.inj hs
    rcases diClose_cases s s.currproc (toInt (s.arg 0)) with ⟨heq, -⟩ | ⟨i, e, -, -, hc⟩
    · unfold dispatchSyscallClose
      rw [heq]
      exact .kept _ _ ((handles_refl hrun).setRet _)
    · exact .closed i _ _ hc
  | write => exact .kept _ _ (dispatchSyscallWrite_handles hs hrun)
  | read =>
    cases hi : s.currproc with
    | idle => exact absurd hi (hcur rfl)
    | table i => exact dispatchSyscallRead_step h hi hs
  | ioctl =>
    obtain rfl := Option.some.inj hs
    unfold dispatchSyscallIoctl diIoctl
    cases hc : checkFd (s.pcb s.currproc) (toInt (s.arg 0)) with
    | none => exact .kept _ _ ((handles_refl hrun).setRet _)
    | some e =>
      dsimp only
      obtain ⟨eof, f, heq⟩ := kbdIoctl_eq s (s.arg 1) (s.arg 2)
      show DeviceStep s .ioctl (setRetOf (s.kbdIoctl (s.arg 1) (s.arg 2)))
      unfold setRetOf
      rw [heq]
      exact .ioctl eof f _

/-! ## Every step keeps the invariant -/

omit [ProcLists Q] in
theorem CharStep.currproc {c : UInt8} (h : CharStep s c s') : s'.currproc = s.currproc :=
  h.broadcast.currproc

omit [ProcLists Q] in
theorem Flushes.currproc (h : Flushes s s') : s'.currproc = s.currproc := by
  induction h with
  | refl => rfl
  | tail _ hstep ih =>
    obtain ⟨-, -, u, hu, rfl⟩ := hstep
    exact hu.currproc.trans ih

omit [ProcLists Q] in
theorem CharStep.tasks {c : UInt8} (h : CharStep s c s') (i : Fin kbdTaskListSize) :
    s'.kbd.gKbdTaskList i = (s.kbd.gKbdTaskList i).receive (s.charOf c) := by
  rw [h.broadcast.tasks, if_pos (List.mem_finRange i)]
  show ((Keyboard.noticed s.kbd c).gKbdTaskList i).receive _ = _
  rw [(noticed_tasks s.kbd c).1]

omit [ProcLists Q] in
/-- Buffers and lengths stay as they are while the ring is flushed. -/
theorem Flushes.request (h : Flushes s s') (i : Fin kbdTaskListSize) :
    (s'.kbd.gKbdTaskList i).buf = (s.kbd.gKbdTaskList i).buf ∧
      (s'.kbd.gKbdTaskList i).buflen = (s.kbd.gKbdTaskList i).buflen := by
  induction h with
  | refl => exact ⟨rfl, rfl⟩
  | tail _ hstep ih =>
    obtain ⟨-, -, u, hu, rfl⟩ := hstep
    show (u.kbd.gKbdTaskList i).buf = _ ∧ (u.kbd.gKbdTaskList i).buflen = _
    rw [hu.tasks, (KbdTask.receive_request _ _).1, (KbdTask.receive_request _ _).2]
    exact ih

omit [ProcLists Q] in
/-- A slot of the table that nobody uses is filled. -/
theorem Sane.filled (h : Sane s) {k : Q} {heap : Heap} {x : Pcb}
    (hp : (s.pcb p).currState = .ready ∨ (s.pcb p).currState = .stopped)
    (hpid : x.pid = (s.pcb p).pid ∨ x.pid = nextPid (s.pcb p).pid ∧ 1 ≤ x.pid)
    (hx : x.currState = .ready ∨ x.currState = .stopped) :
    Sane ((s.setQueues k).withSlot heap p x) := by
  have hself : ((s.setQueues k).withSlot heap p x).pcb p = x := withSlot_pcb_self _ _ _ _
  have hother : ∀ q, q ≠ p → ((s.setQueues k).withSlot heap p x).pcb q = s.pcb q := fun q hq =>
    withSlot_pcb_ne _ _ _ hq
  have hne : s.currproc ≠ p := by
    rintro rfl
    have hrun : (s.pcb s.currproc).currState = .running := h.running
    rw [hrun] at hp
    simp at hp
  refine ⟨?_, fun hi => ?_, fun i => ?_, h.tasks⟩
  · show (((s.setQueues k).withSlot heap p x).pcb s.currproc).currState = .running
    rw [hother _ hne]
    exact h.running
  · unfold Core.Reading at hi
    by_cases hip : PcbPtr.idle = p
    · rw [hip, hself] at hi
      rcases hx with hx | hx <;> rw [hx] at hi <;> simp at hi
    · rw [hother _ hip] at hi
      exact h.idle hi
  · by_cases hip : PcbPtr.table i = p
    · rw [hip, hself]
      obtain ⟨h1, hslot⟩ := h.pids i
      rw [hip] at h1 hslot
      rcases hpid with hpid | ⟨hpid, hpos⟩
      · rw [hpid]
        exact ⟨h1, hslot⟩
      · refine ⟨hpos, ?_⟩
        rw [hpid, slotOfPid_nextPid h1]
        exact hslot
    · rw [hother _ hip]
      exact h.pids i

omit [ProcLists Q] in
theorem Sane.createOutcome {r : ℤ} (h : Sane s) (h' : CreateOutcome s r s') : Sane s' := by
  cases h' with
  | failed heap => exact h.setHeap heap
  | filled p k heap x hp hpid hfd hx => exact h.filled hp hpid hx

/-- The end of a process, after its descriptors are closed. -/
theorem ended_calm {v w : KernelOf Q} (h : Sane v) (hw : v.addPcbToQueue v.currproc .stopped = some w)
    (hs : w.reschedule = some s') : Calm v s' ∧ Running s' := by
  have hc := addPcbToQueue_calm hw (by simp) h.running.not_reading
  obtain ⟨hc', hrun⟩ := reschedule_calm hs (by rw [hc.reading]; exact h.idle)
  exact ⟨hc.trans hc', hrun⟩

/-- The running process blocks in a read. -/
theorem blockedRead {u : KernelOf Q} (h : Sane u) (hcur : u.currproc ≠ .idle) {r : ℤ}
    (hs : ((u.setRet r).blockCurrent.setPcb u.currproc fun x =>
      { x with blockingQueueName := .device }).reschedule = some s') :
    Running s' ∧ s'.kbd = u.kbd ∧ s'.gDeviceTable = u.gDeviceTable ∧ s'.toHeap = u.toHeap ∧
      (∀ q, (u.pcb q).SameData (s'.pcb q)) ∧ ∀ q, s'.Reading q ↔ u.Reading q ∨ q = u.currproc := by
  obtain ⟨w, hw⟩ : ∃ w, w = u.setPcb u.currproc fun x =>
      { x with ret := r, currState := .blocked, blockingQueueName := .device } := ⟨_, rfl⟩
  have heq : (u.setRet r).blockCurrent.setPcb u.currproc (fun x =>
      { x with blockingQueueName := .device }) = w := by
    rw [hw]
    show ((u.setPcb u.currproc fun x => { x with ret := r }).setPcb u.currproc fun x =>
      { x with currState := .blocked }).setPcb u.currproc (fun x =>
      { x with blockingQueueName := .device }) = _
    rw [setPcb_setPcb, setPcb_setPcb]
  rw [heq] at hs
  have hself : w.pcb u.currproc = { u.pcb u.currproc with
      ret := r, currState := .blocked, blockingQueueName := .device } := by
    rw [hw, setPcb_toCore, Core.setPcb_pcb_self]
  have hother : ∀ q, q ≠ u.currproc → w.pcb q = u.pcb q := by
    intro q hq
    rw [hw, setPcb_toCore, Core.setPcb_pcb_ne _ _ hq]
  have hread : ∀ q, w.Reading q ↔ u.Reading q ∨ q = u.currproc := by
    intro q
    unfold Core.Reading
    by_cases hq : q = u.currproc
    · rw [hq, hself]
      simp
    · rw [hother q hq]
      simp [hq]
  have hidle : ¬ w.Reading .idle := by
    rw [hread]
    rintro (hi | hi)
    · exact h.idle hi
    · exact hcur hi.symm
  obtain ⟨hc, hrun⟩ := reschedule_calm hs hidle
  refine ⟨hrun, ?_, ?_, ?_, fun q => ?_, fun q => (hc.reading q).trans (hread q)⟩
  · rw [hc.kbd, hw]
    rfl
  · rw [hc.gDeviceTable, hw]
    rfl
  · rw [hc.toHeap, hw]
    rfl
  · refine Pcb.SameData.trans ?_ (hc.pcb q)
    by_cases hq : q = u.currproc
    · rw [hq, hself]
      exact rfl
    · rw [hother q hq]
      exact Pcb.SameData.refl _

theorem DeviceStep.sane {req : SyscallRequest} (h : Sane s) (h' : DeviceStep s req s') : Sane s' := by
  cases h' with
  | kept _ _ h' => exact h.handles h' fun _ => id
  | signalled p _ hp h' => exact h.handles h' fun _ hq => hq.1
  | create r u h' => exact (h.createOutcome h').setRet r
  | ended _ heap u v w _ hu hv hw hs =>
    have hsv := ((h.setHeap heap).quiet hu).closesSome hv
    have hc : v.currproc = s.currproc := hv.fdsOnly.currproc.trans hu.currproc
    rw [← hc] at hw
    obtain ⟨hcalm, hrun⟩ := ended_calm hsv hw hs
    exact hsv.calm hcalm hrun
  | opened e fd k hfd hk =>
    have hkbd := h.setKbd (k := k) fun i => by rw [(kbdOpen_tasks hk).1]
    exact (hkbd.setFds (fun t => Function.update t fd (some e)) s.currproc).setRet _
  | closed i u r h' => exact (h.closes h').setRet r
  | ioctl e f r =>
    refine Sane.setRet ?_ r
    exact h.setKbd fun _ => rfl
  | read i u hi hd hu hdone hr => exact ((h.startRead _ _).flushes hu).setRet _
  | blocked i u _ hi hd hu hdone hr hs =>
    have hsu := (h.startRead (i := i) _ _).flushes hu
    have hcur : u.currproc = .table i := hu.currproc.trans hi
    obtain ⟨hrun, hkbd, -, -, hdata, hread⟩ := blockedRead hsu (by rw [hcur]; simp) hs
    refine ⟨hrun, fun hr => ?_, fun j => ?_, fun k p hk => ?_⟩
    · rcases (hread _).mp hr with hr | hr
      · exact hsu.idle hr
      · rw [hcur] at hr
        simp at hr
    · rw [(hdata _).pid]
      exact hsu.pids j
    · rw [hkbd] at hk
      exact hsu.tasks k p hk
  | key c flag _ h' =>
    cases h' with
    | ignored hc heq =>
      rw [heq]
      exact h.setKbd fun _ => rfl
    | typed hc hr hstep =>
      refine Sane.charStep ?_ hstep
      exact h.setKbd fun _ => rfl
    | stored hc hr hroom heq =>
      rw [heq]
      exact h.setKbd fun _ => rfl

/-! ## The way to the handler -/

/-- What the way through user mode to a handler leaves alone. -/
structure SameDevices (s s' : KernelOf Q) : Prop where
  kbd : s'.kbd = s.kbd
  gDeviceTable : s'.gDeviceTable = s.gDeviceTable
  currproc : s'.currproc = s.currproc
  queues : s'.queues = s.queues
  image : s'.image = s.image
  gFreeList : s'.gFreeList = s.gFreeList
  pid : ∀ p, (s'.pcb p).pid = (s.pcb p).pid
  state : ∀ p, (s'.pcb p).currState = (s.pcb p).currState
  name : ∀ p, (s'.pcb p).blockingQueueName = (s.pcb p).blockingQueueName
  fdTable : ∀ p, (s'.pcb p).fdTable = (s.pcb p).fdTable

omit [ProcLists Q] in
theorem atTrap_sameDevices {t : Trap} (h : s.atTrap t = some s') : SameDevices s s' := by
  unfold atTrap at h
  obtain ⟨u, hu, rfl⟩ := Option.map_eq_some_iff.mp h
  obtain ⟨hsame, hq⟩ := enterUser_fields hu
  have hleave : ∀ p, ((u.leaveUser u.currproc t).pcb p).pid = (u.pcb p).pid ∧
      ((u.leaveUser u.currproc t).pcb p).currState = (u.pcb p).currState ∧
      ((u.leaveUser u.currproc t).pcb p).blockingQueueName = (u.pcb p).blockingQueueName ∧
      ((u.leaveUser u.currproc t).pcb p).fdTable = (u.pcb p).fdTable := by
    intro p
    unfold leaveUser
    by_cases hp : p = u.currproc
    · rw [hp, setPcb_toCore, Core.setPcb_pcb_self]
      exact ⟨rfl, rfl, rfl, rfl⟩
    · rw [setPcb_toCore, Core.setPcb_pcb_ne _ _ hp]
      exact ⟨rfl, rfl, rfl, rfl⟩
  exact ⟨hsame.kbd, hsame.gDeviceTable, hsame.currproc, hq, hsame.image, hsame.gFreeList,
    fun p => (hleave p).1.trans (congrArg ProcView.pid (hsame.view p)),
    fun p => (hleave p).2.1.trans (congrArg ProcView.state (hsame.view p)),
    fun p => (hleave p).2.2.1.trans (congrArg ProcView.queue (hsame.view p)),
    fun p => (hleave p).2.2.2.trans (hsame.fdTable p)⟩

omit [ProcLists Q] in
theorem SameDevices.reading (h : SameDevices s s') (p : PcbPtr) : s'.Reading p ↔ s.Reading p := by
  unfold Core.Reading
  rw [h.state, h.name]

omit [ProcLists Q] in
theorem Sane.sameDevices (h : Sane s) (h' : SameDevices s s') : Sane s' := by
  refine h.mono ?_ (fun p => (h'.reading p).mp) h'.pid fun k => by rw [h'.kbd]
  unfold Running
  rw [h'.currproc, h'.state]
  exact h.running

end KernelOf

end Xeros.Model
