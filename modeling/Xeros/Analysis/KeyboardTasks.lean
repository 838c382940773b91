import Xeros.Analysis.EndOfFile
import Xeros.Analysis.RingReads

/-!
# Keyboard tasks and blocked readers

A process that is blocked in a read should have its task registered, and a registered task should
belong to a process that is blocked in that read.  Each direction fails for one or two kinds of
steps, and holds in every run without them.
-/

set_option autoImplicit false

namespace Xeros.Analysis

open Xeros.Foundations Xeros.Model Xeros.Abstract Xeros.Interface KernelOf

section Steps

variable {s u v w s' : Kernel} {p : PcbPtr}

/-- No task is registered from `s` to `v`, and a reader goes on exactly if its task stays
registered. -/
structure Persists (s v : Kernel) : Prop where
  task : ∀ i, (v.kbd.gKbdTaskList i).waitingOnRead = true →
    (s.kbd.gKbdTaskList i).waitingOnRead = true
  request : ∀ i, (v.kbd.gKbdTaskList i).pcb = (s.kbd.gKbdTaskList i).pcb ∧
    (v.kbd.gKbdTaskList i).buf = (s.kbd.gKbdTaskList i).buf ∧
    (v.kbd.gKbdTaskList i).buflen = (s.kbd.gKbdTaskList i).buflen
  readers : ∀ p, v.Reading p → s.Reading p
  goesOn : ∀ i p, (v.kbd.gKbdTaskList i).waitingOnRead = true →
    (s.kbd.gKbdTaskList i).pcb = some p → s.Reading p → v.Reading p
  stays : ∀ i p, (s.kbd.gKbdTaskList i).waitingOnRead = true →
    (s.kbd.gKbdTaskList i).pcb = some p → v.Reading p →
    (v.kbd.gKbdTaskList i).waitingOnRead = true

theorem persists_same (htasks : v.kbd.gKbdTaskList = s.kbd.gKbdTaskList)
    (hread : ∀ p, v.Reading p ↔ s.Reading p) : Persists s v := by
  refine ⟨fun i hi => ?_, fun i => ?_, fun p => (hread p).mp, fun i p _ _ => (hread p).mpr,
    fun i p hi _ _ => ?_⟩
  · rwa [htasks] at hi
  · rw [htasks]
    exact ⟨rfl, rfl, rfl⟩
  · rwa [htasks]

theorem Persists.trans (h : Persists s u) (h' : Persists u v) : Persists s v := by
  refine ⟨fun i hi => h.task i (h'.task i hi), fun i => ?_, fun p hp => h.readers p (h'.readers p hp),
    fun i p hi hp hr => ?_, fun i p hi hp hr => ?_⟩
  · obtain ⟨h1, h2, h3⟩ := h.request i
    obtain ⟨h1', h2', h3'⟩ := h'.request i
    exact ⟨h1'.trans h1, h2'.trans h2, h3'.trans h3⟩
  · apply h'.goesOn i p hi
    · rw [(h.request i).1, hp]
    · exact h.goesOn i p (h'.task i hi) hp hr
  · have hu := h.stays i p hi hp (h'.readers p hr)
    apply h'.stays i p hu ?_ hr
    rw [(h.request i).1, hp]

theorem persists_calm (h : Calm s v) : Persists s v :=
  persists_same (by rw [h.kbd]) h.reading

theorem persists_handles (h : Handles s.Reading s v) : Persists s v :=
  persists_same (by rw [h.kept.kbd]) h.kept.reading

/-- A character that reaches all tasks. -/
theorem persists_broadcast {c : Option UInt8} (hs : Sane s) (h : Broadcast c allTasks s v) :
    Persists s v := by
  have htask : ∀ i, v.kbd.gKbdTaskList i = (s.kbd.gKbdTaskList i).receive c := by
    intro i
    rw [h.tasks, if_pos (List.mem_finRange i)]
  have hwait : ∀ i, (v.kbd.gKbdTaskList i).waitingOnRead =
      ((s.kbd.gKbdTaskList i).waitingOnRead && !(s.kbd.gKbdTaskList i).ends c) := by
    intro i
    rw [htask, KbdTask.receive_waiting]
  refine ⟨fun i hi => ?_, fun i => ?_, fun p hp => ((h.reading p).mp hp).1, fun i p hi hp hr => ?_,
    fun i p hi hp hr => ?_⟩
  · rw [hwait] at hi
    exact (Bool.and_eq_true_iff.mp hi).1
  · rw [htask]
    exact ⟨KbdTask.receive_pcb _ _, KbdTask.receive_request _ _⟩
  · refine (h.reading p).mpr ⟨hr, ?_⟩
    rintro ⟨j, hj, hjp⟩
    obtain rfl := hs.tasksOwned i j p hp hjp
    rw [hwait, hj, Bool.not_true, Bool.and_false] at hi
    cases hi
  · have hgo := ((h.reading p).mp hr).2
    rw [hwait, hi, Bool.true_and]
    by_contra hends
    exact hgo ⟨i, by simpa using hends, hp⟩

theorem persists_setKbd (k : Keyboard) (hk : k.gKbdTaskList = s.kbd.gKbdTaskList) :
    Persists s (s.setKbd k) := persists_same hk fun _ => Iff.rfl

theorem persists_charStep {c : UInt8} (hs : Sane s) (h : CharStep s c v) : Persists s v := by
  have hk := (noticed_tasks s.kbd c).1
  have hs' : Sane (s.setKbd (Keyboard.noticed s.kbd c)) := hs.setKbd fun i => by rw [hk]
  exact (persists_setKbd _ hk).trans (persists_broadcast hs' h.broadcast)

theorem persists_flushes (hs : Sane s) (h : Flushes s v) : Persists s v := by
  induction h with
  | refl => exact persists_same rfl fun _ => Iff.rfl
  | tail hab hstep ih =>
    obtain ⟨-, -, u, hu, rfl⟩ := hstep
    exact (ih.trans (persists_charStep (hs.flushes hab) hu)).trans (persists_setKbd _ rfl)

/-- The running process closes a descriptor: only its own task is affected. -/
theorem persists_closes {i : Fin pcbNumFds} (hs : Sane s) (hcur : s.currproc ≠ .idle)
    (h : Closes s.currproc i s v) : Persists s v := by
  obtain ⟨j, hj⟩ : ∃ j, s.currproc = .table j := by
    cases hc : s.currproc with
    | idle => exact absurd hc hcur
    | table j => exact ⟨j, rfl⟩
  have htasks : v.kbd.gKbdTaskList = Function.update s.kbd.gKbdTaskList (taskOf j)
      { s.kbd.gKbdTaskList (taskOf j) with waitingOnRead := false } := by
    rw [h.kbd, kbdClose_eq h.refcount, hj, hs.taskIndex j]
  have hread : ∀ q, v.Reading q ↔ s.Reading q := by
    intro q
    unfold Core.Reading
    by_cases hq : q = s.currproc
    · rw [hq, h.pcb_self]
    · rw [h.pcb_ne hq]
  have hother : ∀ k, k ≠ taskOf j → v.kbd.gKbdTaskList k = s.kbd.gKbdTaskList k := by
    intro k hk
    rw [htasks, Function.update_of_ne hk]
  have hself : v.kbd.gKbdTaskList (taskOf j) =
      { s.kbd.gKbdTaskList (taskOf j) with waitingOnRead := false } := by
    rw [htasks, Function.update_self]
  refine ⟨fun k hk => ?_, fun k => ?_, fun q => (hread q).mp, fun k q _ _ => (hread q).mpr,
    fun k q hk hkq hq => ?_⟩
  · by_cases hkj : k = taskOf j
    · rw [hkj, hself] at hk
      cases hk
    · rwa [hother k hkj] at hk
  · by_cases hkj : k = taskOf j
    · rw [hkj, hself]
      exact ⟨rfl, rfl, rfl⟩
    · rw [hother k hkj]
      exact ⟨rfl, rfl, rfl⟩
  · have hkj : k ≠ taskOf j := by
      rintro rfl
      obtain ⟨m, rfl, hm⟩ := hs.tasks _ q hkq
      obtain rfl := taskOf_injective hm
      apply hs.running.not_reading
      rw [hj]
      exact (hread _).mp hq
    rwa [hother k hkj]

theorem persists_closesSome (hs : Sane s) (hcur : s.currproc ≠ .idle)
    (h : ClosesSome s.currproc s v) : Persists s v := by
  induction h with
  | refl => exact persists_same rfl fun _ => Iff.rfl
  | @tail a b hab hstep ih =>
    obtain ⟨i, hc⟩ := hstep
    have hsa : Sane a := hs.closesSome hab
    have heq : a.currproc = s.currproc := (ClosesSome.fdsOnly hab).currproc
    exact ih.trans (persists_closes hsa (by rwa [heq]) (heq.symm ▸ hc))

/-- A keyboard interrupt. -/
theorem persists_key {c : UInt8} {flag : BitVec 32} (hs : Sane s) (h : KeyOutcome s c flag s') :
    Persists s s' := by
  have hflag := persists_setKbd (s := s) { s.kbd with gKeyboardKeystateFlag := flag } rfl
  cases h with
  | ignored hc heq =>
    rw [heq]
    exact hflag
  | typed hc hr hstep =>
    exact hflag.trans (persists_charStep (hs.setKbd fun _ => rfl) hstep)
  | stored hc hr hroom heq =>
    rw [heq]
    exact persists_setKbd _ rfl

/-- A read reached the driver, which emptied the ring. -/
structure DriverRead (s : Kernel) (i : Fin pcbTableSize) (u : Kernel) : Prop where
  current : s.currproc = .table i
  reaches : s.ReachesDriver
  flushes : Flushes (s.startRead (.table i) (s.arg 1) (toInt (s.arg 2))) u
  done : FlushDone u

/-- The dispatcher returns the result of the read, or blocks the process. -/
def ReadReturns (s : Kernel) (i : Fin pcbTableSize) (u s' : Kernel) : Prop :=
  readResult u.kbd (taskOf i) (toInt (s.arg 2)) ≠ blockerr ∧
      s' = u.setRet (readResult u.kbd (taskOf i) (toInt (s.arg 2))) ∨
    readResult u.kbd (taskOf i) (toInt (s.arg 2)) = blockerr ∧
      ((u.setRet blockerr).blockCurrent.setPcb u.currproc fun x =>
        { x with blockingQueueName := .device }).reschedule = some s'

/-- What a request does to tasks and readers. -/
inductive TaskStep (s : Kernel) (req : SyscallRequest) (s' : Kernel) : Prop where
  | persists (h : Persists s s')
  | signalled (p : PcbPtr) (hreq : req = .kill) (hp : s.Reading p)
      (h : Handles (fun q => s.Reading q ∧ q ≠ p) s s')
  | read (i : Fin pcbTableSize) (u : Kernel) (hreq : req = .read) (h : DriverRead s i u)
      (hr : ReadReturns s i u s')

/-- Every turn of the dispatcher is such a step. -/
theorem taskStep {req : SyscallRequest} {t : Trap} (hs : Sane s)
    (hcur : req ≠ .timerInt → req ≠ .keyboardInt → s.currproc ≠ .idle)
    (hdis : s.dispatchRequest t req = some s') : TaskStep s req s' := by
  by_cases htimer : req = .timerInt
  · subst htimer
    exact .persists (persists_handles (timerHandler_handles hdis hs.running hs.idle))
  by_cases hkey : req = .keyboardInt
  · subst hkey
    exact .persists (persists_key hs (keyboardIsr_outcome hs.tasksOwned hdis))
  have hidle := hcur htimer hkey
  cases dispatchRequest_step hs (fun _ => hidle) hdis with
  | kept _ _ h => exact .persists (persists_handles h)
  | signalled p _ hp h => exact .signalled p rfl hp h
  | create r u h =>
    refine .persists (Persists.trans ?_ (persists_calm (calm_setRet u r)))
    cases h with
    | failed heap => exact persists_same rfl fun _ => Iff.rfl
    | filled p k heap x hp hpid hfd hx =>
      refine persists_same rfl fun q => ?_
      unfold Core.Reading
      by_cases hq : q = p
      · rw [hq, withSlot_pcb_self]
        constructor
        · rintro ⟨hb, -⟩
          rcases hx with hx | hx <;> rw [hx] at hb <;> cases hb
        · rintro ⟨hb, -⟩
          rcases hp with hp | hp <;> rw [hp] at hb <;> cases hb
      · rw [withSlot_pcb_ne _ _ _ hq]
        exact Iff.rfl
  | ended _ heap u v w _ hu hv hw he =>
    have hsu := (hs.setHeap heap).quiet hu
    have hcu : u.currproc = s.currproc := hu.currproc
    rw [← hcu] at hv hw
    have hsv := hsu.closesSome hv
    have hcv : v.currproc = u.currproc := hv.fdsOnly.currproc
    rw [← hcv] at hw
    have hheap : Persists s (s.setHeap heap) := persists_same rfl fun _ => Iff.rfl
    have hclose := persists_closesSome hsu (by rwa [hcu]) hv
    exact .persists (((hheap.trans (persists_calm hu.toCalm)).trans hclose).trans
      (persists_calm (ended_calm hsv hw he).1))
  | opened e fd k hfd hk =>
    refine .persists (Persists.trans (u := s.setKbd k) ?_ ?_)
    · exact persists_setKbd k (kbdOpen_tasks hk).1
    · refine persists_same rfl fun q => ?_
      unfold Core.Reading setRet
      by_cases hq : q = s.currproc
      · rw [hq]
        simp only [setPcb_toCore, setKbd, Core.setPcb_pcb_self, Core.setPcb_currproc]
      · simp only [setPcb_toCore, setKbd, Core.setPcb_currproc, Core.setPcb_pcb_ne _ _ hq]
  | closed i u r h =>
    exact .persists ((persists_closes hs hidle h).trans (persists_calm (calm_setRet u r)))
  | ioctl e f r =>
    refine .persists (Persists.trans ?_ (persists_calm (calm_setRet _ r)))
    exact persists_setKbd _ rfl
  | read i u hi hd hu hdone hr => exact .read i u rfl ⟨hi, hd, hu, hdone⟩ (.inl ⟨hr, rfl⟩)
  | blocked i u _ hi hd hu hdone hr he => exact .read i u rfl ⟨hi, hd, hu, hdone⟩ (.inr ⟨hr, he⟩)
  | key c flag _ h => exact .persists (persists_key hs h)

/-! ## The steps that go wrong -/

/-- Every registered task belongs to a process that is blocked in a read. -/
def TasksBlocked (s : Kernel) : Prop :=
  ∀ i, (s.kbd.gKbdTaskList i).waitingOnRead = true →
    ∃ p, (s.kbd.gKbdTaskList i).pcb = some p ∧ s.Reading p

/-- Every process that is blocked in a read has a registered task. -/
def ReadersRegistered (s : Kernel) : Prop :=
  ∀ p, s.Reading p → ∃ i, (s.kbd.gKbdTaskList i).waitingOnRead = true ∧
    (s.kbd.gKbdTaskList i).pcb = some p

/-- `kill` sends a signal that has a handler to a process with a registered task. -/
def InterruptsRead (s : Kernel) (req : SyscallRequest) : Prop :=
  req = .kill ∧ ∃ p, s.pidToProc (toInt (s.arg 0)) = some p ∧ s.Reading p ∧
    (∃ i, (s.kbd.gKbdTaskList i).waitingOnRead = true ∧ (s.kbd.gKbdTaskList i).pcb = some p) ∧
    0 ≤ toInt (s.arg 1) ∧ toInt (s.arg 1) < signalTableSize ∧
    s.handlerOf p (toInt (s.arg 1)).toNat ≠ 0

/-- The end of file was noticed before, and the ring does not complete the read. -/
def AbandonsRead (s : Kernel) (req : SyscallRequest) : Prop :=
  req = .read ∧ s.ReachesDriver ∧ s.kbd.gKbdDone = true ∧
    (∀ c ∈ ringContents s.kbd, Plain s.kbd c) ∧
    ((ringContents s.kbd).length : ℤ) < toInt (s.arg 2)

/-- The end of file was not noticed, and the ring has a newline, before which there is no end of
file, and which does not fill the buffer. -/
def LosesWakeup (s : Kernel) (req : SyscallRequest) : Prop :=
  req = .read ∧ s.ReachesDriver ∧ s.kbd.gKbdDone = false ∧ newline ≠ s.kbd.gKeyboardEof ∧
    ∃ m : ℕ, (ringContents s.kbd)[m]? = some newline ∧ (m : ℤ) + 1 < toInt (s.arg 2) ∧
      ∀ c ∈ (ringContents s.kbd).take m, Plain s.kbd c

/-- A signal that is not sent to a registered reader interrupts no read that counts. -/
theorem kill_handles {r : ℤ × Kernel} (hrun : Running s) (hs : s.dispatchSyscallKill = some r) :
    Handles s.Reading s (setRetOf r) ∨ ∃ p, s.pidToProc (toInt (s.arg 0)) = some p ∧
      s.Reading p ∧ 0 ≤ toInt (s.arg 1) ∧ toInt (s.arg 1) < signalTableSize ∧
      s.handlerOf p (toInt (s.arg 1)).toNat ≠ 0 ∧
      Handles (fun q => s.Reading q ∧ q ≠ p) s (setRetOf r) := by
  obtain ⟨r, u⟩ := r
  rw [setRetOf_mk]
  unfold dispatchSyscallKill at hs
  dsimp only at hs
  cases hp : s.pidToProc (toInt (s.arg 0)) with
  | none =>
    rw [hp] at hs
    obtain ⟨rfl, rfl⟩ := Prod.mk.inj (Option.some.inj hs)
    exact .inl ((handles_refl hrun).setRet _)
  | some p =>
    rw [hp] at hs
    dsimp only at hs
    rcases setProcSignal_handles hs hrun with hk | ⟨hread, hk⟩
    · exact .inl (hk.setRet r)
    · unfold setProcSignal at hs
      split_ifs at hs with hsignal hhandler
      · obtain ⟨rfl, rfl⟩ := Prod.mk.inj (Option.some.inj hs)
        exact .inl ((handles_refl hrun).setRet _)
      · rw [not_or] at hsignal
        exact .inr ⟨p, rfl, hread, by omega, by omega, hhandler, hk.setRet r⟩
      · obtain ⟨rfl, rfl⟩ := Prod.mk.inj (Option.some.inj hs)
        exact .inl ((handles_refl hrun).setRet _)

/-- The rest of a read that reached the driver. -/
theorem DriverRead.returns {i : Fin pcbTableSize} (hs : Sane s) (h : DriverRead s i u)
    (hresult : ReadReturns s i u s') : Sane u ∧ u.currproc = .table i ∧ s'.kbd = u.kbd ∧
      (readResult u.kbd (taskOf i) (toInt (s.arg 2)) = blockerr →
        ∀ q, s'.Reading q ↔ u.Reading q ∨ q = .table i) ∧
      (readResult u.kbd (taskOf i) (toInt (s.arg 2)) ≠ blockerr →
        ∀ q, s'.Reading q ↔ u.Reading q) := by
  have hsu := (hs.startRead (i := i) _ _).flushes h.flushes
  have hcu : u.currproc = .table i := (KernelOf.Flushes.currproc h.flushes).trans h.current
  refine ⟨hsu, hcu, ?_, ?_, ?_⟩
  · rcases hresult with ⟨-, rfl⟩ | ⟨-, he⟩
    · rfl
    · exact (blockedRead hsu (by rw [hcu]; simp) he).2.1
  · intro hblock q
    rcases hresult with ⟨hne, -⟩ | ⟨-, he⟩
    · exact absurd hblock hne
    · rw [(blockedRead hsu (by rw [hcu]; simp) he).2.2.2.2.2 q, hcu]
  · intro hne q
    rcases hresult with ⟨-, rfl⟩ | ⟨hblock, -⟩
    · exact (calm_setRet u _).reading q
    · exact absurd hblock hne

/-- Other tasks than that of the reader persist. -/
theorem startRead_others {i : Fin pcbTableSize} (hs : Sane s) (buf : ℕ) (buflen : ℤ)
    {k : Fin kbdTaskListSize} (hk : k ≠ taskOf i) :
    (s.startRead (.table i) buf buflen).kbd.gKbdTaskList k = s.kbd.gKbdTaskList k := by
  show Function.update s.kbd.gKbdTaskList (taskIndex (s.pcb (.table i)).pid) _ k = _
  rw [hs.taskIndex i, Function.update_of_ne hk]

theorem startRead_own {i : Fin pcbTableSize} (hs : Sane s) (buf : ℕ) (buflen : ℤ) :
    (s.startRead (.table i) buf buflen).kbd.gKbdTaskList (taskOf i) =
      ⟨some (.table i), buf, buflen, 0, true⟩ := by
  show Function.update s.kbd.gKbdTaskList (taskIndex (s.pcb (.table i)).pid) _ (taskOf i) = _
  rw [hs.taskIndex i, Function.update_self]

/-- A process that runs has no registered task. -/
theorem TasksBlocked.fresh (h : TasksBlocked s) (hs : Sane s) {i : Fin pcbTableSize}
    (hi : s.currproc = .table i) : ¬ StaleRead s := by
  rintro ⟨-, hw⟩
  obtain ⟨q, hq, hread⟩ := h _ hw
  obtain ⟨j, rfl, hj⟩ := hs.tasks _ q hq
  have hidx : taskOf i = taskOf j := by
    rw [← hj, Core.current, hi, hs.taskIndex i]
  rw [← taskOf_injective hidx, ← hi] at hread
  exact hs.running.not_reading hread

/-- The driver's variables are in range when a read is registered, and after the ring is emptied. -/
theorem DriverRead.inBounds {i : Fin pcbTableSize} (hb : InBounds s.kbd)
    (h : DriverRead s i u) :
    InBounds (s.startRead (.table i) (s.arg 1) (toInt (s.arg 2))).kbd ∧ InBounds u.kbd := by
  have hstart : InBounds (s.startRead (.table i) (s.arg 1) (toInt (s.arg 2))).kbd :=
    hb.step (.register _ _ _ _ (length_of_verified h.reaches.verified))
  exact ⟨hstart, kbdSteps_inv (fun _ _ => InBounds.step)
    (KernelOf.Flushes.kbdUses h.flushes).kbdSteps hstart⟩

/-- A read that does not block leaves no task, unless it is abandoned. -/
theorem DriverRead.unregistered {i : Fin pcbTableSize} (hs : Sane s) (hb : InBounds s.kbd)
    (hcount : Counted s.kbd) (hblocked : TasksBlocked s) (h : DriverRead s i u)
    (hr : readResult u.kbd (taskOf i) (toInt (s.arg 2)) ≠ blockerr)
    (hleft : ¬ AbandonsRead s .read) : (u.kbd.gKbdTaskList (taskOf i)).waitingOnRead = false := by
  have hlen := length_of_verified h.reaches.verified
  obtain ⟨hbs, hbu⟩ := h.inBounds hb
  rcases taking_flushes hbs hlen.2 (taking_start hs (s.arg 1) hlen.1) h.flushes with
    ⟨m, hm⟩ | ⟨-, hoff⟩
  · exfalso
    have hcu : Counted u.kbd :=
      (hcount.startRead h.current h.reaches (hblocked.fresh hs h.current)).flushes h.flushes
    -- the loop stopped although the task is registered, so the ring is empty
    have hempty : ringContents u.kbd = [] := by
      rcases h.done with hle | heq
      · have hnone := hcu.none_waiting hle (taskOf i)
        rw [hm.waiting] at hnone
        cases hnone
      · exact ringContents_empty hbu heq
    have hall : m = (ringContents s.kbd).length := by
      have hle := hm.taken
      have hge := List.drop_eq_nil_iff.mp (hm.ring.symm.trans hempty)
      omega
    have hdone : s.kbd.gKbdDone = true := by
      have hne : (u.kbd.gKbdTaskList (taskOf i)).i ≠ toInt (s.arg 2) := by
        rw [hm.index]
        exact hm.short.ne
      unfold readResult at hr
      rw [if_neg hne, hm.done] at hr
      by_contra hd
      exact hr (if_neg hd)
    refine hleft ⟨rfl, h.reaches, hdone, ?_, ?_⟩
    · have hplain := hm.plain
      rwa [hall, List.take_length] at hplain
    · rw [← hall]
      exact hm.short
  · exact hoff

/-- A read that blocks leaves its task, unless it loses its wake-up. -/
theorem DriverRead.registered {i : Fin pcbTableSize} (hs : Sane s) (hb : InBounds s.kbd)
    (h : DriverRead s i u)
    (hr : readResult u.kbd (taskOf i) (toInt (s.arg 2)) = blockerr)
    (hlost : ¬ LosesWakeup s .read) : (u.kbd.gKbdTaskList (taskOf i)).waitingOnRead = true := by
  have hlen := length_of_verified h.reaches.verified
  have hneg : blockerr < 0 := by decide
  unfold readResult at hr
  split_ifs at hr with hfull hdone
  · omega
  · have hindex := ((h.inBounds hb).2.index (taskOf i)).1
    omega
  · rcases taking_flushes (h.inBounds hb).1 hlen.2 (taking_start hs (s.arg 1) hlen.1) h.flushes with
      ⟨m, hm⟩ | ⟨hends, -⟩
    · exact hm.waiting
    · exfalso
      cases hends with
      | full hi => exact hfull hi
      | eof hd => exact hdone hd
      | newline m hm hshort hplain heof hd =>
        refine hlost ⟨rfl, h.reaches, ?_, heof, m, hm, hshort, hplain⟩
        exact Bool.eq_false_iff.mpr fun hk => hdone (hd hk)

/-- Where a task that is registered after the step comes from. -/
inductive TaskSource (s : Kernel) (req : SyscallRequest) (s' : Kernel) (k : Fin kbdTaskListSize) :
    Prop where
  | before (hw : (s.kbd.gKbdTaskList k).waitingOnRead = true)
      (hsame : (s'.kbd.gKbdTaskList k).pcb = (s.kbd.gKbdTaskList k).pcb ∧
        (s'.kbd.gKbdTaskList k).buf = (s.kbd.gKbdTaskList k).buf ∧
        (s'.kbd.gKbdTaskList k).buflen = (s.kbd.gKbdTaskList k).buflen)
      (hread : ∀ p, (s.kbd.gKbdTaskList k).pcb = some p → s.Reading p → s'.Reading p)
  | started (hreq : req = .read)
      (hown : (s'.kbd.gKbdTaskList k).pcb = some s.currproc ∧
        (s'.kbd.gKbdTaskList k).buf = s.arg 1 ∧
        (s'.kbd.gKbdTaskList k).buflen = toInt (s.arg 2))
      (hread : s'.Reading s.currproc)

/-- A step that neither interrupts nor abandons a read. -/
theorem step_source {req : SyscallRequest} {t : Trap} (hs : Sane s) (hb : InBounds s.kbd)
    (hcount : Counted s.kbd) (hblocked : TasksBlocked s)
    (hcur : req ≠ .timerInt → req ≠ .keyboardInt → s.currproc ≠ .idle)
    (hdis : s.dispatchRequest t req = some s') (hkill : ¬ InterruptsRead s req)
    (hleft : ¬ AbandonsRead s req) {k : Fin kbdTaskListSize}
    (hk : (s'.kbd.gKbdTaskList k).waitingOnRead = true) : TaskSource s req s' k := by
  have hpersists : Persists s s' → TaskSource s req s' k := fun h =>
    .before (h.task k hk) (h.request k) fun p hp hr => h.goesOn k p hk hp hr
  cases taskStep hs hcur hdis with
  | persists h => exact hpersists h
  | signalled p hreq hp h =>
    subst hreq
    have hmap : s.dispatchSyscallKill.map setRetOf = some s' := hdis
    obtain ⟨r, hr, rfl⟩ := Option.map_eq_some_iff.mp hmap
    rcases kill_handles hs.running hr with h | ⟨q, hq, hread, h0, h1, hhandler, h⟩
    · exact hpersists (persists_handles h)
    · have hkbd := h.kept.kbd
      rw [hkbd] at hk
      refine .before hk (by rw [hkbd]; exact ⟨rfl, rfl, rfl⟩) fun o ho hro => ?_
      refine (h.kept.reading o).mpr ⟨hro, ?_⟩
      rintro rfl
      exact hkill ⟨rfl, o, hq, hread, ⟨k, hk, ho⟩, h0, h1, hhandler⟩
  | read i u hreq h hresult =>
    obtain ⟨hsu, hcu, hkbd, hblock, hreturn⟩ := h.returns hs hresult
    have hstart := hs.startRead (i := i) (s.arg 1) (toInt (s.arg 2))
    have hp := persists_flushes hstart h.flushes
    have hsub : ∀ q, u.Reading q → s'.Reading q := by
      intro q hq
      by_cases hr : readResult u.kbd (taskOf i) (toInt (s.arg 2)) = blockerr
      · exact (hblock hr q).mpr (.inl hq)
      · exact (hreturn hr q).mpr hq
    rw [hkbd] at hk
    by_cases hki : k = taskOf i
    · subst hki
      obtain ⟨h1, h2, h3⟩ := hp.request (taskOf i)
      rw [startRead_own hs] at h1 h2 h3
      have hlen := length_of_verified h.reaches.verified
      by_cases hr : readResult u.kbd (taskOf i) (toInt (s.arg 2)) = blockerr
      · refine .started hreq ?_ ?_
        · rw [hkbd, h.current]
          exact ⟨h1, h2, h3⟩
        · rw [h.current]
          exact (hblock hr _).mpr (.inr rfl)
      · rw [h.unregistered hs hb hcount hblocked hr fun ha => hleft (hreq ▸ ha)] at hk
        cases hk
    · have hsame := startRead_others (i := i) hs (s.arg 1) (toInt (s.arg 2)) hki
      have hw := hp.task k hk
      have hreq' := hp.request k
      rw [hsame] at hw hreq'
      refine .before hw (by rw [hkbd]; exact hreq') fun p hp' hr => hsub p ?_
      apply hp.goesOn k p hk
      · rw [hsame, hp']
      · exact hr

/-- A step that does not lose a wake-up. -/
theorem step_readers {req : SyscallRequest} {t : Trap} (hs : Sane s) (hb : InBounds s.kbd)
    (hreg : ReadersRegistered s)
    (hcur : req ≠ .timerInt → req ≠ .keyboardInt → s.currproc ≠ .idle)
    (hdis : s.dispatchRequest t req = some s') (hlost : ¬ LosesWakeup s req) :
    ReadersRegistered s' := by
  intro p hp
  cases taskStep hs hcur hdis with
  | persists h =>
    obtain ⟨i, hw, hi⟩ := hreg p (h.readers p hp)
    exact ⟨i, h.stays i p hw hi hp, (h.request i).1.trans hi⟩
  | signalled q hreq hq h =>
    obtain ⟨i, hw, hi⟩ := hreg p ((h.kept.reading p).mp hp).1
    rw [h.kept.kbd]
    exact ⟨i, hw, hi⟩
  | read i u hreq h hresult =>
    subst hreq
    obtain ⟨hsu, hcu, hkbd, hblock, hreturn⟩ := h.returns hs hresult
    have hstart := hs.startRead (i := i) (s.arg 1) (toInt (s.arg 2))
    have hflush := persists_flushes hstart h.flushes
    have hothers : u.Reading p → ∃ k, (u.kbd.gKbdTaskList k).waitingOnRead = true ∧
        (u.kbd.gKbdTaskList k).pcb = some p := by
      intro hup
      have hsp : s.Reading p := hflush.readers p hup
      obtain ⟨k, hw, hk⟩ := hreg p hsp
      have hki : k ≠ taskOf i := by
        rintro rfl
        obtain ⟨j, rfl, hj⟩ := hs.tasks _ p hk
        rw [← taskOf_injective hj, ← h.current] at hsp
        exact hs.running.not_reading hsp
      rw [← startRead_others hs (s.arg 1) (toInt (s.arg 2)) hki] at hw hk
      exact ⟨k, hflush.stays k p hw hk hup, (hflush.request k).1.trans hk⟩
    rw [hkbd]
    by_cases hr : readResult u.kbd (taskOf i) (toInt (s.arg 2)) = blockerr
    · rcases (hblock hr p).mp hp with hup | rfl
      · exact hothers hup
      · refine ⟨taskOf i, h.registered hs hb hr hlost, ?_⟩
        rw [(hflush.request _).1, startRead_own hs]
    · exact hothers ((hreturn hr p).mp hp)

/-- While the driver looks at its tasks, they belong to blocked readers, or to the one that reads
now. -/
theorem TasksBlocked.moment {req : SyscallRequest} (hs : Sane s) (h : TasksBlocked s)
    (hcur : req = .read → s.currproc ≠ .idle) (hu : Moment s req u) {k : Fin kbdTaskListSize}
    (hk : (u.kbd.gKbdTaskList k).waitingOnRead = true) :
    ∃ p, (u.kbd.gKbdTaskList k).pcb = some p ∧ (u.Reading p ∨ req = .read ∧ p = s.currproc) := by
  cases hu with
  | key flag =>
    obtain ⟨p, hp, hread⟩ := h k hk
    exact ⟨p, hp, .inl hread⟩
  | read _ hok hrounds =>
    obtain ⟨i, hi⟩ : ∃ i, s.currproc = .table i := by
      cases hc : s.currproc with
      | idle => exact absurd hc (hcur rfl)
      | table i => exact ⟨i, rfl⟩
    rw [hi] at hrounds ⊢
    have hstart := hs.startRead (i := i) (s.arg 1) (toInt (s.arg 2))
    have hp := persists_flushes hstart (hrounds.flushes hstart.tasksOwned).1
    rw [(hp.request k).1]
    by_cases hki : k = taskOf i
    · refine ⟨.table i, ?_, .inr ⟨rfl, rfl⟩⟩
      rw [hki, startRead_own hs]
    · have hw := hp.task k hk
      have hsame := startRead_others (i := i) hs (s.arg 1) (toInt (s.arg 2)) hki
      rw [hsame] at hw ⊢
      obtain ⟨p, hpk, hread⟩ := h k hw
      exact ⟨p, hpk, .inl (hp.goesOn k p hk (by rw [hsame, hpk]) hread)⟩

end Steps

/-! ## Runs -/

/-- Some step before `n` was the read that the task `t` is about, and the process that made it has
been blocked in it since. -/
def InsideRead (r : Run Links) (n : ℕ) (t : KbdTask) : Prop :=
  ∃ k < n, ∃ s, (r.state k).atTrap (r.input k) = some s ∧ (r.input k).request = some .read ∧
    t.pcb = some s.currproc ∧ t.buf = s.arg 1 ∧ t.buflen = toInt (s.arg 2) ∧
    ∀ m, k < m → m ≤ n → (r.state m).Reading s.currproc

/-- Every registered task belongs to a process that is blocked in that read. -/
def NoStaleTask (r : Run Links) (n : ℕ) : Prop :=
  ∀ i, ((r.state n).kbd.gKbdTaskList i).waitingOnRead = true →
    InsideRead r n ((r.state n).kbd.gKbdTaskList i)

/-- The process is blocked in a read, or makes one in this turn. -/
def InReadNow (s u : Kernel) (req : SyscallRequest) (p : PcbPtr) : Prop :=
  u.Reading p ∨ req = .read ∧ p = s.currproc

/-- In the turn that begins with the handler of `req` in `s`, a character changes only processes
that are in a read, and is stored only in their buffers. -/
structure TouchesReaders (s : Kernel) (req : SyscallRequest) : Prop where
  untouched : ∀ u v c p, Moment s req u → u.keyboardProcessChar c = some v →
    ¬ InReadNow s u req p → v.pcb p = u.pcb p
  stored : ∀ u v c a, Moment s req u → u.keyboardProcessChar c = some v →
    load8 v.mem a ≠ load8 u.mem a → ∃ i p j, (u.kbd.gKbdTaskList i).waitingOnRead = true ∧
      (u.kbd.gKbdTaskList i).pcb = some p ∧ InReadNow s u req p ∧
      0 ≤ j ∧ j < (u.kbd.gKbdTaskList i).buflen ∧
      a % 4294967296 = toWord ((u.kbd.gKbdTaskList i).buf + j)

theorem NoStaleTask.blocked {r : Run Links} {n : ℕ} (h : NoStaleTask r n) :
    TasksBlocked (r.state n) := by
  intro i hi
  obtain ⟨k, hk, s, -, -, hp, -, -, hread⟩ := h i hi
  exact ⟨s.currproc, hp, hread n hk le_rfl⟩

/-- Nothing else than the registered tasks decides what a character changes. -/
theorem touchesReaders {s : Kernel} {req : SyscallRequest} (hs : Sane s) (hb : InBounds s.kbd)
    (hcur : req = .read → s.currproc ≠ .idle) (h : TasksBlocked s) : TouchesReaders s req := by
  constructor
  · intro u v c p hu hc hp
    have hown := (hu.inBounds hs hcur hb).2
    have hbr := (keyboardProcessChar_step hown hc).broadcast
    have hkept := hbr.other p
    apply hkept
    intro i _ hends hip
    have hw := KbdTask.ends_waiting hends
    change ((Keyboard.noticed u.kbd c).gKbdTaskList i).waitingOnRead = true at hw
    change ((Keyboard.noticed u.kbd c).gKbdTaskList i).pcb = some p at hip
    rw [(noticed_tasks u.kbd c).1] at hw hip
    obtain ⟨q, hq, hin⟩ := h.moment hs hcur hu hw
    obtain rfl := Option.some.inj (hq.symm.trans hip)
    exact hp hin
  · intro u v c a hu hc ha
    obtain ⟨i, j, hw, h0, hlt, heq⟩ := (staysInside hs hcur hb).stored u v c a hu hc ha
    obtain ⟨p, hp, hin⟩ := h.moment hs hcur hu hw
    exact ⟨i, p, j, hw, hp, hin, h0, hlt, heq⟩

section Runs

variable (r : Run Links) {n : ℕ}

/-- The process that makes a system call is not the idle process. -/
theorem current_ne_idle (hn : n < r.len) {s : Kernel} {req : SyscallRequest}
    (hreq : (r.input n).request = some req) (hsame : SameDevices (r.state n) s) :
    req ≠ .timerInt → req ≠ .keyboardInt → s.currproc ≠ .idle := by
  intro ht hk
  rw [hsame.currproc]
  exact (r.allows n hn).1 (syscall_of_request hreq ht hk)

theorem run_inBounds {s : Kernel} (hn : n ≤ r.len) (hsame : SameDevices (r.state n) s) :
    InBounds s.kbd := by
  rw [hsame.kbd]
  exact r.kbd_inv inBounds_boot (fun _ _ => InBounds.step) hn

/-- A step of a run that neither interrupts nor abandons a read. -/
theorem noStaleTask_step (hn : n < r.len) (hcount : Counted (r.state n).kbd)
    (h : NoStaleTask r n)
    (hok : ∀ s req, (r.state n).atTrap (r.input n) = some s → (r.input n).request = some req →
      ¬ InterruptsRead s req ∧ ¬ AbandonsRead s req) :
    Counted (r.state (n + 1)).kbd ∧ NoStaleTask r (n + 1) := by
  obtain ⟨s, req, hs, hreq, hsame, hsane, hcur, hdis, hdev⟩ := r.device hn
  have hb := run_inBounds r hn.le hsame
  have hcount' : Counted s.kbd := by rwa [hsame.kbd]
  have hblocked : TasksBlocked s := by
    intro i hi
    rw [hsame.kbd] at hi ⊢
    obtain ⟨p, hp, hread⟩ := h.blocked i hi
    exact ⟨p, hp, (hsame.reading p).mpr hread⟩
  obtain ⟨hkill, hleft⟩ := hok s req hs hreq
  constructor
  · refine hcount'.step hsane hdev fun hr => ?_
    cases hi : s.currproc with
    | idle => exact absurd hi (hcur hr)
    | table i => exact hblocked.fresh hsane hi
  · intro i hi
    cases step_source hsane hb hcount' hblocked (current_ne_idle r hn hreq hsame) hdis hkill hleft
      hi with
    | before hw hsame' hread =>
      rw [hsame.kbd] at hw hsame' hread
      obtain ⟨k, hk, t, ht, htreq, hp, hbuf, hlen, hgo⟩ := h i hw
      refine ⟨k, by omega, t, ht, htreq, hsame'.1.trans hp, hsame'.2.1.trans hbuf,
        hsame'.2.2.trans hlen, fun m hkm hm => ?_⟩
      rcases Nat.lt_succ_iff_lt_or_eq.mp (Nat.lt_succ_iff.mpr hm) with hlt | rfl
      · exact hgo m hkm (by omega)
      · exact hread _ hp ((hsame.reading _).mpr (hgo n hk le_rfl))
    | started hr hown hread =>
      subst hr
      refine ⟨n, by omega, s, hs, hreq, hown.1, hown.2.1, hown.2.2, fun m hnm hm => ?_⟩
      obtain rfl : m = n + 1 := by omega
      exact hread

/-- In every run in which no signal interrupts a registered reader, and no read is left open by an
end of file noticed before, each registered task belongs to a process that is blocked in that very
read, and characters change nothing else. -/
theorem no_stale_task (hn : n ≤ r.len)
    (hok : ∀ k < n, ∀ s req, (r.state k).atTrap (r.input k) = some s →
      (r.input k).request = some req → ¬ InterruptsRead s req ∧ ¬ AbandonsRead s req) :
    NoStaleTask r n ∧ (n < r.len → ∃ s req, (r.state n).atTrap (r.input n) = some s ∧
      (r.input n).request = some req ∧ TouchesReaders s req) := by
  have hall : Counted (r.state n).kbd ∧ NoStaleTask r n := by
    induction n with
    | zero =>
      constructor
      · rw [(boot_kbd r.start).1]
        unfold Counted
        decide
      · intro i hi
        rw [(boot_kbd r.start).1] at hi
        exact absurd hi Bool.false_ne_true
    | succ n ih =>
      obtain ⟨hcount, h⟩ := ih (by omega) fun k hk => hok k (by omega)
      exact noStaleTask_step r hn hcount h (hok n (by omega))
  refine ⟨hall.2, fun hlt => ?_⟩
  obtain ⟨s, req, hs, hreq, hsame, hsane, hcur, -, -⟩ := r.device hlt
  refine ⟨s, req, hs, hreq, touchesReaders hsane (run_inBounds r hn hsame) hcur ?_⟩
  intro i hi
  rw [hsame.kbd] at hi ⊢
  obtain ⟨p, hp, hread⟩ := hall.2.blocked i hi
  exact ⟨p, hp, (hsame.reading p).mpr hread⟩

end Runs

/-- The first read of a process is open, and its task belongs to it. -/
theorem no_stale_task_typed : ∃ r : Run Links, r.len = 3 ∧
    ((r.state 3).kbd.gKbdTaskList 1).waitingOnRead = true ∧ NoStaleTask r 3 := by
  obtain ⟨r, hlen, hcheck, -, htest⟩ := exists_run (Q := Links) smallPc 40300
    (fun s t => t.request ≠ some .kill ∧ ∀ u ∈ s.atTrap t, u.kbd.gKbdDone = false)
    readTwo (fun n s => match n with
      | 3 => (s.kbd.gKbdTaskList 1).waitingOnRead
      | _ => true) (by decide +kernel)
  have hlen3 : r.len = 3 := hlen
  have hok : ∀ k < 3, ∀ s req, (r.state k).atTrap (r.input k) = some s →
      (r.input k).request = some req → ¬ InterruptsRead s req ∧ ¬ AbandonsRead s req := by
    intro k hk s req hs hreq
    obtain ⟨hkill, hdone⟩ := hcheck k (by omega)
    constructor
    · rintro ⟨rfl, -⟩
      exact hkill hreq
    · rintro ⟨-, -, hd, -⟩
      rw [hdone s hs] at hd
      exact Bool.false_ne_true hd
  exact ⟨r, hlen3, htest 3 (by decide), (no_stale_task r (n := 3) (by omega) hok).1⟩

/-- The root process is taken out of a read by a signal, and then a newline is typed. -/
def interruptedReadScript : List Act :=
  [.call [2, 40400, 8192] [], .call [13, 5, 40500, 1900000] [], .call [15, 1] [],
    .call [18, 0, 2000000, 10] [], .call [6, 33, 5] [], .key 0x1C]

/-- The end of file is typed, and two reads return. -/
def readAgainScript : List Act :=
  [.call [15, 1] [], .key 0x1D, .key 0x20, .call [18, 0, 2000000, 10] [],
    .call [18, 0, 2000000, 10] []]

/-- After a signal, or after the end of file, a task belongs to a process that is not in a read; the
newline is stored in its buffer. -/
theorem stale_task : (∃ r : Run Links, r.len = 6 ∧ ¬ NoStaleTask r 5 ∧
      ((r.state 5).pcb (.table 0)).currState = .ready ∧ load8 (r.state 5).mem 2000000 = 0 ∧
      load8 (r.state 6).mem 2000000 = 10) ∧
    ∃ r : Run Links, r.len = 5 ∧ ¬ NoStaleTask r 5 ∧
      ((r.state 5).pcb (.table 0)).currState = .running := by
  have hstale : ∀ (r : Run Links) (n : ℕ), ((r.state n).kbd.gKbdTaskList 1).waitingOnRead = true →
      ((r.state n).kbd.gKbdTaskList 1).pcb = some (.table 0) →
      ((r.state n).pcb (.table 0)).currState ≠ .blocked → ¬ NoStaleTask r n := by
    intro r n hw hp hstate h
    obtain ⟨p, hp', hread⟩ := h.blocked 1 hw
    obtain rfl := Option.some.inj (hp.symm.trans hp')
    exact hstate hread.1
  constructor
  · obtain ⟨r, hlen, -, -, htest⟩ := exists_run (Q := Links) smallPc 40300 (fun _ _ => True)
      interruptedReadScript (fun n s => match n with
        | 5 => decide (((s.kbd.gKbdTaskList 1).waitingOnRead = true ∧
            (s.kbd.gKbdTaskList 1).pcb = some (.table 0)) ∧
            (s.pcb (.table 0)).currState = .ready ∧ load8 s.mem 2000000 = 0)
        | 6 => decide (load8 s.mem 2000000 = 10)
        | _ => true) (by decide +kernel)
    obtain ⟨⟨hw, hp⟩, hready, hbefore⟩ := of_decide_eq_true (htest 5 (by decide))
    have hafter := of_decide_eq_true (htest 6 (by decide))
    exact ⟨r, hlen, hstale r 5 hw hp (by rw [hready]; simp), hready, hbefore, hafter⟩
  · obtain ⟨r, hlen, -, -, htest⟩ := exists_run (Q := Links) smallPc 40300 (fun _ _ => True)
      readAgainScript (fun n s => match n with
        | 5 => decide (((s.kbd.gKbdTaskList 1).waitingOnRead = true ∧
            (s.kbd.gKbdTaskList 1).pcb = some (.table 0)) ∧
            (s.pcb (.table 0)).currState = .running)
        | _ => true) (by decide +kernel)
    obtain ⟨⟨hw, hp⟩, hrun⟩ := of_decide_eq_true (htest 5 (by decide))
    exact ⟨r, hlen, hstale r 5 hw hp (by rw [hrun]; simp), hrun⟩

/-! ## Lost wake-ups -/

/-- In the turn that begins with the handler of `req` in `s`, whatever ends the read of a registered
reader makes it ready. -/
def WakesReaders (s : Kernel) (req : SyscallRequest) : Prop :=
  ∀ u v c p i, Moment s req u → u.keyboardProcessChar c = some v → InRead u p i →
    (c = u.kbd.gKeyboardEof ∨ c = newline ∨
      (u.kbd.gKbdTaskList i).i + 1 = (u.kbd.gKbdTaskList i).buflen) →
    (v.pcb p).currState = .ready ∧ (v.kbd.gKbdTaskList i).waitingOnRead = false

/-- If step `k` is a read that blocks, then its task is registered. -/
def BlocksRegistered (r : Run Links) (k : ℕ) : Prop :=
  ∀ s u, (r.state k).atTrap (r.input k) = some s → (r.input k).request = some .read →
    s.ReachesDriver → s.kbdRead s.currproc (s.arg 1) (toInt (s.arg 2)) = some (blockerr, u) →
    (u.kbd.gKbdTaskList (taskIndex s.current.pid)).waitingOnRead = true ∧
      (u.kbd.gKbdTaskList (taskIndex s.current.pid)).pcb = some s.currproc

theorem wakesReaders {s : Kernel} {req : SyscallRequest} (hs : Sane s) (hb : InBounds s.kbd)
    (hcur : req = .read → s.currproc ≠ .idle) : WakesReaders s req := by
  intro u v c p i hu hc hp hends
  obtain ⟨hbu, hown⟩ := hu.inBounds hs hcur hb
  have hbr := (keyboardProcessChar_step hown hc).broadcast
  have htask : (u.setKbd (Keyboard.noticed u.kbd c)).kbd.gKbdTaskList i = u.kbd.gKbdTaskList i := by
    show (Keyboard.noticed u.kbd c).gKbdTaskList i = _
    rw [(noticed_tasks u.kbd c).1]
  have hover : (u.kbd.gKbdTaskList i).ends (u.charOf c) = true := by
    unfold KbdTask.ends charOf
    rw [hp.waiting]
    split_ifs with heof
    · rfl
    · rcases hends with h | h | h
      · exact absurd h heof
      · simp [h]
      · have hlen := hbu.buflen i
        have h0 := hbu.index i
        have hsize : kernelStack = 16384 := rfl
        have hwrap : wrapInt ((u.kbd.gKbdTaskList i).i + 1) = (u.kbd.gKbdTaskList i).i + 1 :=
          wrapInt_of_range (by omega) (by omega)
        rw [hwrap]
        simp [h]
  have hready := hbr.finished p i (List.mem_finRange i)
  rw [htask] at hready
  constructor
  · rw [hready hover hp.owner]
    unfold Pcb.released
    split_ifs with hstate
    · rfl
    · exact absurd hp.reading.1 hstate
  · rw [hbr.tasks, if_pos (List.mem_finRange i), htask, KbdTask.receive_waiting, hover]
    exact Bool.and_false _

section Runs

variable (r : Run Links) {n : ℕ}

theorem readersRegistered_step (hn : n < r.len) (h : ReadersRegistered (r.state n))
    (hok : ∀ s req, (r.state n).atTrap (r.input n) = some s → (r.input n).request = some req →
      ¬ LosesWakeup s req) : ReadersRegistered (r.state (n + 1)) := by
  obtain ⟨s, req, hs, hreq, hsame, hsane, -, hdis, -⟩ := r.device hn
  have hreg : ReadersRegistered s := by
    intro p hp
    rw [hsame.kbd]
    exact h p ((hsame.reading p).mp hp)
  apply step_readers hsane (run_inBounds r hn.le hsame) hreg
  · exact current_ne_idle r hn hreq hsame
  · exact hdis
  · exact hok s req hs hreq

theorem blocksRegistered (hn : n < r.len)
    (hok : ∀ s req, (r.state n).atTrap (r.input n) = some s → (r.input n).request = some req →
      ¬ LosesWakeup s req) : BlocksRegistered r n := by
  intro s u hs hreq hd hread
  obtain ⟨s', req, hs', hreq', hsame, hsane, hcur, -, -⟩ := r.device hn
  obtain rfl : s = s' := Option.some.inj (hs.symm.trans hs')
  obtain rfl : req = .read := Option.some.inj (hreq'.symm.trans hreq)
  cases hi : s.currproc with
  | idle => exact absurd hi (hcur rfl)
  | table i =>
    rw [hi] at hread
    have hstart := hsane.startRead (i := i) (s.arg 1) (toInt (s.arg 2))
    obtain ⟨hf, hdone, hret⟩ := kbdRead_flushes hstart.tasksOwned hread
    have hdriver : DriverRead s i u := ⟨hi, hd, hf, hdone⟩
    have hidx : taskIndex s.current.pid = taskOf i := by
      rw [Core.current, hi, hsane.taskIndex i]
    rw [hsane.taskIndex i] at hret
    rw [hidx]
    constructor
    · apply hdriver.registered hsane (run_inBounds r hn.le hsame) hret.symm
      exact hok s _ hs hreq
    · rw [((persists_flushes hstart hf).request _).1, startRead_own hsane]

/-- In every run in which no read finds a newline in the ring that leaves room in its buffer, each
process that is blocked in a read has its task registered, and what ends the read makes it ready. -/
theorem no_lost_wakeup (hn : n ≤ r.len)
    (hok : ∀ k < n, ∀ s req, (r.state k).atTrap (r.input k) = some s →
      (r.input k).request = some req → ¬ LosesWakeup s req) :
    ReadersRegistered (r.state n) ∧ (∀ k < n, BlocksRegistered r k) ∧
      (n < r.len → ∃ s req, (r.state n).atTrap (r.input n) = some s ∧
        (r.input n).request = some req ∧ WakesReaders s req) := by
  refine ⟨?_, fun k hk => blocksRegistered r (by omega) (hok k hk), fun hlt => ?_⟩
  · induction n with
    | zero =>
      intro p hp
      exact absurd hp ((boot_kbd r.start).2 p)
    | succ n ih =>
      have h := ih (by omega) fun k hk => hok k (by omega)
      exact readersRegistered_step r hn h (hok n (by omega))
  · obtain ⟨s, req, hs, hreq, hsame, hsane, hcur, -, -⟩ := r.device hlt
    exact ⟨s, req, hs, hreq, wakesReaders hsane (run_inBounds r hn hsame) hcur⟩

end Runs

/-- A read that finds an empty ring is registered while it blocks. -/
theorem no_lost_wakeup_typed : ∃ r : Run Links, r.len = 3 ∧ (r.state 3).Reading (.table 0) ∧
    ReadersRegistered (r.state 3) := by
  obtain ⟨r, hlen, hcheck, -, htest⟩ := exists_run (Q := Links) smallPc 40300
    (fun s t => ∀ u ∈ s.atTrap t, t.request = some .read → ringContents u.kbd = [])
    readTwo (fun n s => match n with
      | 3 => decide ((s.pcb (.table 0)).currState = .blocked ∧
          (s.pcb (.table 0)).blockingQueueName = .device)
      | _ => true) (by decide +kernel)
  have hlen3 : r.len = 3 := hlen
  have hok : ∀ k < 3, ∀ s req, (r.state k).atTrap (r.input k) = some s →
      (r.input k).request = some req → ¬ LosesWakeup s req := by
    rintro k hk s req hs hreq ⟨rfl, -, -, -, m, hm, -⟩
    rw [hcheck k (by omega) s hs hreq] at hm
    simp at hm
  have hread := of_decide_eq_true (htest 3 (by decide))
  exact ⟨r, hlen3, hread, (no_lost_wakeup r (n := 3) (by omega) hok).1⟩

/-- An `a` and a newline are typed before the root process reads. -/
def typedAheadScript : List Act :=
  [.call [15, 1] [], .key 0x1E, .key 0x1C, .call [18, 0, 2000000, 10] []]

/-- The newline ends the read while the process is running, and the read blocks all the same. -/
theorem lost_wakeup : ∃ r : Run Links, r.len = 4 ∧ ringContents (r.state 3).kbd = [97, newline] ∧
    (r.state 4).Reading (.table 0) ∧ ¬ ReadersRegistered (r.state 4) := by
  obtain ⟨r, hlen, -, -, htest⟩ := exists_run (Q := Links) smallPc 40300 (fun _ _ => True)
    typedAheadScript (fun n s => match n with
      | 3 => decide (ringContents s.kbd = [97, newline])
      | 4 => decide ((∀ i, (s.kbd.gKbdTaskList i).waitingOnRead = false) ∧
          (s.pcb (.table 0)).currState = .blocked ∧
          (s.pcb (.table 0)).blockingQueueName = .device)
      | _ => true) (by decide +kernel)
  obtain ⟨hnone, hread⟩ := of_decide_eq_true (htest 4 (by decide))
  refine ⟨r, hlen, of_decide_eq_true (htest 3 (by decide)), hread, fun h => ?_⟩
  obtain ⟨i, hw, -⟩ := h _ hread
  rw [hnone i] at hw
  exact Bool.false_ne_true hw

end Xeros.Analysis
