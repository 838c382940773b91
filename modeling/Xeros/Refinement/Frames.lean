import Xeros.Model.Dispatch
import Xeros.Refinement.Base

/-!
# What scheduling leaves alone

The results here need nothing about the queues: they hold over any implementation of the process
lists, in any state.  `Quiet s s'` says that `s'` comes from `s` by moving processes between lists:
memory, devices and most fields of the control blocks are the same, nobody starts or ends a
keyboard read, and the running process goes on.
-/

set_option autoImplicit false

namespace Xeros.Model

open Xeros.Foundations Xeros.Abstract

/-- The process is blocked in a read. -/
def Core.Reading (c : Core) (p : PcbPtr) : Prop :=
  (c.pcb p).currState = .blocked ∧ (c.pcb p).blockingQueueName = .device

/-- Two control blocks that differ at most in what scheduling changes. -/
def Pcb.SameData (x y : Pcb) : Prop := y = x.withView { y.view with pid := x.pid }

theorem Pcb.SameData.refl (x : Pcb) : x.SameData x := rfl

theorem Pcb.SameData.trans {x y z : Pcb} (h : x.SameData y) (h' : y.SameData z) : x.SameData z := by
  unfold SameData at h h' ⊢
  have hpid : y.pid = x.pid := by rw [h]; rfl
  rw [h', h, Pcb.withView_withView, ← hpid]
  rfl

theorem Pcb.SameData.pid {x y : Pcb} (h : x.SameData y) : y.pid = x.pid := by
  rw [h]
  rfl

theorem Pcb.SameData.esp {x y : Pcb} (h : x.SameData y) : y.esp = x.esp := by
  rw [h]
  rfl

theorem Pcb.SameData.fdTable {x y : Pcb} (h : x.SameData y) : y.fdTable = x.fdTable := by
  rw [h]
  rfl

namespace KernelOf

variable {Q : Type} {s s' s'' : KernelOf Q} {p : PcbPtr}

/-- Processes were moved between lists, and nothing else happened. -/
structure Calm (s s' : KernelOf Q) : Prop where
  toHeap : s'.toHeap = s.toHeap
  gDeviceTable : s'.gDeviceTable = s.gDeviceTable
  kbd : s'.kbd = s.kbd
  pcb : ∀ p, (s.pcb p).SameData (s'.pcb p)
  reading : ∀ p, s'.Reading p ↔ s.Reading p

/-- The running process goes on meanwhile. -/
structure Quiet (s s' : KernelOf Q) : Prop extends Calm s s' where
  currproc : s'.currproc = s.currproc
  running : ∀ p, (s.pcb p).currState = .running → (s'.pcb p).currState = .running

/-- The current process is in the state `RUNNING`. -/
def Running (s : KernelOf Q) : Prop := (s.pcb s.currproc).currState = .running

theorem Calm.refl (s : KernelOf Q) : Calm s s :=
  ⟨rfl, rfl, rfl, fun _ => Pcb.SameData.refl _, fun _ => Iff.rfl⟩

theorem Calm.trans (h : Calm s s') (h' : Calm s' s'') : Calm s s'' :=
  ⟨h'.toHeap.trans h.toHeap, h'.gDeviceTable.trans h.gDeviceTable, h'.kbd.trans h.kbd,
    fun p => (h.pcb p).trans (h'.pcb p), fun p => (h'.reading p).trans (h.reading p)⟩

theorem Quiet.refl (s : KernelOf Q) : Quiet s s := ⟨Calm.refl s, rfl, fun _ => id⟩

theorem Quiet.trans (h : Quiet s s') (h' : Quiet s' s'') : Quiet s s'' :=
  ⟨h.toCalm.trans h'.toCalm, h'.currproc.trans h.currproc, fun p hp =>
    h'.running p (h.running p hp)⟩

theorem Quiet.keepsRunning (h : Quiet s s') (hr : Running s) : Running s' := by
  unfold Running
  rw [h.currproc]
  exact h.running _ hr

theorem Running.not_reading (h : Running s) : ¬ s.Reading s.currproc := by
  intro hread
  have hrun : (s.pcb s.currproc).currState = .running := h
  rw [hread.1] at hrun
  simp at hrun

theorem quiet_setQueues (s : KernelOf Q) (k : Q) : Quiet s (s.setQueues k) :=
  ⟨⟨rfl, rfl, rfl, fun _ => Pcb.SameData.refl _, fun _ => Iff.rfl⟩, rfl, fun _ => id⟩

theorem calm_assign {f : Pcb → Pcb} (hdata : (s.pcb p).SameData (f (s.pcb p)))
    (hread : (s.setPcb p f).Reading p ↔ s.Reading p) : Calm s (s.setPcb p f) := by
  have hother : ∀ q, q ≠ p → (s.setPcb p f).pcb q = s.pcb q := fun q hq =>
    Core.setPcb_pcb_ne _ _ hq
  have hself : (s.setPcb p f).pcb p = f (s.pcb p) := Core.setPcb_pcb_self _ _ _
  refine ⟨rfl, rfl, rfl, fun q => ?_, fun q => ?_⟩
  · by_cases hqp : q = p
    · rw [hqp, hself]
      exact hdata
    · rw [hother q hqp]
      exact Pcb.SameData.refl _
  · by_cases hqp : q = p
    · rw [hqp]
      exact hread
    · unfold Core.Reading
      rw [hother q hqp]

/-- Fields of a process that is not in a read are changed. -/
theorem calm_setPcb {f : Pcb → Pcb} (hdata : (s.pcb p).SameData (f (s.pcb p)))
    (hread : ¬ s.Reading p)
    (hread' : (f (s.pcb p)).currState = .blocked → (f (s.pcb p)).blockingQueueName ≠ .device) :
    Calm s (s.setPcb p f) := by
  refine calm_assign hdata ⟨fun h => ?_, fun h => absurd h hread⟩
  unfold Core.Reading at h
  rw [setPcb_toCore, Core.setPcb_pcb_self] at h
  exact absurd h.2 (hread' h.1)

theorem Calm.quiet {f : Pcb → Pcb} (h : Calm s (s.setPcb p f))
    (hrun : (s.pcb p).currState = .running → (f (s.pcb p)).currState = .running) :
    Quiet s (s.setPcb p f) := by
  refine ⟨h, rfl, fun q hq => ?_⟩
  by_cases hqp : q = p
  · rw [hqp] at hq ⊢
    rw [setPcb_toCore, Core.setPcb_pcb_self]
    exact hrun hq
  · rw [setPcb_toCore, Core.setPcb_pcb_ne _ _ hqp]
    exact hq

/-- Return codes do not matter to scheduling. -/
theorem quiet_setPcb_ret (s : KernelOf Q) (p : PcbPtr) (f : Pcb → ℤ) :
    Quiet s (s.setPcb p fun x => { x with ret := f x }) := by
  refine Calm.quiet (calm_assign rfl ?_) id
  unfold Core.Reading
  rw [setPcb_toCore, Core.setPcb_pcb_self]

theorem calm_setCurrproc (s : KernelOf Q) (p : PcbPtr) : Calm s (s.setCurrproc p) :=
  ⟨rfl, rfl, rfl, fun _ => Pcb.SameData.refl _, fun _ => Iff.rfl⟩

variable [ProcLists Q]

/-! ## Queues -/

theorem addPcbToQueue_eq {st : ProcState} (h : s.addPcbToQueue p st = some s') :
    (s.pcb p).currState ≠ st ∧ ∃ k,
      s' = (s.setQueues k).setPcb p fun x => { x with currState := st } := by
  unfold addPcbToQueue at h
  obtain ⟨_, hne, h⟩ := Option.bind_eq_some_iff.mp h
  obtain ⟨_, -, h⟩ := Option.bind_eq_some_iff.mp h
  refine ⟨cAssert_eq_some.mp hne, ?_⟩
  dsimp only at h
  split_ifs at h
  · exact ⟨s.queues, (Option.some.inj h).symm⟩
  · obtain ⟨k, -, h⟩ := Option.bind_eq_some_iff.mp h
    obtain ⟨_, -, h⟩ := Option.bind_eq_some_iff.mp h
    exact ⟨k, (Option.some.inj h).symm⟩

/-- A process that is not in a read becomes ready, or stops. -/
theorem addPcbToQueue_calm {st : ProcState} (h : s.addPcbToQueue p st = some s')
    (hst : st ≠ .blocked) (hread : ¬ s.Reading p) : Calm s s' := by
  obtain ⟨-, k, rfl⟩ := addPcbToQueue_eq h
  exact (quiet_setQueues s k).toCalm.trans (calm_setPcb rfl hread fun hb => absurd hb hst)

theorem addPcbToQueue_quiet {st : ProcState} (h : s.addPcbToQueue p st = some s')
    (hst : st ≠ .blocked) (hrun : (s.pcb p).currState ≠ .running) (hread : ¬ s.Reading p) :
    Quiet s s' := by
  obtain ⟨-, k, rfl⟩ := addPcbToQueue_eq h
  refine (quiet_setQueues s k).trans (Calm.quiet (calm_setPcb rfl hread ?_) ?_)
  · exact fun hb => absurd hb hst
  · exact fun hr => absurd hr hrun

theorem removePcbFromQueue_eq (h : s.removePcbFromQueue p = some s') :
    ((s.pcb p).currState = .ready ∨ (s.pcb p).currState = .stopped) ∧ ∃ k, s' = s.setQueues k := by
  unfold removePcbFromQueue at h
  obtain ⟨_, -, h⟩ := Option.bind_eq_some_iff.mp h
  obtain ⟨_, hst, h⟩ := Option.bind_eq_some_iff.mp h
  obtain ⟨_, -, h⟩ := Option.bind_eq_some_iff.mp h
  exact ⟨cAssert_eq_some.mp hst, _, (Option.some.inj h).symm⟩

/-- The next process is dispatched; the idle process is never in a read. -/
theorem reschedule_calm (h : s.reschedule = some s') (hidle : ¬ s.Reading .idle) :
    Calm s s' ∧ Running s' := by
  unfold reschedule getNextProc at h
  obtain ⟨q', s2, htaken, rfl⟩ : ∃ q' s2, (¬ s2.Reading q' ∧ Calm s s2) ∧
      s' = (s2.setPcb q' fun x => { x with currState := .running }).setCurrproc q' := by
    cases hh : ProcLists.head s.queues (.proc .ready) with
    | none =>
      rw [hh] at h
      exact ⟨.idle, s, ⟨hidle, Calm.refl s⟩, (Option.some.inj h).symm⟩
    | some q =>
      rw [hh] at h
      dsimp only at h
      cases hr : s.removePcbFromQueue q with
      | none =>
        rw [hr] at h
        exact absurd h (by simp)
      | some s2 =>
        rw [hr] at h
        obtain ⟨hst, k, hs2⟩ := removePcbFromQueue_eq hr
        refine ⟨q, s2, ⟨fun hread => ?_, hs2 ▸ (quiet_setQueues s k).toCalm⟩, (Option.some.inj h).symm⟩
        have hblk : (s.pcb q).currState = .blocked := by
          rw [hs2] at hread
          exact hread.1
        rw [hblk] at hst
        simp at hst
  constructor
  · have hrun : Calm s2 (s2.setPcb q' fun x => { x with currState := .running }) := by
      refine calm_setPcb rfl htaken.1 fun hb => ?_
      exact absurd hb (by simp)
    exact (htaken.2.trans hrun).trans (calm_setCurrproc _ _)
  · unfold Running
    rw [setCurrproc_currproc, setCurrproc_pcb, setPcb_toCore, Core.setPcb_pcb_self]

/-- A process that is not in a read joins a queue. -/
theorem addProcToBlockingQueue_eq {o : PcbPtr} {q : BlockingQueue}
    (h : s.addProcToBlockingQueue p o q = some s') : ∃ k, s' = (s.setQueues k).setPcb p fun x =>
      { x with blockingProc := some o, blockingQueueName := q } := by
  unfold addProcToBlockingQueue at h
  obtain ⟨k, -, h⟩ := Option.bind_eq_some_iff.mp h
  exact ⟨k, (Option.some.inj h).symm⟩

/-- Leaving a queue of another process; nobody leaves a read in this way. -/
theorem removeProcFromBlockingQueue_quiet {o : Option PcbPtr} {q : BlockingQueue} {b : Bool}
    (h : s.removeProcFromBlockingQueue p o q = some (b, s')) (hq : q ≠ .device) :
    Quiet s s' ∧ (b = true → (s.pcb p).currState = .blocked ∧ (s.pcb p).blockingQueueName = q ∧
      (s'.pcb p).currState = .blocked ∧ (s'.pcb p).blockingQueueName = .noBlocker) := by
  unfold removeProcFromBlockingQueue at h
  obtain ⟨owner, -, h⟩ := Option.bind_eq_some_iff.mp h
  split_ifs at h with hname
  · obtain ⟨rfl, rfl⟩ := Prod.mk.inj (Option.some.inj h)
    exact ⟨Quiet.refl s, fun hb => absurd hb (by simp)⟩
  · obtain ⟨_, hblk, h⟩ := Option.bind_eq_some_iff.mp h
    obtain ⟨rfl, rfl⟩ := Prod.mk.inj (Option.some.inj h)
    rw [not_or, not_not, not_not] at hname
    have hblk := cAssert_eq_some.mp hblk
    have hread : ¬ s.Reading p := fun hr => hq (hname.1.symm.trans hr.2)
    refine ⟨(quiet_setQueues s _).trans (Calm.quiet (calm_setPcb rfl hread fun _ => ?_) id),
      fun _ => ?_⟩
    · simp
    · rw [setPcb_toCore, Core.setPcb_pcb_self]
      exact ⟨hblk, hname.1, hblk, rfl⟩

/-! ## Sleeping -/

/-- Entering the delta list changes return codes only. -/
theorem addToSleepingList_quiet (h : s.addToSleepingList p = some s') : Quiet s s' := by
  unfold addToSleepingList at h
  obtain ⟨⟨s1, prev, entry⟩, hloop, h⟩ := Option.bind_eq_some_iff.mp h
  have h1 : Quiet s s1 := by
    refine loop_inv (I := fun st => Quiet s st.1) (Q := fun st => Quiet s st.1) ?_ ?_
      (Quiet.refl s) hloop
    · rintro ⟨u, a, b⟩ u' hu hround
      cases b with
      | none => exact absurd hround (by simp [sleepingRound])
      | some e =>
        unfold sleepingRound at hround
        dsimp only at hround
        split_ifs at hround
        · obtain rfl := Iter.again.inj (Option.some.inj hround)
          exact hu.trans (quiet_setPcb_ret u p _)
        · exact absurd hround (by simp)
    · rintro ⟨u, a, b⟩ u' hu hround
      cases b with
      | none =>
        obtain rfl := Iter.done.inj (Option.some.inj hround)
        exact hu
      | some e =>
        unfold sleepingRound at hround
        dsimp only at hround
        split_ifs at hround
        · exact absurd hround (by simp)
        · obtain rfl := Iter.done.inj (Option.some.inj hround)
          exact hu
  dsimp only at h
  have h2 := h1.trans (quiet_setQueues s1 (ProcLists.linkSleeper s1.queues p prev entry))
  cases entry with
  | none =>
    obtain rfl := Option.some.inj h
    exact h2
  | some e =>
    obtain rfl := Option.some.inj h
    exact h2.trans (quiet_setPcb_ret _ e _)

/-- Leaving the delta list changes return codes only. -/
theorem removeFromSleepingList_quiet (h : s.removeFromSleepingList p = some s') :
    Quiet s s' ∧ (s.pcb p).currState = .blocked ∧ (s'.pcb p).currState = .blocked := by
  unfold removeFromSleepingList at h
  obtain ⟨_, hb, h⟩ := Option.bind_eq_some_iff.mp h
  obtain rfl := Option.some.inj h
  have hb := cAssert_eq_some.mp hb
  cases ProcLists.nextProc s.queues p with
  | none => exact ⟨quiet_setQueues s _, hb, hb⟩
  | some n =>
    refine ⟨(quiet_setPcb_ret s n _).trans (quiet_setQueues _ _), hb, ?_⟩
    rw [setQueues_toCore, setPcb_toCore, Core.setPcb_pcb]
    split_ifs with hpn
    · rw [← hpn]
      exact hb
    · exact hb

/-- A process that is not in a read falls asleep. -/
theorem sleep_calm {time : ℕ} (h : s.sleep p time = some s') (hread : ¬ s.Reading p) :
    Calm s s' := by
  unfold sleep at h
  obtain ⟨_, -, h⟩ := Option.bind_eq_some_iff.mp h
  have h1 : Calm s (s.setPcb p fun x =>
      { x with
        currState := .blocked
        blockingQueueName := .sleep
        blockingProc := none
        ret := toInt (time / tickLengthInMs + if time % tickLengthInMs ≠ 0 then 1 else 0) }) := by
    refine calm_setPcb rfl hread fun _ => ?_
    simp
  exact h1.trans (addToSleepingList_quiet h).toCalm

/-- Only sleepers are woken. -/
theorem wake_quiet (h : s.wake p = some s') :
    Quiet s s' ∧ (s.pcb p).currState = .blocked ∧ (s.pcb p).blockingQueueName = .sleep ∧
      (s'.pcb p).currState = .blocked ∧ (s'.pcb p).blockingQueueName = .noBlocker := by
  unfold wake at h
  obtain ⟨_, -, h⟩ := Option.bind_eq_some_iff.mp h
  obtain ⟨_, hname, h⟩ := Option.bind_eq_some_iff.mp h
  obtain ⟨s1, hs1, h⟩ := Option.bind_eq_some_iff.mp h
  obtain rfl := Option.some.inj h
  have hname := cAssert_eq_some.mp hname
  obtain ⟨h1, hb, hb1⟩ := removeFromSleepingList_quiet hs1
  have hread : ¬ s1.Reading p := by
    rw [h1.reading]
    intro hr
    rw [hr.2] at hname
    simp at hname
  have hset : Quiet s1 (s1.setPcb p fun x =>
      { x with blockingQueueName := .noBlocker, ret := wrapInt (x.ret * tickLengthInMs) }) :=
    Calm.quiet (calm_setPcb rfl hread (by simp)) id
  refine ⟨h1.trans hset, hb, hname, ?_, ?_⟩
  · rw [setPcb_toCore, Core.setPcb_pcb_self]
    exact hb1
  · rw [setPcb_toCore, Core.setPcb_pcb_self]

/-- A process that is blocked, and not in a read, becomes ready. -/
theorem ready_quiet (h : s.addPcbToQueue p .ready = some s')
    (hb : (s.pcb p).currState = .blocked) (hq : (s.pcb p).blockingQueueName ≠ .device) :
    Quiet s s' :=
  addPcbToQueue_quiet h (by simp) (by rw [hb]; simp) fun hr => hq hr.2

theorem tick_quiet (h : s.tick = some s') : Quiet s s' := by
  unfold tick at h
  cases hl : ProcLists.gSleepingList s.queues with
  | none =>
    rw [hl] at h
    obtain rfl := Option.some.inj h
    exact Quiet.refl s
  | some first =>
    rw [hl] at h
    dsimp only at h
    refine loop_inv (I := fun u => Quiet s u) (Q := fun u => Quiet s u) ?_ ?_
      (quiet_setPcb_ret s first _) h
    · intro u u' hu hround
      unfold tickRound at hround
      cases hg : ProcLists.gSleepingList u.queues with
      | none =>
        rw [hg] at hround
        exact absurd hround (by simp)
      | some q =>
        rw [hg] at hround
        dsimp only at hround
        split_ifs at hround
        · obtain ⟨u1, hu1, hround⟩ := Option.bind_eq_some_iff.mp hround
          obtain ⟨u2, hu2, hround⟩ := Option.bind_eq_some_iff.mp hround
          obtain rfl := Iter.again.inj (Option.some.inj hround)
          obtain ⟨hw, -, -, hb, hname⟩ := wake_quiet hu1
          exact (hu.trans hw).trans (ready_quiet hu2 hb (by rw [hname]; simp))
        · exact absurd hround (by simp)
    · intro u u' hu hround
      unfold tickRound at hround
      cases hg : ProcLists.gSleepingList u.queues with
      | none =>
        rw [hg] at hround
        obtain rfl := Iter.done.inj (Option.some.inj hround)
        exact hu
      | some q =>
        rw [hg] at hround
        dsimp only at hround
        split_ifs at hround
        · obtain ⟨u1, -, hround⟩ := Option.bind_eq_some_iff.mp hround
          obtain ⟨u2, -, hround⟩ := Option.bind_eq_some_iff.mp hround
          exact absurd hround (by simp)
        · obtain rfl := Iter.done.inj (Option.some.inj hround)
          exact hu

/-! ## Ends of waiting -/

/-- The case of `resolve_blocking` for a process in a queue of another one. -/
def leaveBlockingQueue (s : KernelOf Q) (p : PcbPtr) (queue : BlockingQueue) :
    Option (KernelOf Q) := do
  let (ret, s) ← s.removeProcFromBlockingQueue p (s.pcb p).blockingProc queue
  cAssert (ret = true)
  return s

/-- A process that is blocked, and not in a read, stops waiting. -/
theorem resolveBlocking_quiet (h : s.resolveBlocking p = some s')
    (hq : (s.pcb p).blockingQueueName ≠ .device) :
    Quiet s s' ∧ (s.pcb p).currState = .blocked ∧ (s'.pcb p).currState = .blocked ∧
      (s'.pcb p).blockingQueueName = .noBlocker := by
  unfold resolveBlocking at h
  obtain ⟨_, -, h⟩ := Option.bind_eq_some_iff.mp h
  obtain ⟨_, hb, h⟩ := Option.bind_eq_some_iff.mp h
  have hb := cAssert_eq_some.mp hb
  dsimp only at h
  obtain ⟨u, hu⟩ : ∃ u, u = s.setPcb p fun x =>
    { x with ret := signalledRet x.blockingQueueName x.ret } := ⟨_, rfl⟩
  rw [← hu] at h
  have h1 : Quiet s u := hu ▸ quiet_setPcb_ret s p _
  have hself : u.pcb p = { s.pcb p with
      ret := signalledRet (s.pcb p).blockingQueueName (s.pcb p).ret } := by
    rw [hu, setPcb_toCore, Core.setPcb_pcb_self]
  have hbu : (u.pcb p).currState = .blocked := by rw [hself]; exact hb
  have hqu : (u.pcb p).blockingQueueName = (s.pcb p).blockingQueueName := by rw [hself]
  -- the three queues of other processes
  have hqueue : ∀ queue, queue ≠ .device → u.leaveBlockingQueue p queue = some s' →
      Quiet s s' ∧ (s.pcb p).currState = .blocked ∧ (s'.pcb p).currState = .blocked ∧
        (s'.pcb p).blockingQueueName = .noBlocker := by
    intro queue hne hrun
    obtain ⟨⟨b, u1⟩, hu1, hrun⟩ := Option.bind_eq_some_iff.mp hrun
    obtain ⟨_, hret, hrun⟩ := Option.bind_eq_some_iff.mp hrun
    obtain rfl := Option.some.inj hrun
    obtain ⟨hquiet, hout⟩ := removeProcFromBlockingQueue_quiet hu1 hne
    obtain ⟨-, -, hb1, hn1⟩ := hout (cAssert_eq_some.mp hret)
    exact ⟨h1.trans hquiet, hb, hb1, hn1⟩
  cases hname : (s.pcb p).blockingQueueName with
  | sender =>
    rw [hqu, hname] at h
    exact hqueue .sender (by simp) h
  | receiver =>
    rw [hqu, hname] at h
    exact hqueue .receiver (by simp) h
  | waiting =>
    rw [hqu, hname] at h
    exact hqueue .waiting (by simp) h
  | noBlocker =>
    rw [hqu, hname] at h
    exact hqueue .noBlocker (by simp) h
  | device => exact absurd hname hq
  | sleep =>
    rw [hqu, hname] at h
    obtain ⟨hquiet, -, -, hb1, hn1⟩ := wake_quiet h
    exact ⟨h1.trans hquiet, hb, hb1, hn1⟩
  | receiveAny =>
    rw [hqu, hname] at h
    obtain ⟨_, -, h⟩ := Option.bind_eq_some_iff.mp h
    obtain rfl := Option.some.inj h
    have hread : ¬ u.Reading p := by
      rintro ⟨-, hr⟩
      rw [hqu, hname] at hr
      simp at hr
    refine ⟨h1.trans (Calm.quiet (calm_setPcb rfl hread (by simp)) id), hb, ?_, ?_⟩
    · rw [setPcb_toCore, Core.setPcb_pcb_self]
      exact hbu
    · rw [setPcb_toCore, Core.setPcb_pcb_self]

theorem notifyBlockedProcs_quiet {q : BlockingQueue} (h : s.notifyBlockedProcs p q = some s')
    (hq : q ≠ .device) : Quiet s s' := by
  unfold notifyBlockedProcs at h
  refine loop_inv (I := fun u => Quiet s u) (Q := fun u => Quiet s u) ?_ ?_ (Quiet.refl s) h
  · intro u u' hu hround
    unfold notifyRound at hround
    cases hh : ProcLists.head u.queues (.blocking p q) with
    | none =>
      rw [hh] at hround
      exact absurd hround (by simp)
    | some c =>
      rw [hh] at hround
      obtain ⟨⟨b, u1⟩, hu1, hround⟩ := Option.bind_eq_some_iff.mp hround
      obtain ⟨_, hret, hround⟩ := Option.bind_eq_some_iff.mp hround
      obtain ⟨u2, hu2, hround⟩ := Option.bind_eq_some_iff.mp hround
      obtain rfl := Iter.again.inj (Option.some.inj hround)
      obtain ⟨hquiet, hout⟩ := removeProcFromBlockingQueue_quiet hu1 hq
      obtain ⟨-, -, hb, hn⟩ := hout (cAssert_eq_some.mp hret)
      exact (hu.trans hquiet).trans (ready_quiet hu2 hb (by rw [hn]; simp))
  · intro u u' hu hround
    unfold notifyRound at hround
    cases hh : ProcLists.head u.queues (.blocking p q) with
    | none =>
      rw [hh] at hround
      obtain rfl := Iter.done.inj (Option.some.inj hround)
      exact hu
    | some c =>
      rw [hh] at hround
      obtain ⟨⟨b, u1⟩, -, hround⟩ := Option.bind_eq_some_iff.mp hround
      obtain ⟨_, -, hround⟩ := Option.bind_eq_some_iff.mp hround
      obtain ⟨u2, -, hround⟩ := Option.bind_eq_some_iff.mp hround
      exact absurd hround (by simp)

end KernelOf

end Xeros.Model
