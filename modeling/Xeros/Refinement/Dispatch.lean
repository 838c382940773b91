import Xeros.Model.Dispatch
import Xeros.Refinement.Create
import Xeros.Refinement.Msg
import Xeros.Refinement.Signals

/-!
# What a turn of the dispatcher does to the view

With no device open, every turn of the dispatcher is one `Event`.  `Handled` says which request
leads to which event, with the arguments that matter.
-/

set_option autoImplicit false

namespace Xeros.Model.KernelOf

open Xeros.Foundations Xeros.Abstract Xeros.Interface

variable {Q : Type} [ProcLists Q] [LawfulProcLists Q] {s s' : KernelOf Q} {run : Option PcbPtr}
  {p : PcbPtr} {t : Trap}

/-- The kernel state between two turns of the dispatcher, with no device open. -/
structure Ready (s : KernelOf Q) : Prop where
  wf : LawfulProcLists.WellFormed s.queues
  sound : Sound s.view
  closed : ∀ p fd, (s.pcb p).fdTable fd = none

theorem Ready.good (h : Ready s) : Good (some s.currproc) s := ⟨h.wf, h.sound.inv⟩

theorem Ready.running (h : Ready s) : (s.pcb s.currproc).currState = .running :=
  (h.sound.inv.running _).mpr rfl

theorem Ready.current_not_blocked (h : Ready s) : (s.pcb s.currproc).currState ≠ .blocked := by
  rw [h.running]
  simp

theorem becomes_setRet (h : LawfulProcLists.WellFormed s.queues) (r : ℤ) :
    Becomes s (s.view.setRet s.currproc r) (s.setRet r) :=
  becomes_setPcb h s.currproc fun x => { x with ret := r }

/-- A return code after an operation that does not dispatch. -/
theorem Becomes.then_setRet {v : View} (h : Becomes s v s') (hc : v.currproc = s.currproc) (r : ℤ) :
    Becomes s (v.setRet s.currproc r) (s'.setRet r) := by
  have hb := h.trans (becomes_setRet h.wf r)
  rw [h.view, h.currproc, hc] at hb
  exact hb

theorem statesFit_good (h : Good run s) : StatesFit s := fun _ hst _ hq =>
  state_of_mem h.inv hst hq

/-- The running process gives up the processor. -/
theorem preempt_spec (h : Good (some s.currproc) s) :
    ∃ s', s.addPcbToQueue s.currproc .ready = some s' ∧ Becomes s s.view.preempt s' := by
  have hrun : (s.pcb s.currproc).currState = .running := (h.inv.running _).mpr rfl
  have hnot : ∀ i, s.currproc ∉ LawfulProcLists.lists s.queues i := fun i =>
    h.inv.not_mem (ProcView.place_running ((h.inv.running _).mpr rfl)) i
  by_cases hi : s.currproc = .idle
  · have hpid : (s.pcb .idle).pid = 0 := h.inv.idle_pid
    rw [hi] at hrun hnot ⊢
    obtain ⟨s', hs', hb⟩ := addPcbToQueue_idle h.wf hpid (.inl rfl : ProcState.ready = .ready ∨ _)
      (by rw [hrun]; simp)
    refine ⟨s', hs', ?_⟩
    have heq : s.view.preempt = s.view.set .idle fun x => { x with state := .ready } := by
      have hc : s.view.currproc = .idle := hi
      unfold View.preempt View.move View.set
      rw [hc]
      simp only [ne_eq, not_true_eq_false, false_and, if_false, List.append_nil, View.mk.injEq,
        true_and, and_true]
      funext i
      exact List.erase_of_not_mem (hnot i)
    rw [heq]
    exact hb
  · exact addPcbToQueue_spec h.wf hnot (statesFit_good h) hi (h.inv.pid_ne_zero hi) (.inl rfl)
      (by rw [hrun]; simp)


/-- The next process is dispatched. -/
theorem Becomes.then_reschedule {v : View} (h : Becomes s v s') (hv : Inv none v) :
    ∃ s2, s'.reschedule = some s2 ∧ Becomes s v.dispatch s2 := by
  obtain ⟨s2, hs2, hb⟩ := reschedule_spec (h.good hv)
  rw [h.view] at hb
  exact ⟨s2, hs2, h.trans hb⟩

/-! ## Looking up pids -/

/-- `pid_to_proc` finds the live processes. -/
theorem pidToProc_eq_some_iff (h : Inv run s.view) {pid : ℤ} :
    s.pidToProc pid = some p ↔
      p ≠ .idle ∧ (s.pcb p).pid = pid ∧ (s.pcb p).currState ≠ .stopped := by
  unfold Core.pidToProc
  dsimp only
  constructor
  · intro hf
    split_ifs at hf with h1 h2
    obtain rfl := Option.some.inj hf
    exact ⟨by simp, h2⟩
  · rintro ⟨hp, rfl, hs⟩
    obtain ⟨h1, htable⟩ := h.table_of_pid hp
    have hslot : PcbPtr.table (slotOfPid (s.pcb p).pid) = p := htable.symm
    have h1' : 1 ≤ (s.pcb p).pid := h1
    rw [if_pos h1', hslot, if_pos ⟨rfl, hs⟩]

theorem findsSelf (h : Inv run s.view) (p : PcbPtr) : s.FindsSelf p := fun _ hq =>
  h.pid_inj (v := s.view) ((pidToProc_eq_some_iff h).mp hq).2.1

/-! ## Requests and events -/

/-- The pid that a receiver names. -/
def fromPid (s : KernelOf Q) : ℤ := toInt (load32 s.mem (s.arg 0))

/-- The caller of `syskill` names the process `p` and a signal that `p` handles. -/
def Signals (s : KernelOf Q) (p : PcbPtr) : Prop :=
  s.pidToProc (toInt (s.arg 0)) = some p ∧ 0 ≤ toInt (s.arg 1) ∧
    toInt (s.arg 1) < signalTableSize ∧ s.handlerOf p (toInt (s.arg 1)).toNat ≠ 0

instance (s : KernelOf Q) (p : PcbPtr) : Decidable (s.Signals p) :=
  inferInstanceAs (Decidable (_ ∧ _ ∧ _ ∧ _))

/-- The answers that a request can get at once. -/
def Immediate (s : KernelOf Q) (req : SyscallRequest) (r : ℤ) : Prop :=
  match req with
  | .send | .recv => r = syspidMe ∨ r = syserrOther ∨ r = syspidDne
  | .wait => r = syspidDne
  | .kill => ∀ p, s.Signals p → (s.pcb p).currState ≠ .blocked
  | .sleep => s.arg 0 = 0
  | .timerInt | .keyboardInt | .yield | .stop => False
  | _ => True

/-- The events that a request can be, when no device is open. -/
inductive Handled (s : KernelOf Q) : SyscallRequest → Event → Prop where
  | timer : Handled s .timerInt .timer
  | yield : Handled s .yield .yield
  | stop : Handled s .stop .exit
  | badSigreturn : Handled s .sigreturn .exit
  | sleep (h0 : s.arg 0 ≠ 0) : Handled s .sleep (.sleep (ticksOf (s.arg 0)))
  | immediate (req : SyscallRequest) (r : ℤ) (hr : Immediate s req r) : Handled s req (.ret r)
  | recycle (p : PcbPtr) : Handled s .create (.recycle p)
  | spawn (p : PcbPtr) (pid : ℤ) : Handled s .create (.spawn p pid)
  | kill (p : PcbPtr) (hp : s.Signals p) : Handled s .kill (.signal p)
  | wait (o : PcbPtr) (ho : s.pidToProc (toInt (s.arg 0)) = some o) :
      Handled s .wait (.block o .waiting 0)
  | sendBlocks (o : PcbPtr) (ho : s.pidToProc (toInt (s.arg 0)) = some o)
      (hno : ¬ Event.Meets s.view s.currproc o) : Handled s .send (.block o .sender syspidDne)
  | sendMeets (dst : PcbPtr) (hd : s.pidToProc (toInt (s.arg 0)) = some dst) :
      Handled s .send (.deliver s.currproc dst)
  | recvBlocks (o : PcbPtr) (ho : s.pidToProc s.fromPid = some o)
      (hno : ¬ Event.Meets s.view o s.currproc) : Handled s .recv (.block o .receiver syspidDne)
  | recvMeets (src : PcbPtr) (hs : s.pidToProc s.fromPid = some src ∨ s.fromPid = 0) :
      Handled s .recv (.deliver src s.currproc)
  | recvAnyBlocks (h0 : s.fromPid = 0) (hno : ∀ o, ¬ Event.Meets s.view o s.currproc) :
      Handled s .recv (.blockAlone .receiveAny syspidDne)

/-- A turn of the dispatcher that ends with `s'` is one event. -/
def Turn (s : KernelOf Q) (req : SyscallRequest) (s' : KernelOf Q) : Prop :=
  Ready s' ∧ ∃ e : Event, Handled s req e ∧ e.Enabled s.view ∧ s'.view = e.apply s.view

theorem turn_of_becomes {req : SyscallRequest} {e : Event} {s0 : KernelOf Q} (h : Ready s)
    (hh : Handled s req e) (he : e.Enabled s.view) (hb : Becomes s0 (e.apply s.view) s')
    (hfd : ∀ p fd, (s0.pcb p).fdTable fd = none) : Turn s req s' := by
  refine ⟨⟨hb.wf, ?_, fun p fd => ?_⟩, e, hh, he, hb.view⟩
  · rw [hb.view]
    exact Event.sound h.sound he
  · rw [hb.pcb]
    exact hfd p fd

/-- A request that is answered at once. -/
theorem turn_ret {req : SyscallRequest} {r : ℤ} {s0 : KernelOf Q} (h : Ready s)
    (hr : Immediate s req r) (hb : Becomes s0 s.view s') (hc : s0.currproc = s.currproc)
    (hfd : ∀ p fd, (s0.pcb p).fdTable fd = none) : Turn s req (s'.setRet r) := by
  have hb' := hb.then_setRet (hc.symm : s.view.currproc = s0.currproc) r
  rw [hc] at hb'
  exact turn_of_becomes (e := .ret r) h (.immediate req r hr) trivial hb' hfd

/-- A request that is answered at once and changes nothing else. -/
theorem turn_same {req : SyscallRequest} {r : ℤ} (h : Ready s) (hr : Immediate s req r) :
    Turn s req (s.setRet r) :=
  turn_ret h hr (Becomes.refl h.wf) rfl h.closed

/-- A request that is answered at once and changes the heap. -/
theorem turn_heap {req : SyscallRequest} {r : ℤ} (h : Ready s) (hr : Immediate s req r)
    (heap : Heap) : Turn s req ((s.setHeap heap).setRet r) :=
  turn_ret h hr (Becomes.refl (s := s.setHeap heap) h.wf) rfl h.closed

/-! ## The requests -/

omit [ProcLists Q] [LawfulProcLists Q] in
theorem setRetOf_mk (r : ℤ) (s : KernelOf Q) : setRetOf (r, s) = s.setRet r := rfl

theorem create_turn (h : Ready s) {r : ℤ × KernelOf Q} (hs : s.dispatchSyscallCreate = some r) :
    Turn s .create (setRetOf r) := by
  obtain ⟨r, s1⟩ := r
  rw [setRetOf_mk]
  unfold dispatchSyscallCreate at hs
  dsimp only at hs
  obtain ⟨result, -, hs⟩ := Option.bind_eq_some_iff.mp hs
  split_ifs at hs with hres
  · obtain ⟨rfl, rfl⟩ := Option.some.inj hs
    refine turn_same h ?_
    exact True.intro
  · cases create_cases h.good hs with
    | failed _ heap hr =>
      refine turn_heap h ?_ heap
      exact True.intro
    | recycled p rest heap x _ hl hb hfd =>
      have hpm : p ∈ s.view.lists (.queue (.proc .stopped)) := by simp [hl]
      have hpi : p ≠ .idle := ((h.sound.inv.mem_iff _ _).mp hpm).1
      refine turn_of_becomes (e := .recycle p) h (.recycle p)
        ⟨hpi, state_of_mem h.sound.inv (.inr rfl) hpm⟩ (hb.then_setRet rfl eproclimit) fun q fd => ?_
      by_cases hq : q = p
      · rw [hq, withSlot_pcb_self, hfd]
      · rw [withSlot_pcb_ne _ _ _ hq]
        exact h.closed q fd
    | created p rest heap x _ hl hpid hb hfd =>
      have hpm : p ∈ s.view.lists (.queue (.proc .stopped)) := by simp [hl]
      have hpi : p ≠ .idle := ((h.sound.inv.mem_iff _ _).mp hpm).1
      refine turn_of_becomes (e := .spawn p (nextPid (s.pcb p).pid)) h (.spawn p _)
        ⟨hpi, state_of_mem h.sound.inv (.inr rfl) hpm, hpid,
          slotOfPid_nextPid (h.sound.inv.table_of_pid hpi).1⟩ (hb.then_setRet rfl _) fun q fd => ?_
      by_cases hq : q = p
      · rw [hq, withSlot_pcb_self, hfd]
      · rw [withSlot_pcb_ne _ _ _ hq]
        exact h.closed q fd

theorem kill_turn (h : Ready s) {r : ℤ × KernelOf Q} (hs : s.dispatchSyscallKill = some r) :
    Turn s .kill (setRetOf r) := by
  unfold dispatchSyscallKill at hs
  dsimp only at hs
  cases hp : s.pidToProc (toInt (s.arg 0)) with
  | none =>
    rw [hp] at hs
    obtain rfl := Option.some.inj hs
    rw [setRetOf_mk]
    refine turn_same h fun q hq => ?_
    have hq1 := hq.1
    rw [hp] at hq1
    exact absurd hq1 (by simp)
  | some p =>
    rw [hp] at hs
    dsimp only at hs
    have hnamed : ∀ q, s.Signals q → q = p := by
      intro q hq
      have hq1 := hq.1
      rw [hp] at hq1
      exact (Option.some.inj hq1).symm
    obtain ⟨hpi, -, -⟩ := (pidToProc_eq_some_iff h.sound.inv).mp hp
    obtain ⟨r', s1, hs1, hout⟩ := setProcSignal_spec h.good h.sound.delta hpi (toInt (s.arg 1))
    rw [hs1] at hs
    obtain rfl := Option.some.inj hs
    rw [setRetOf_mk]
    cases hout with
    | invalid hsig =>
      refine turn_same h fun q hq => ?_
      obtain ⟨-, h0, h1, -⟩ := hq
      rcases hsig with hsig | hsig
      · exact absurd h0 (not_le.mpr hsig)
      · exact absurd h1 (not_lt.mpr hsig)
    | ignored hsig hh =>
      refine turn_same h fun q hq => ?_
      have hq' := hq
      rw [hnamed q hq'] at hq
      exact absurd hh hq.2.2.2
    | marked hsig hh hb =>
      have hfd : ∀ q fd, ((s.setPcb p fun x =>
          { x with signalsFired := flagBitSet x.signalsFired (toInt (s.arg 1)).toNat }).pcb q).fdTable
          fd = none := by
        intro q fd
        by_cases hq : q = p
        · rw [hq, setPcb_toCore, Core.setPcb_pcb_self]
          exact h.closed p fd
        · rw [setPcb_toCore, Core.setPcb_pcb_ne _ _ hq]
          exact h.closed q fd
      split_ifs at hb with hblk
      · have hcur : (s.view.interrupt p).currproc = s.currproc := interrupt_currproc s.view p
        exact turn_of_becomes (e := .signal p) h (.kill p ⟨hp, hsig.1, hsig.2, hh⟩) ⟨hpi, hblk⟩
          (hb.then_setRet hcur 0) hfd
      · refine turn_ret h (fun q hq => ?_) hb rfl hfd
        rw [hnamed q hq]
        exact hblk

/-- The running process joins a queue, blocks, and the next process is dispatched. -/
theorem block_turn (h : Ready s) (hcur : s.currproc ≠ .idle) {o : PcbPtr}
    (ho : o ≠ .idle ∧ (s.pcb o).currState ≠ .stopped) {q : BlockingQueue} (hq : owned q) {r : ℤ}
    {req : SyscallRequest} (hh : Handled s req (.block o q r)) {s1 : KernelOf Q}
    (hb : Becomes s (s.view.block o q r) s1) (hs : s1.reschedule = some s') : Turn s req s' := by
  obtain ⟨s2, hs2, hb2⟩ := hb.then_reschedule (h.sound.inv.block hcur ho.1 ho.2 hq r)
  rw [hs] at hs2
  obtain rfl := Option.some.inj hs2
  exact turn_of_becomes h hh ⟨hcur, ho.1, ho.2, hq⟩ hb2 h.closed

theorem not_mem_currproc (h : Ready s) (i : ListId) : s.currproc ∉ s.view.lists i :=
  h.sound.inv.not_mem_current i

/-- Blocking in a queue, in either order of the assignments. -/
theorem becomes_block (h : Ready s) (hcur : s.currproc ≠ .idle) {o : PcbPtr} {q : BlockingQueue}
    (hq : owned q) {s1 : KernelOf Q} {v : View} (hb : Becomes s v s1)
    (hv : ∃ st r, v = (s.view.enqueue s.currproc o q).set s.currproc fun x =>
      { x with state := st, ret := r }) (r : ℤ) :
    Becomes s (s.view.block o q r) ((s1.setPcb s.currproc fun x =>
      { x with currState := .blocked }).setPcb s.currproc fun x => { x with ret := r }) := by
  obtain ⟨st, r0, rfl⟩ := hv
  have hb1 := hb.trans (becomes_setPcb hb.wf s.currproc fun x =>
    { x with state := .blocked, ret := r })
  rw [hb.view] at hb1
  rw [View.block_eq (rfl : s.currproc = s.view.currproc) (not_mem_currproc h) hcur hq]
  have heq : ((s.view.enqueue s.currproc o q).set s.currproc fun x =>
      { x with state := st, ret := r0 }).set s.currproc (fun x =>
      { x with state := .blocked, ret := r }) =
      (s.view.enqueue s.currproc o q).set s.currproc fun x =>
        { x with state := .blocked, ret := r } := by
    simp [View.set]
  rw [heq] at hb1
  rw [setPcb_setPcb]
  exact hb1

theorem wait_turn (h : Ready s) (hcur : s.currproc ≠ .idle)
    (hs : s.dispatchSyscallWait = some s') : Turn s .wait s' := by
  unfold dispatchSyscallWait at hs
  dsimp only at hs
  cases ho : s.pidToProc (toInt (s.arg 0)) with
  | none =>
    rw [ho] at hs
    obtain rfl := Option.some.inj hs
    exact turn_same h rfl
  | some o =>
    rw [ho] at hs
    dsimp only at hs
    obtain ⟨hoi, -, hos⟩ := (pidToProc_eq_some_iff h.sound.inv).mp ho
    have hb := becomes_setPcb h.wf s.currproc fun x => { x with state := .blocked }
    obtain ⟨s1, hs1, hb1⟩ := addProcToBlockingQueue_spec (p := s.currproc) hb.wf
      (fun i => not_mem_currproc h i) o .waiting
    have hblock : s.blockCurrent.addProcToBlockingQueue s.blockCurrent.currproc o .waiting =
        some s1 := hs1
    obtain ⟨s2, hs2, hs⟩ := Option.bind_eq_some_iff.mp hs
    rw [hblock] at hs2
    obtain rfl := Option.some.inj hs2
    have hb2 := hb.trans hb1
    rw [hb.view] at hb2
    have hc1 : s1.currproc = s.currproc := hb2.currproc
    have hb3 := becomes_block h hcur (o := o) (.inr (.inr rfl) : owned .waiting) hb2
      ⟨.blocked, (s.pcb s.currproc).ret, by
        unfold View.enqueue View.set
        simp [Pcb.view]⟩ 0
    have hblk : (s1.pcb s.currproc).currState = .blocked := by
      rw [hb2.pcb]
      simp [Pcb.withView, View.enqueue]
    have hself : (s1.setPcb s.currproc fun x => { x with currState := .blocked }) = s1 := by
      refine setPcb_eq_self ?_
      rw [← hblk]
    rw [hself] at hb3
    refine block_turn h hcur ⟨hoi, hos⟩ (.inr (.inr rfl) : owned .waiting) (.wait o ho) hb3 ?_
    rw [← hs]
    unfold setRet
    rw [hc1]

/-- A request that does nothing. -/
theorem turn_nothing {req : SyscallRequest} (h : Ready s) (hr : Immediate s req s.current.ret) :
    Turn s req s := by
  have hself : s.setRet s.current.ret = s := setPcb_eq_self rfl
  have ht := turn_same h hr
  rwa [hself] at ht

/-- A live process that is blocked on something is blocked. -/
theorem blocked_of_queue (h : Inv run s.view) (hp : p ≠ .idle) (hs : (s.pcb p).currState ≠ .stopped)
    (hq : (s.pcb p).blockingQueueName ≠ .noBlocker) : (s.pcb p).currState = .blocked := by
  have hc := h.consistent p hp
  cases hst : (s.pcb p).currState with
  | ready => exact absurd (hc.free (.inl hst)).1 hq
  | running => exact absurd (hc.free (.inr hst)).1 hq
  | stopped => exact absurd hst hs
  | blocked => rfl

/-! ### Messages -/

omit [LawfulProcLists Q] in
theorem finishMsg_ok {s1 : KernelOf Q} (hs : finishMsg (syspidOk, s1) = some s') :
    s' = s1.setRet syspidOk := by
  have hne : syspidOk ≠ blockerr := by decide
  unfold finishMsg at hs
  rw [if_neg hne] at hs
  exact (Option.some.inj hs).symm

/-- A rendezvous ends with `SYSPID_OK` for both. -/
theorem deliver_turn (h : Ready s) (hcur : s.currproc ≠ .idle) {req : SyscallRequest}
    {src dst : PcbPtr} (hh : Handled s req (.deliver src dst)) (hm : Event.Meets s.view src dst)
    (hp : Event.peer s.view src dst = p) {m : Memory} {s1 : KernelOf Q}
    (hb : Becomes (s.setMem m) ((s.view.record src dst).unblock p syspidOk) s1)
    (hs : finishMsg (syspidOk, s1) = some s') : Turn s req s' := by
  rw [finishMsg_ok hs]
  subst hp
  exact turn_of_becomes h hh ⟨hcur, hm⟩ (hb.then_setRet rfl syspidOk) h.closed

theorem finishMsg_blocks (h : Ready s) (hcur : s.currproc ≠ .idle) {o : PcbPtr}
    (ho : o ≠ .idle ∧ (s.pcb o).currState ≠ .stopped) {q : BlockingQueue} (hq : owned q)
    {req : SyscallRequest} (hh : Handled s req (.block o q syspidDne)) {s1 : KernelOf Q}
    (hb : Becomes s (s.view.enqueue s.currproc o q) s1)
    (hs : finishMsg (blockerr, s1) = some s') : Turn s req s' := by
  have hb1 := hb.then_setRet rfl blockerr
  have hc1 : s1.currproc = s.currproc := hb.currproc
  have hb2 := becomes_block h hcur (o := o) hq hb1
    ⟨.running, blockerr, by
      have hrun := h.running
      unfold View.enqueue View.set View.setRet View.set
      simp [Pcb.view, hrun]⟩ syspidDne
  refine block_turn h hcur ho hq hh hb2 ?_
  unfold finishMsg at hs
  rw [if_pos rfl] at hs
  rw [← hs]
  unfold blockCurrent setRet
  simp only [setPcb_toCore, Core.setPcb_currproc, hc1]

theorem send_turn (h : Ready s) (hcur : s.currproc ≠ .idle) (hs : s.dispatchSyscallSend = some s') :
    Turn s .send s' := by
  unfold dispatchSyscallSend at hs
  dsimp only at hs
  split_ifs at hs with hme hlen
  · obtain rfl := Option.some.inj hs
    exact turn_same h (.inl rfl)
  · obtain rfl := Option.some.inj hs
    exact turn_same h (.inr (.inl rfl))
  · obtain ⟨result, -, hs⟩ := Option.bind_eq_some_iff.mp hs
    split_ifs at hs with hres
    · obtain rfl := Option.some.inj hs
      exact turn_same h (.inr (.inl rfl))
    · cases hd : s.pidToProc (toInt (s.arg 0)) with
      | none =>
        rw [hd] at hs
        obtain rfl := Option.some.inj hs
        exact turn_same h (.inr (.inr rfl))
      | some dst =>
        rw [hd] at hs
        dsimp only at hs
        obtain ⟨hdi, hdp, hds⟩ := (pidToProc_eq_some_iff h.sound.inv).mp hd
        obtain ⟨r, hr, hs⟩ := Option.bind_eq_some_iff.mp hs
        have hbuf : s.arg 1 ≠ 0 ∧ 0 < s.arg 2 := by
          unfold send at hr
          obtain ⟨u, hu, -⟩ := Option.bind_eq_some_iff.mp hr
          exact cAssert_eq_some.mp hu
        have hpeer : Event.peer s.view s.currproc dst = dst := if_pos rfl
        by_cases hany : (s.pcb dst).blockingQueueName = .receiveAny
        · have hblk := blocked_of_queue h.sound.inv hdi hds (by rw [hany]; simp)
          obtain ⟨s1, hs1, hb⟩ : ∃ s1, s.send s.currproc dst _ _ = some (syspidOk, s1) ∧
              Becomes _ _ s1 := send_any h.good hdi hblk hany hbuf
          rw [hr] at hs1
          obtain rfl := Option.some.inj hs1
          exact deliver_turn h hcur (.sendMeets dst hd) (.inl ⟨rfl, hdi, hblk, .inl hany⟩) hpeer
            hb hs
        · by_cases hrecv : (s.pcb dst).blockingQueueName = .receiver ∧
            (s.pcb dst).blockingProc = some s.currproc
          · have hblk := blocked_of_queue h.sound.inv hdi hds (by rw [hrecv.1]; simp)
            obtain ⟨s1, hs1, hb⟩ := send_receiver h.good hdi hblk hrecv.1 hrecv.2 hbuf
            rw [hr] at hs1
            obtain rfl := Option.some.inj hs1
            exact deliver_turn h hcur (.sendMeets dst hd) (.inl ⟨rfl, hdi, hblk, .inr hrecv⟩) hpeer
              hb hs
          · obtain ⟨s1, hs1, hb⟩ := send_blocks h.good (fun i => not_mem_currproc h i) hany
              (not_and_or.mp hrecv) hbuf
            rw [hr] at hs1
            obtain rfl := Option.some.inj hs1
            refine finishMsg_blocks h hcur ⟨hdi, hds⟩ (.inl rfl : owned .sender)
              (.sendBlocks dst hd fun hm => ?_) hb hs
            rcases hm with ⟨-, -, -, hm⟩ | ⟨-, -, hm, -⟩
            · exact hm.elim hany hrecv
            · exact h.current_not_blocked hm

/-- A receiver that takes from anyone blocks. -/
theorem recvAny_turn (h : Ready s) (hcur : s.currproc ≠ .idle) (h0 : s.fromPid = 0)
    (hl : s.view.lists (.queue (.blocking s.currproc .sender)) = [])
    (hs : finishMsg (blockerr, s.setPcb s.currproc fun x =>
      { x with blockingQueueName := .receiveAny }) = some s') : Turn s .recv s' := by
  have hrun := h.running
  have hfree : (s.pcb s.currproc).blockingProc = none :=
    ((h.sound.inv.consistent _ hcur).free (.inr hrun)).2
  have hb := becomes_setPcb h.wf s.currproc fun x =>
    { x with state := .blocked, queue := .receiveAny, ret := syspidDne }
  have hset : s.view.set s.currproc (fun x =>
      { x with state := .blocked, queue := .receiveAny, ret := syspidDne }) =
      s.view.blockAlone .receiveAny syspidDne := by
    rw [View.blockAlone_eq (rfl : s.currproc = s.view.currproc) (not_mem_currproc h)
      (by simp [owned]) (by simp)]
    unfold View.set
    simp only [view_proc, Pcb.view, hfree]
  rw [hset] at hb
  obtain ⟨s2, hs2, hb2⟩ := hb.then_reschedule (h.sound.inv.blockAlone hcur (.inl rfl) syspidDne)
  have heq : s' = s2 := by
    unfold finishMsg blockCurrent setRet at hs
    rw [if_pos rfl] at hs
    simp only [setPcb_toCore, Core.setPcb_currproc, setPcb_setPcb] at hs
    have hsame : some s' = some s2 := by
      rw [← hs, ← hs2]
      rfl
    exact Option.some.inj hsame
  rw [heq]
  refine turn_of_becomes h (.recvAnyBlocks h0 fun o hm => ?_) ⟨hcur, .inl rfl⟩ hb2 h.closed
  rcases hm with ⟨-, -, hb, -⟩ | ⟨-, hoi, hb, hname, hpeer⟩
  · exact h.current_not_blocked hb
  · have hmem : o ∈ s.view.lists (.queue (.blocking s.currproc .sender)) :=
      (h.sound.inv.mem_iff _ _).mpr
        ⟨hoi, ProcView.place_eq_blocking_iff.mpr ⟨hb, .inl rfl, hname, hpeer⟩⟩
    rw [hl] at hmem
    simp at hmem

/-- A receiver meets a sender that is blocked for it. -/
theorem recvMeets_turn (h : Ready s) (hcur : s.currproc ≠ .idle) {src : PcbPtr}
    (hp : s.pidToProc s.fromPid = some src ∨ s.fromPid = 0) (hsi : src ≠ .idle)
    (hblk : (s.pcb src).currState = .blocked) (hname : (s.pcb src).blockingQueueName = .sender)
    (hpeer : (s.pcb src).blockingProc = some s.currproc) {m : Memory} {s1 : KernelOf Q}
    (hb : Becomes (s.setMem m) ((s.view.record src s.currproc).unblock src syspidOk) s1)
    (hs : finishMsg (syspidOk, s1) = some s') : Turn s .recv s' := by
  have hne : src ≠ s.currproc := by
    rintro rfl
    have hrun := h.running
    rw [hrun] at hblk
    simp at hblk
  exact deliver_turn h hcur (.recvMeets src hp) (.inr ⟨rfl, hsi, hblk, hname, hpeer⟩) (if_neg hne)
    hb hs

theorem recv_turn (h : Ready s) (hcur : s.currproc ≠ .idle) (hs : s.dispatchSyscallRecv = some s') :
    Turn s .recv s' := by
  unfold dispatchSyscallRecv at hs
  dsimp only at hs
  obtain ⟨result, -, hs⟩ := Option.bind_eq_some_iff.mp hs
  split_ifs at hs with hres hlen
  · obtain rfl := Option.some.inj hs
    exact turn_same h (.inr (.inl rfl))
  · obtain rfl := Option.some.inj hs
    exact turn_same h (.inr (.inl rfl))
  · obtain ⟨result, -, hs⟩ := Option.bind_eq_some_iff.mp hs
    split_ifs at hs with hres
    · obtain rfl := Option.some.inj hs
      exact turn_same h (.inr (.inl rfl))
    · unfold recvFrom at hs
      split_ifs at hs with hme hzero
      · obtain rfl := Option.some.inj hs
        exact turn_same h (.inl rfl)
      · obtain ⟨r, hr, hs⟩ := Option.bind_eq_some_iff.mp hs
        have hbuf : s.arg 1 ≠ 0 ∧ 0 < s.arg 2 := by
          unfold recvAny at hr
          obtain ⟨u, hu, -⟩ := Option.bind_eq_some_iff.mp hr
          exact cAssert_eq_some.mp hu
        cases hl : s.view.lists (.queue (.blocking s.currproc .sender)) with
        | nil =>
          rw [recvAny_blocks h.good hl hbuf] at hr
          obtain rfl := Option.some.inj hr
          exact recvAny_turn h hcur hzero hl hs
        | cons src rest =>
          obtain ⟨hsi, hblk, -, hname, hpeer⟩ := queue_blocked h.sound.inv (p := src)
            (o := s.currproc) (q := .sender) (by rw [hl]; simp)
          obtain ⟨s1, hs1, hb⟩ := recvAny_sender h.good hl hbuf
          rw [hr] at hs1
          obtain rfl := Option.some.inj hs1
          exact recvMeets_turn h hcur (.inr hzero) hsi hblk hname hpeer hb hs
      · cases hp : s.pidToProc (toInt (load32 s.mem (s.arg 0))) with
        | none =>
          rw [hp] at hs
          obtain rfl := Option.some.inj hs
          exact turn_same h (.inr (.inr rfl))
        | some src =>
          rw [hp] at hs
          dsimp only at hs
          obtain ⟨hsi, -, hss⟩ := (pidToProc_eq_some_iff h.sound.inv).mp hp
          obtain ⟨r, hr, hs⟩ := Option.bind_eq_some_iff.mp hs
          have hbuf : s.arg 1 ≠ 0 ∧ 0 < s.arg 2 := by
            unfold recv at hr
            obtain ⟨u, hu, -⟩ := Option.bind_eq_some_iff.mp hr
            exact cAssert_eq_some.mp hu
          by_cases hsend : (s.pcb src).blockingQueueName = .sender ∧
            (s.pcb src).blockingProc = some s.currproc
          · have hblk := blocked_of_queue h.sound.inv hsi hss (by rw [hsend.1]; simp)
            obtain ⟨s1, hs1, hb⟩ := recv_sender h.good hsi hblk hsend.1 hsend.2 hbuf
            rw [hr] at hs1
            obtain rfl := Option.some.inj hs1
            exact recvMeets_turn h hcur (.inl hp) hsi hblk hsend.1 hsend.2 hb hs
          · obtain ⟨s1, hs1, hb⟩ := recv_blocks h.good (fun i => not_mem_currproc h i)
              (not_and_or.mp hsend) hbuf
            rw [hr] at hs1
            obtain rfl := Option.some.inj hs1
            refine finishMsg_blocks h hcur ⟨hsi, hss⟩ (.inr (.inl rfl) : owned .receiver)
              (.recvBlocks src hp fun hm => ?_) hb hs
            rcases hm with ⟨-, -, hm, -⟩ | ⟨-, -, -, hm⟩
            · exact h.current_not_blocked hm
            · exact hsend hm

end Xeros.Model.KernelOf
