import Xeros.Refinement.Dispatch

/-!
# Every turn of the dispatcher is one event

The remaining requests, and `step_turn`: with no device open, `dispatchStep` is one event on the
view in which the running process has the return code it left user mode with.
-/

set_option autoImplicit false

namespace Xeros.Model.KernelOf

open Xeros.Foundations Xeros.Abstract Xeros.Interface

variable {Q : Type} [ProcLists Q] [LawfulProcLists Q] {s s' : KernelOf Q} {p : PcbPtr} {t : Trap}

/-! ## Scheduling -/

theorem sleep_turn (h : Ready s) (hcur : s.currproc ≠ .idle)
    (hs : s.dispatchSyscallSleep = some s') : Turn s .sleep s' := by
  unfold dispatchSyscallSleep at hs
  dsimp only at hs
  split_ifs at hs with h0
  · obtain rfl := Option.some.inj hs
    exact turn_nothing h h0
  · obtain ⟨s1, hs1, hb⟩ := sleep_spec h.good h.sound.delta (Nat.pos_of_ne_zero h0)
      (load32_lt _ _)
    obtain ⟨s2, hs2, hb2⟩ := hb.then_reschedule (sleep_inv h.sound.inv hcur)
    obtain ⟨s1', hs1', hs⟩ := Option.bind_eq_some_iff.mp hs
    rw [hs1] at hs1'
    obtain rfl := Option.some.inj hs1'
    rw [hs2] at hs
    obtain rfl := Option.some.inj hs
    obtain ⟨ht1, htmax⟩ := ticksOf_range (Nat.pos_of_ne_zero h0) (load32_lt _ _)
    exact turn_of_becomes h (.sleep h0) ⟨hcur, ht1, htmax⟩ hb2 h.closed

/-- The running process gives up the processor, and the next one is dispatched. -/
theorem Becomes.then_yield {v : View} {s1 s2 : KernelOf Q} (h : Becomes s v s1)
    (hv : Inv (some s1.currproc) v) (hs2 : s1.addPcbToQueue s1.currproc .ready = some s2)
    (hs : s2.reschedule = some s') : Becomes s v.preempt.dispatch s' := by
  obtain ⟨s3, hs3, hb3⟩ := preempt_spec (h.good hv)
  rw [hs2] at hs3
  obtain rfl := Option.some.inj hs3
  have hb := h.trans hb3
  rw [h.view] at hb
  have hv' : Inv (some v.currproc) v := by
    rw [← h.currproc]
    exact hv
  obtain ⟨s4, hs4, hb4⟩ := hb.then_reschedule hv'.preempt
  rw [hs] at hs4
  obtain rfl := Option.some.inj hs4
  exact hb4

theorem yield_turn (h : Ready s) {s1 : KernelOf Q}
    (hs1 : s.addPcbToQueue s.currproc .ready = some s1) (hs : s1.reschedule = some s') :
    Turn s .yield s' := by
  have hb := (Becomes.refl h.wf).then_yield h.sound.inv hs1 hs
  refine turn_of_becomes (e := .yield) h .yield ?_ hb h.closed
  exact True.intro

theorem timer_turn (h : Ready s) (hs : s.timerHandler = some s') : Turn s .timerInt s' := by
  unfold timerHandler at hs
  dsimp only at hs
  obtain ⟨s1, hs1⟩ : ∃ s1, s1 = s.setPcb s.currproc
    fun x => { x with cpuTime := wrapInt (x.cpuTime + 1) } := ⟨_, rfl⟩
  rw [← hs1] at hs
  have hview : s1.view = s.view := by
    rw [hs1, view_setPcb]
    exact View.set_eq_self (by simp only [view_proc, Pcb.view])
  have hwf : LawfulProcLists.WellFormed s1.queues := by
    rw [hs1]
    exact h.wf
  have hfd : ∀ p fd, (s1.pcb p).fdTable fd = none := by
    intro p fd
    rw [hs1, setPcb_toCore, Core.setPcb_pcb]
    split_ifs with hp
    · exact h.closed _ fd
    · exact h.closed p fd
  have hg : Good (some s.currproc) s1 := ⟨hwf, by rw [hview]; exact h.sound.inv⟩
  obtain ⟨s2, hs2, hb2⟩ := tick_spec hg (by rw [hview]; exact h.sound.delta)
    (by rw [hview]; exact h.sound.head)
  have ht := Abstract.tick_spec h.sound.inv h.sound.delta h.sound.head
  rw [hview] at hb2
  have hc2 : s2.currproc = s.currproc := hb2.currproc.trans ht.currproc
  obtain ⟨s2', hs2', hs⟩ := Option.bind_eq_some_iff.mp hs
  rw [hs2] at hs2'
  obtain rfl := Option.some.inj hs2'
  obtain ⟨s3, hs3, hs⟩ := Option.bind_eq_some_iff.mp hs
  have hb := hb2.then_yield (by rw [hc2]; exact ht.inv) hs3 hs
  refine turn_of_becomes (e := .timer) h .timer ?_ hb hfd
  exact True.intro

/-- No descriptor is valid when none is open. -/
theorem checkFd_none {x : Pcb} (h : ∀ fd, x.fdTable fd = none) (fd : ℤ) : checkFd x fd = none := by
  unfold checkFd
  split_ifs with hfd
  · dsimp only
    rw [h]
    rfl
  · rfl

omit [ProcLists Q] [LawfulProcLists Q] in
/-- There is nothing to close. -/
theorem closeFds_closed (h : ∀ fd, (s.pcb p).fdTable fd = none) : s.closeFds p = s := by
  have hone : ∀ fd : ℤ, (s.diClose p fd).2 = s := by
    intro fd
    unfold diClose
    rw [checkFd_none h]
  unfold closeFds
  induction List.finRange pcbNumFds with
  | nil => rfl
  | cons fd fds ih => rw [List.foldl_cons, hone, ih]

theorem exit_turn (h : Ready s) (hcur : s.currproc ≠ .idle) {req : SyscallRequest}
    (hh : Handled s req .exit) {s1 : KernelOf Q} (hs1 : s.cleanupProc s.currproc = some s1)
    (hs : s1.reschedule = some s') : Turn s req s' := by
  have hs1' := hs1
  unfold cleanupProc at hs1'
  obtain ⟨u1, hu1, hs1'⟩ := Option.bind_eq_some_iff.mp hs1'
  obtain ⟨u2, hu2, -⟩ := Option.bind_eq_some_iff.mp hs1'
  obtain ⟨s2, hs2, hb⟩ := cleanupProc_spec h.good hcur hu1 hu2
  rw [hs1] at hs2
  obtain rfl := Option.some.inj hs2
  obtain ⟨heap1, -, rfl⟩ := kfree_eq hu1
  obtain ⟨heap2, -, rfl⟩ := kfree_eq hu2
  have hclosed : ((s.setHeap heap1).setHeap heap2).closeFds s.currproc =
      (s.setHeap heap1).setHeap heap2 := closeFds_closed fun fd => h.closed _ fd
  rw [hclosed] at hb
  have hinv := (terminate_spec h.sound.inv hcur).inv
  obtain ⟨s3, hs3, hb3⟩ := hb.then_reschedule hinv
  rw [hs] at hs3
  obtain rfl := Option.some.inj hs3
  exact turn_of_becomes (e := .exit) h hh hcur hb3 h.closed

/-! ## Requests that do not touch other processes -/

omit [ProcLists Q] [LawfulProcLists Q] in
theorem fillProcInfo_eq {ps slot : ℕ} (hs : s.fillProcInfo ps slot p = some s') :
    ∃ m, s' = s.setMem m := by
  unfold fillProcInfo at hs
  obtain ⟨-, -, hs⟩ := Option.bind_eq_some_iff.mp hs
  obtain ⟨-, -, hs⟩ := Option.bind_eq_some_iff.mp hs
  obtain rfl := Option.some.inj hs
  exact ⟨_, rfl⟩

omit [ProcLists Q] [LawfulProcLists Q] in
/-- Reporting the processes changes memory only. -/
theorem getAllProcInfo_eq {ps n : ℕ} (hs : s.getAllProcInfo ps = some (n, s')) :
    ∃ m, s' = s.setMem m := by
  have hfold : ∀ (l : List (Fin pcbTableSize)) (u v : ℕ × KernelOf Q),
      l.foldlM (procInfoRound ps) u = some v → ∃ m, v.2 = u.2.setMem m := by
    intro l
    induction l with
    | nil =>
      intro u v huv
      obtain rfl := Option.some.inj huv
      exact ⟨u.2.mem, rfl⟩
    | cons i l ih =>
      intro u v huv
      rw [List.foldlM_cons] at huv
      obtain ⟨w, hw, huv⟩ := Option.bind_eq_some_iff.mp huv
      obtain ⟨m, hm⟩ := ih w v huv
      have hwu : ∃ m, w.2 = u.2.setMem m := by
        unfold procInfoRound at hw
        split_ifs at hw
        · obtain ⟨u', hu', rfl⟩ := Option.map_eq_some_iff.mp hw
          exact fillProcInfo_eq hu'
        · obtain rfl := Option.some.inj hw
          exact ⟨u.2.mem, rfl⟩
      obtain ⟨m', hm'⟩ := hwu
      exact ⟨m, by rw [hm, hm', setMem_setMem]⟩
  unfold getAllProcInfo at hs
  obtain ⟨-, -, hs⟩ := Option.bind_eq_some_iff.mp hs
  obtain ⟨s1, hs1, hs⟩ := Option.bind_eq_some_iff.mp hs
  obtain ⟨m, rfl⟩ := fillProcInfo_eq hs1
  obtain ⟨m', hm'⟩ := hfold _ _ _ hs
  exact ⟨m', hm'⟩

/-- A request that is answered at once and changes memory. -/
theorem turn_mem {req : SyscallRequest} {r : ℤ} (h : Ready s) (hr : Immediate s req r) (m : Memory) :
    Turn s req ((s.setMem m).setRet r) := turn_heap h hr _

theorem cputimes_turn (h : Ready s) {r : ℤ × KernelOf Q}
    (hs : s.dispatchSyscallGetcputimes = some r) : Turn s .cputimes (setRetOf r) := by
  obtain ⟨r, s1⟩ := r
  rw [setRetOf_mk]
  unfold dispatchSyscallGetcputimes at hs
  dsimp only at hs
  obtain ⟨result, -, hs⟩ := Option.bind_eq_some_iff.mp hs
  split_ifs at hs with hres
  · obtain ⟨rfl, rfl⟩ := Option.some.inj hs
    refine turn_same h ?_
    exact True.intro
  · obtain ⟨⟨n, s2⟩, hs2, hs⟩ := Option.bind_eq_some_iff.mp hs
    obtain ⟨rfl, rfl⟩ := Option.some.inj hs
    obtain ⟨m, rfl⟩ := getAllProcInfo_eq hs2
    refine turn_mem h ?_ m
    exact True.intro

omit [ProcLists Q] [LawfulProcLists Q] in
/-- Printing changes memory at most. -/
theorem dispatchSyscallPuts_mem (hs : s.dispatchSyscallPuts = some s') : ∃ m, s' = s.setMem m := by
  unfold dispatchSyscallPuts at hs
  dsimp only at hs
  obtain ⟨result, -, hs⟩ := Option.bind_eq_some_iff.mp hs
  split_ifs at hs
  · obtain ⟨m, -, hs⟩ := Option.bind_eq_some_iff.mp hs
    exact ⟨m, (Option.some.inj hs).symm⟩
  · exact ⟨s.mem, (Option.some.inj hs).symm⟩

theorem puts_turn (h : Ready s) (hs : s.dispatchSyscallPuts = some s') : Turn s .puts s' := by
  obtain ⟨m, rfl⟩ := dispatchSyscallPuts_mem hs
  have hself : (s.setMem m).setRet s.current.ret = s.setMem m := setPcb_eq_self rfl
  rw [← hself]
  refine turn_mem h ?_ m
  exact True.intro

theorem sighandler_turn (h : Ready s) {r : ℤ × KernelOf Q}
    (hs : s.dispatchSyscallSighandler = some r) : Turn s .sighandler (setRetOf r) := by
  obtain ⟨r, s1⟩ := r
  rw [setRetOf_mk]
  unfold dispatchSyscallSighandler at hs
  dsimp only at hs
  split_ifs at hs with hsig
  · obtain ⟨rfl, rfl⟩ := Option.some.inj hs
    refine turn_same h ?_
    exact True.intro
  all_goals
    obtain ⟨newResult, -, hs⟩ := Option.bind_eq_some_iff.mp hs
    split_ifs at hs with hnew
    · obtain ⟨rfl, rfl⟩ := Option.some.inj hs
      refine turn_same h ?_
      exact True.intro
    · obtain ⟨oldResult, -, hs⟩ := Option.bind_eq_some_iff.mp hs
      split_ifs at hs with hold
      · obtain ⟨rfl, rfl⟩ := Option.some.inj hs
        refine turn_same h ?_
        exact True.intro
      · obtain ⟨rfl, rfl⟩ := Option.some.inj hs
        refine turn_mem h ?_ _
        exact True.intro

theorem sigreturn_turn (h : Ready s) (hcur : s.currproc ≠ .idle)
    (hs : s.dispatchSyscallSigreturn = some s') : Turn s .sigreturn s' := by
  unfold dispatchSyscallSigreturn at hs
  dsimp only at hs
  obtain ⟨result, -, hs⟩ := Option.bind_eq_some_iff.mp hs
  split_ifs at hs with hres
  · obtain ⟨s1, hs1, hs⟩ := Option.bind_eq_some_iff.mp hs
    exact exit_turn h hcur .badSigreturn hs1 hs
  · obtain rfl := Option.some.inj hs
    obtain ⟨r, hr⟩ : ∃ r, toInt (load32 s.mem (subWord (s.arg 0) 4)) = r := ⟨_, rfl⟩
    rw [hr]
    obtain ⟨sp, hsp⟩ : ∃ sp, s.arg 0 = sp := ⟨_, rfl⟩
    rw [hsp]
    have hr' : Immediate s .sigreturn r := True.intro
    obtain ⟨hready, e, he⟩ := turn_same h hr'
    have hview : ((s.setRet r).setPcb (s.setRet r).currproc fun x =>
        { x with esp := sp, signalsEnabled := true }).view = (s.setRet r).view := by
      rw [view_setPcb]
      exact View.set_eq_self (by simp only [view_proc, Pcb.view])
    refine ⟨⟨hready.wf, ?_, fun p fd => ?_⟩, e, ?_⟩
    · rw [hview]
      exact hready.sound
    · rw [setPcb_toCore, Core.setPcb_pcb]
      split_ifs with hp
      · exact hready.closed _ fd
      · exact hready.closed p fd
    · rw [hview]
      exact he

/-- No descriptor is valid while no device is open. -/
theorem checkFd_closed (h : Ready s) (p : PcbPtr) (fd : ℤ) : checkFd (s.pcb p) fd = none :=
  checkFd_none (h.closed p) fd

theorem write_turn (h : Ready s) (hs : s.dispatchSyscallWrite = some s') : Turn s .write s' := by
  unfold dispatchSyscallWrite at hs
  dsimp only at hs
  obtain ⟨result, -, hs⟩ := Option.bind_eq_some_iff.mp hs
  obtain ⟨written, -, hs⟩ := Option.bind_eq_some_iff.mp hs
  obtain rfl := Option.some.inj hs
  split_ifs with hres
  · have heq : (s.setRet syserr).setRet written = s.setRet written := setPcb_setPcb s _ _ _
    rw [heq]
    refine turn_same h ?_
    exact True.intro
  · refine turn_same h ?_
    exact True.intro

theorem read_turn (h : Ready s) (hs : s.dispatchSyscallRead = some s') : Turn s .read s' := by
  unfold dispatchSyscallRead at hs
  dsimp only at hs
  obtain ⟨result, -, hs⟩ := Option.bind_eq_some_iff.mp hs
  split_ifs at hs with hres
  · obtain rfl := Option.some.inj hs
    refine turn_same h ?_
    exact True.intro
  · unfold diRead at hs
    rw [checkFd_closed h] at hs
    obtain rfl := Option.some.inj hs
    refine turn_same h ?_
    exact True.intro

/-! ## A whole turn -/

/-- The requests that are not about the keyboard device. -/
def SyscallRequest.Deviceless (req : SyscallRequest) : Prop := req ≠ .keyboardInt ∧ req ≠ .sysopen

theorem dispatchRequest_turn (h : Ready s) {req : SyscallRequest}
    (hreq : SyscallRequest.Deviceless req) (hcur : req ≠ .timerInt → s.currproc ≠ .idle)
    (hs : s.dispatchRequest t req = some s') : Turn s req s' := by
  unfold dispatchRequest at hs
  cases req with
  | timerInt => exact timer_turn h hs
  | keyboardInt => exact absurd rfl hreq.1
  | create =>
    obtain ⟨r, hr, rfl⟩ := Option.map_eq_some_iff.mp hs
    exact create_turn h hr
  | yield =>
    obtain ⟨s1, hs1, hs⟩ := Option.bind_eq_some_iff.mp hs
    exact yield_turn h hs1 hs
  | stop =>
    obtain ⟨s1, hs1, hs⟩ := Option.bind_eq_some_iff.mp hs
    exact exit_turn h (hcur (by simp)) .stop hs1 hs
  | getpid =>
    obtain rfl := Option.some.inj hs
    refine turn_same h ?_
    exact True.intro
  | kill =>
    obtain ⟨r, hr, rfl⟩ := Option.map_eq_some_iff.mp hs
    exact kill_turn h hr
  | wait => exact wait_turn h (hcur (by simp)) hs
  | puts => exact puts_turn h hs
  | send => exact send_turn h (hcur (by simp)) hs
  | recv => exact recv_turn h (hcur (by simp)) hs
  | sleep => exact sleep_turn h (hcur (by simp)) hs
  | cputimes =>
    obtain ⟨r, hr, rfl⟩ := Option.map_eq_some_iff.mp hs
    exact cputimes_turn h hr
  | sighandler =>
    obtain ⟨r, hr, rfl⟩ := Option.map_eq_some_iff.mp hs
    exact sighandler_turn h hr
  | sigreturn => exact sigreturn_turn h (hcur (by simp)) hs
  | sysopen => exact absurd rfl hreq.2
  | close =>
    obtain rfl := Option.some.inj hs
    unfold dispatchSyscallClose diClose
    rw [checkFd_closed h]
    refine turn_same h ?_
    exact True.intro
  | write => exact write_turn h hs
  | read => exact read_turn h hs
  | ioctl =>
    obtain rfl := Option.some.inj hs
    unfold dispatchSyscallIoctl diIoctl
    rw [checkFd_closed h]
    refine turn_same h ?_
    exact True.intro

/-! ## Between two turns -/

/-- What the running process has in `eax` when it enters the kernel. -/
def Trap.eax (t : Trap) : ℤ := toInt (load32 t.mem (t.esp + 28))

theorem enterUser_view {s1 : KernelOf Q} (h : Ready s) (hs : s.enterUser s.currproc = some s1) :
    Ready s1 ∧ s1.view = s.view := by
  obtain ⟨hsame, hq⟩ := enterUser_same (findsSelf h.sound.inv _) hs
  have hview : s1.view = s.view := by
    unfold view
    rw [hq, hsame.currproc, hsame.transfers]
    congr 1
    funext p
    exact hsame.view p
  refine ⟨⟨by rw [hq]; exact h.wf, by rw [hview]; exact h.sound, fun p fd => ?_⟩, hview⟩
  rw [hsame.fdTable]
  exact h.closed p fd

theorem leaveUser_view (h : Ready s) (t : Trap) :
    Ready (s.leaveUser s.currproc t) ∧
      (s.leaveUser s.currproc t).view = s.view.setRet s.currproc (Trap.eax t) := by
  have hview : (s.leaveUser s.currproc t).view = s.view.setRet s.currproc (Trap.eax t) := by
    unfold leaveUser
    rw [view_setPcb]
    rfl
  refine ⟨⟨h.wf, ?_, fun p fd => ?_⟩, hview⟩
  · rw [hview]
    exact h.sound.setRet_current _
  · unfold leaveUser
    rw [setPcb_toCore, Core.setPcb_pcb]
    split_ifs with hp
    · exact h.closed _ fd
    · exact h.closed p fd

/-- The kernel as the handler of the trap `t` finds it. -/
def atTrap (s : KernelOf Q) (t : Trap) : Option (KernelOf Q) :=
  (s.enterUser s.currproc).map fun u => u.leaveUser u.currproc t

omit [LawfulProcLists Q] in
/-- A turn is a trap and the handling of a request. -/
theorem dispatchStep_eq_some (hs : s.dispatchStep t = some s') :
    ∃ s1 req, s.atTrap t = some s1 ∧ t.request = some req ∧ s1.dispatchRequest t req = some s' := by
  unfold dispatchStep handleTrap at hs
  obtain ⟨u, hu, hs⟩ := Option.bind_eq_some_iff.mp hs
  obtain ⟨req, hreq, hs⟩ := Option.bind_eq_some_iff.mp hs
  refine ⟨u.leaveUser u.currproc t, req, ?_, hreq, hs⟩
  unfold atTrap
  rw [hu]
  rfl

theorem atTrap_view {s1 : KernelOf Q} (h : Ready s) (hs : s.atTrap t = some s1) :
    Ready s1 ∧ s1.currproc = s.currproc ∧
      s1.view = s.view.setRet s.currproc (Trap.eax t) := by
  unfold atTrap at hs
  obtain ⟨u, hu, rfl⟩ := Option.map_eq_some_iff.mp hs
  obtain ⟨hready, hview⟩ := enterUser_view h hu
  obtain ⟨hready', hview'⟩ := leaveUser_view hready t
  have hc : u.currproc = s.currproc := congrArg View.currproc hview
  exact ⟨hready', hc, by rw [hview', hview, hc]⟩

/-- Only the timer interrupts the idle process. -/
theorem reason_of_request {req : SyscallRequest} (h : t.request = some req)
    (hreq : SyscallRequest.Deviceless req) (hn : req ≠ .timerInt) : t.reason = .syscall := by
  unfold Trap.request Trap.reqId at h
  cases hr : t.reason with
  | syscall => rfl
  | timer =>
    rw [hr] at h
    exact absurd (Option.some.inj h).symm hn
  | keyboard =>
    rw [hr] at h
    exact absurd (Option.some.inj h).symm hreq.1

/-- A trap whose request is not about the keyboard device. -/
def Deviceless (t : Trap) : Prop := ∀ req, t.request = some req → SyscallRequest.Deviceless req

/-- With no device open, a turn of the dispatcher is one event. -/
theorem step_turn (h : Ready s) (he : s.Enabled t) (ht : Deviceless t)
    (hs : s.dispatchStep t = some s') :
    ∃ s1 req, s.atTrap t = some s1 ∧ t.request = some req ∧ Ready s1 ∧
      s1.view = s.view.setRet s.currproc (Trap.eax t) ∧ Turn s1 req s' := by
  obtain ⟨s1, req, hs1, hreq, hs⟩ := dispatchStep_eq_some hs
  obtain ⟨hready, hc, hview⟩ := atTrap_view h hs1
  refine ⟨s1, req, hs1, hreq, hready, hview, ?_⟩
  refine dispatchRequest_turn hready (ht req hreq) (fun hn => ?_) hs
  rw [hc]
  exact he.1 (reason_of_request hreq (ht req hreq) hn)

theorem step_ready (h : Ready s) (he : s.Enabled t) (ht : Deviceless t)
    (hs : s.dispatchStep t = some s') : Ready s' := by
  obtain ⟨s1, req, -, -, -, -, hturn⟩ := step_turn h he ht hs
  exact hturn.1

end Xeros.Model.KernelOf
