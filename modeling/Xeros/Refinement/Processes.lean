import Xeros.Abstract.Release
import Xeros.Refinement.Sleep

/-!
# What pcb.c does to the view

Signals, the end of a process and the choice of a control block for a new one.
-/

set_option autoImplicit false

namespace Xeros.Model.KernelOf

open Xeros.Foundations Xeros.Abstract Xeros.Interface

variable {Q : Type} [ProcLists Q] [LawfulProcLists Q] {s : KernelOf Q} {run : Option PcbPtr}
  {p : PcbPtr}

/-! ## Signals -/

/-- A blocked process that is not asleep is taken out of its queue. -/
theorem resolveBlocking_awake (h : Good run s) (hp : p ≠ .idle)
    (hb : (s.pcb p).currState = .blocked) (hq : (s.pcb p).blockingQueueName ≠ .sleep) :
    ∃ s', s.resolveBlocking p = some s' ∧
      Becomes s (s.view.take p { s.view.proc p with
        queue := .noBlocker
        peer := none
        ret := signalledRet (s.pcb p).blockingQueueName (s.pcb p).ret }) s' := by
  have hcons := h.inv.consistent p hp
  have hnamed : (s.pcb p).blockingQueueName ≠ .noBlocker := hcons.named hb
  set r := signalledRet (s.pcb p).blockingQueueName (s.pcb p).ret with hr
  set s1 := s.setPcb p (fun x => { x with ret := signalledRet x.blockingQueueName x.ret }) with hs1
  have hb1 : Becomes s (s.view.setRet p r) s1 :=
    becomes_setPcb h.wf p fun x => { x with ret := signalledRet x.queue x.ret }
  have hg1 : Good run s1 := hb1.good (h.inv.setRet p r)
  have hp1 : (s1.pcb p).view = { s.view.proc p with ret := r } := by
    rw [← view_proc, hb1.view, View.setRet_proc_self]
  have hname1 : (s1.pcb p).blockingQueueName = (s.pcb p).blockingQueueName :=
    congrArg ProcView.queue hp1
  have hpeer1 : (s1.pcb p).blockingProc = (s.pcb p).blockingProc := congrArg ProcView.peer hp1
  have hstate1 : (s1.pcb p).currState = .blocked := (congrArg ProcView.state hp1).trans hb
  unfold resolveBlocking
  simp only [hnamed, ne_eq, not_false_eq_true, cAssert_pos, hb, Option.bind_eq_bind,
    Option.bind_some]
  rw [← hs1, hname1]
  by_cases hown : owned (s.pcb p).blockingQueueName
  · obtain ⟨o, ho, hpeer⟩ := hcons.peer hb hown
    have hpeer' : (s1.pcb p).blockingProc = some o := hpeer1.trans hpeer
    obtain ⟨s2, hs2, hb2⟩ :=
      removeProcFromBlockingQueue_in hg1 hp hstate1 hown hname1 hpeer'
    have hfin : Becomes s (s.view.take p { s.view.proc p with
        queue := .noBlocker, peer := none, ret := r }) s2 := by
      have hbb := hb1.trans hb2
      have heq : s1.view.take p { s1.view.proc p with queue := .noBlocker, peer := none } =
          s.view.take p { s.view.proc p with queue := .noBlocker, peer := none, ret := r } := by
        rw [hb1.view]
        unfold View.take
        simp [View.setRet, View.set]
      rwa [heq] at hbb
    refine ⟨s2, ?_, hfin⟩
    rw [hpeer']
    rcases hown with hq' | hq' | hq' <;> rw [hq'] at hs2 ⊢ <;>
      simp only [hs2, Option.bind_some, cAssert_pos, Option.pure_def]
  · have hpeer : (s.pcb p).blockingProc = none := hcons.alone hb hown
    have hpeer' : (s1.pcb p).blockingProc = none := hpeer1.trans hpeer
    have hplace : (s.view.proc p).place = none := by
      have hq' : (s.view.proc p).queue ≠ .sleep := hq
      have hown' : ¬ owned (s.view.proc p).queue := hown
      rw [ProcView.place_blocked hb, if_neg hown', if_neg hq']
    have hnot := h.inv.not_mem hplace
    refine ⟨s1.setPcb p fun x => { x with blockingQueueName := .noBlocker }, ?_, ?_⟩
    · cases hq' : (s.pcb p).blockingQueueName with
      | sender => exact absurd (.inl hq') hown
      | receiver => exact absurd (.inr (.inl hq')) hown
      | waiting => exact absurd (.inr (.inr hq')) hown
      | sleep => exact absurd hq' hq
      | noBlocker => exact absurd hq' hnamed
      | receiveAny => simp [hpeer', cAssert_pos]
      | device => simp [hpeer', cAssert_pos]
    · have hbb := hb1.trans (becomes_setPcb hb1.wf p fun x => { x with queue := .noBlocker })
      have heq : s1.view.set p (fun x => { x with queue := .noBlocker }) =
          s.view.take p { s.view.proc p with queue := .noBlocker, peer := none, ret := r } := by
        rw [hb1.view]
        have hset := View.take_eq_set hnot fun x =>
          { x with queue := .noBlocker, peer := none, ret := r }
        rw [hset]
        have hpn : (s.view.proc p).peer = none := hpeer
        unfold View.setRet View.set
        simp [-view_proc, hpn]
      rwa [heq] at hbb

/-- `resolve_blocking`, and then `add_pcb_to_queue` with `READY`. -/
theorem interrupt_spec (h : Good run s) (hd : Delta s.view) (hp : p ≠ .idle)
    (hb : (s.pcb p).currState = .blocked) :
    ∃ s', (s.resolveBlocking p >>= fun s1 => s1.addPcbToQueue p .ready) = some s' ∧
      Becomes s (s.view.interrupt p) s' := by
  by_cases hq : (s.pcb p).blockingQueueName = .sleep
  · have hpm : p ∈ s.view.sleepers :=
      (h.inv.mem_iff _ _).mpr ⟨hp, ProcView.place_eq_sleeping_iff.mpr ⟨hb, hq⟩⟩
    obtain ⟨a, b, hl⟩ := List.append_of_mem hpm
    obtain ⟨s', hs', hb'⟩ := wake_ready_spec h hd hl
    have hret : s.setPcb p (fun x => { x with ret := signalledRet x.blockingQueueName x.ret }) =
        s := by
      have hsame : signalledRet (s.pcb p).blockingQueueName (s.pcb p).ret = (s.pcb p).ret := by
        rw [hq]
        rfl
      refine setPcb_eq_self ?_
      rw [hsame]
    have hres : s.resolveBlocking p = s.wake p := by
      unfold resolveBlocking
      simp only [hq, ne_eq, reduceCtorEq, not_false_eq_true, cAssert_pos, hb, Option.bind_eq_bind,
        Option.bind_some, hret]
    refine ⟨s', by rw [hres]; exact hs', ?_⟩
    unfold View.interrupt
    have hq' : (s.view.proc p).queue = .sleep := hq
    rw [if_pos hq', successor_eq h.inv hl]
    exact hb'
  · obtain ⟨s1, hs1, hb1⟩ := resolveBlocking_awake h hp hb hq
    obtain ⟨s2, hs2, hb2⟩ := addPcbToQueue_take h.inv hb1.wf hb1.view hp
      (h.inv.pid_ne_zero hp) (t := .ready) (.inl rfl) (by
        show (s.pcb p).currState ≠ .ready
        rw [hb]
        simp)
    refine ⟨s2, by rw [hs1]; exact hs2, ?_⟩
    unfold View.interrupt
    have hq' : (s.view.proc p).queue ≠ .sleep := hq
    rw [if_neg hq']
    exact hb1.trans hb2

/-- What `set_proc_signal` does: nothing, or the signal is marked, and a blocked process is
interrupted. -/
inductive SignalOutcome (s : KernelOf Q) (p : PcbPtr) (signal : ℤ) : ℤ → KernelOf Q → Prop
  | invalid (hsig : signal < 0 ∨ signal ≥ signalTableSize) :
    SignalOutcome s p signal syskillInvalidSignal s
  | ignored (hsig : 0 ≤ signal ∧ signal < signalTableSize)
      (hh : s.handlerOf p signal.toNat = 0) : SignalOutcome s p signal 0 s
  | marked {s' : KernelOf Q} (hsig : 0 ≤ signal ∧ signal < signalTableSize)
      (hh : s.handlerOf p signal.toNat ≠ 0)
      (hb : Becomes (s.setPcb p fun x =>
          { x with signalsFired := flagBitSet x.signalsFired signal.toNat })
        (if (s.pcb p).currState = .blocked then s.view.interrupt p else s.view) s') :
    SignalOutcome s p signal 0 s'

theorem setProcSignal_spec (h : Good run s) (hd : Delta s.view) (hp : p ≠ .idle) (signal : ℤ) :
    ∃ r s', s.setProcSignal p signal = some (r, s') ∧ SignalOutcome s p signal r s' := by
  unfold setProcSignal
  by_cases hsig : signal < 0 ∨ signal ≥ signalTableSize
  · rw [if_pos hsig]
    exact ⟨_, _, rfl, .invalid hsig⟩
  · rw [if_neg hsig]
    rw [not_or, not_lt, not_le] at hsig
    by_cases hh : s.handlerOf p signal.toNat = 0
    · rw [if_neg (not_not.mpr hh)]
      exact ⟨0, _, rfl, .ignored hsig hh⟩
    · rw [if_pos hh]
      set s1 := s.setPcb p (fun x =>
        { x with signalsFired := flagBitSet x.signalsFired signal.toNat }) with hs1
      have hview : s1.view = s.view := by
        rw [hs1, view_setPcb]
        exact View.set_eq_self rfl
      have hb1 : Becomes s1 s.view s1 := hview ▸ Becomes.refl h.wf
      have hg1 : Good run s1 := hb1.good h.inv
      have hstate : (s1.pcb p).currState = (s.pcb p).currState := by simp [hs1]
      by_cases hblk : (s.pcb p).currState = .blocked
      · obtain ⟨s', hs', hb'⟩ := interrupt_spec hg1 (hview ▸ hd) hp (hstate.trans hblk)
        rw [hview] at hb'
        refine ⟨0, s', ?_, .marked hsig hh (by rw [if_pos hblk]; exact hb')⟩
        simp only [hstate, if_pos hblk]
        rw [← bind_assoc, hs']
        rfl
      · refine ⟨0, s1, ?_, .marked hsig hh (by rw [if_neg hblk]; exact hb1)⟩
        simp only [hstate, if_neg hblk]

/-! ## The end of a process -/

/-- The loop of `notify_blocked_procs` releases the members of the queue in order. -/
theorem notifyLoop_spec {o : PcbPtr} {q : BlockingQueue} (hq : owned q) (l : List PcbPtr)
    (h : Good run s) (hl : s.view.lists (.queue (.blocking o q)) = l) {n : ℕ} (hn : l.length < n) :
    ∃ s', loop (notifyRound o q) n s = some s' ∧ Becomes s (View.release l s.view) s' := by
  induction l generalizing s n with
  | nil =>
    obtain ⟨n, rfl⟩ : ∃ m, n = m + 1 := ⟨n - 1, by simp at hn; omega⟩
    have hhead : ProcLists.head s.queues (.blocking o q) = none :=
      (LawfulProcLists.head h.wf _).trans (congrArg List.head? hl)
    refine ⟨s, loop_succ_done n ?_, Becomes.refl h.wf⟩
    unfold notifyRound
    rw [hhead]
  | cons p l ih =>
    obtain ⟨n, rfl⟩ : ∃ m, n = m + 1 := ⟨n - 1, by omega⟩
    have hhead : ProcLists.head s.queues (.blocking o q) = some p :=
      (LawfulProcLists.head h.wf _).trans (congrArg List.head? hl)
    obtain ⟨hpi, hblk, -, hname, hpeer⟩ := queue_blocked h.inv (p := p) (o := o) (q := q)
      (by rw [hl]; simp)
    obtain ⟨s1, hs1, hb1⟩ := removeProcFromBlockingQueue_in h hpi hblk hq hname hpeer
    obtain ⟨s2, hs2, hb2⟩ := addPcbToQueue_take h.inv hb1.wf hb1.view hpi
      (h.inv.pid_ne_zero hpi) (t := .ready) (.inl rfl) (by simp only [hblk]; simp)
    have hbb : Becomes s (s.view.unblock p (s.view.proc p).ret) s2 := hb1.trans hb2
    have hg2 : Good run s2 := hbb.good (h.inv.unblock hpi hblk _)
    have hpl : p ∉ l := by
      have hnd := h.inv.nodup (.queue (.blocking o q))
      rw [hl] at hnd
      exact (List.nodup_cons.mp hnd).1
    have hl2 : s2.view.lists (.queue (.blocking o q)) = l := by
      rw [hbb.view, unblock_lists hpi, hl]
      simp
    obtain ⟨s', hs', hb'⟩ := ih hg2 hl2 (by simpa using hn)
    rw [hbb.view] at hb'
    refine ⟨s', ?_, hbb.trans hb'⟩
    have hround : notifyRound o q s = some (.again s2) := by
      unfold notifyRound
      rw [hhead]
      simp [hs1, hs2, cAssert_pos]
    rw [loop_succ_again n hround, hs']

theorem notifyBlockedProcs_spec (h : Good run s) (o : PcbPtr) {q : BlockingQueue} (hq : owned q) :
    ∃ s', s.notifyBlockedProcs o q = some s' ∧ Becomes s (s.view.notify o q) s' := by
  refine notifyLoop_spec hq _ h rfl ?_
  have hlen := LawfulProcLists.length_le h.wf (.queue (.blocking o q))
  rw [view_lists]
  unfold loopBound
  omega

omit [ProcLists Q] [LawfulProcLists Q] in
/-- Closing a descriptor does not look at what the view has, except for the pid. -/
theorem diClose_withView {s s' : KernelOf Q} {v : View} (hc : s'.toCore = s.toCore.withView v)
    (hpid : (v.proc p).pid = (s.pcb p).pid) (fd : ℤ) :
    (s'.diClose p fd).2.toCore = (s.diClose p fd).2.toCore.withView v := by
  have hfd : (s'.pcb p).fdTable = (s.pcb p).fdTable := by rw [hc]; rfl
  have hkbd : s'.kbd = s.kbd := by rw [hc]; rfl
  have hpid' : (s'.pcb p).pid = (s.pcb p).pid := by rw [hc]; exact hpid
  have hcheck : checkFd (s'.pcb p) fd = checkFd (s.pcb p) fd := by
    unfold checkFd
    rw [hfd]
  unfold diClose
  rw [hcheck, hkbd, hpid']
  cases checkFd (s.pcb p) fd with
  | none => exact hc
  | some r =>
    dsimp only
    split_ifs
    · unfold setKbd
      rw [hc]
      rfl
    · unfold setKbd setPcb Core.setPcb
      rw [hc]
      unfold Core.withView
      simp only [Core.mk.injEq, true_and, and_true]
      funext q
      by_cases hqp : q = p
      · subst hqp
        simp [Pcb.withView]
      · simp [hqp]

/-- Closing a descriptor does not change the view. -/
theorem diClose_view (s : KernelOf Q) (p : PcbPtr) (fd : ℤ) :
    (s.diClose p fd).2.view = s.view ∧ (s.diClose p fd).2.queues = s.queues := by
  unfold diClose
  cases checkFd (s.pcb p) fd with
  | none => exact ⟨rfl, rfl⟩
  | some r =>
    dsimp only
    split_ifs
    · exact ⟨rfl, rfl⟩
    · refine ⟨?_, rfl⟩
      rw [view_setPcb]
      exact View.set_eq_self rfl

theorem closeFds_withView {s s' : KernelOf Q} {v : View} (hc : s'.toCore = s.toCore.withView v)
    (hpid : (v.proc p).pid = (s.pcb p).pid) :
    (s'.closeFds p).toCore = (s.closeFds p).toCore.withView v := by
  unfold closeFds
  generalize List.finRange pcbNumFds = fds
  induction fds generalizing s s' with
  | nil => exact hc
  | cons fd fds ih =>
    refine ih (diClose_withView hc hpid fd.val) ?_
    have hview := congrArg (fun w => (View.proc w p).pid) (diClose_view s p fd.val).1
    exact hpid.trans hview.symm

theorem closeFds_view (s : KernelOf Q) (p : PcbPtr) :
    (s.closeFds p).view = s.view ∧ (s.closeFds p).queues = s.queues := by
  unfold closeFds
  generalize List.finRange pcbNumFds = fds
  induction fds generalizing s with
  | nil => exact ⟨rfl, rfl⟩
  | cons fd fds ih =>
    obtain ⟨h1, h2⟩ := ih (s.diClose p fd.val).2
    obtain ⟨h3, h4⟩ := diClose_view s p fd.val
    exact ⟨h1.trans h3, h2.trans h4⟩

omit [ProcLists Q] [LawfulProcLists Q] in
/-- `kfree` changes the heap only. -/
theorem kfree_eq {s s' : KernelOf Q} {ptr : ℕ} (h : s.kfree ptr = some s') :
    ∃ heap, s.toHeap.kfree ptr = some heap ∧ s' = s.setHeap heap := by
  unfold KernelOf.kfree at h
  obtain ⟨heap, hheap, rfl⟩ := Option.map_eq_some_iff.mp h
  exact ⟨heap, hheap, rfl⟩

/-- `cleanup_proc` on the running process, after the two calls of `kfree`. -/
theorem cleanupProc_spec (h : Good (some s.currproc) s) (hcur : s.currproc ≠ .idle)
    {s1 s2 : KernelOf Q} (h1 : s.kfree (s.pcb s.currproc).memoryRegion = some s1)
    (h2 : s1.kfree (s1.pcb s.currproc).signalTable = some s2) :
    ∃ s', s.cleanupProc s.currproc = some s' ∧
      Becomes (s2.closeFds s.currproc) s.view.terminate s' := by
  obtain ⟨heap1, -, hs1⟩ := kfree_eq h1
  obtain ⟨heap2, -, hs2⟩ := kfree_eq h2
  have hview2 : s2.view = s.view := by rw [hs2, hs1]; rfl
  set p := s.currproc with hp
  have hg2 : Good (some p) s2 := ⟨by rw [hs2, hs1]; exact h.wf, by rw [hview2]; exact h.inv⟩
  obtain ⟨t1, ht1, hb1⟩ := notifyBlockedProcs_spec hg2 p (q := .sender) (.inl rfl)
  have hn1 := notify_spec hg2.inv p .sender
  obtain ⟨t2, ht2, hb2⟩ := notifyBlockedProcs_spec (hb1.good hn1.inv) p (q := .receiver)
    (.inr (.inl rfl))
  have hn2 := notify_spec (hb1.good hn1.inv).inv p .receiver
  obtain ⟨t3, ht3, hb3⟩ := notifyBlockedProcs_spec (hb2.good hn2.inv) p (q := .waiting)
    (.inr (.inr rfl))
  have hn3 := notify_spec (hb2.good hn2.inv).inv p .waiting
  have hb := hb1.trans (hb2.trans hb3)
  have hinv3 := hn3.inv
  have hcurr3 := hn3.currproc.trans ((congrArg View.currproc hb2.view).trans
    (hn2.currproc.trans ((congrArg View.currproc hb1.view).trans hn1.currproc)))
  have hpid3 := (hn3.pid p).trans ((congrArg (fun w => (View.proc w p).pid) hb2.view).trans
    ((hn2.pid p).trans ((congrArg (fun w => (View.proc w p).pid) hb1.view).trans (hn1.pid p))))
  rw [hb2.view, hb1.view, hview2] at hb hinv3 hcurr3 hpid3
  have hcurr : s.view.currproc = p := rfl
  rw [hcurr] at hcurr3
  set v3 := ((s.view.notify p .sender).notify p .receiver).notify p .waiting with hv3
  have hinv3' : Inv (some v3.currproc) v3 := by rw [hcurr3]; exact hinv3
  have hnot : ∀ i, p ∉ v3.lists i := fun i => by
    have hni := hinv3'.not_mem_current i
    rwa [hcurr3] at hni
  have hrun : (v3.proc p).state = .running := (hinv3.running p).mpr rfl
  -- closing descriptors commutes with what happened to the view
  have hcl : Becomes (s2.closeFds p) v3 (t3.closeFds p) := by
    have hpid2 : (v3.proc p).pid = (s2.pcb p).pid := by
      rw [hpid3, ← hview2]
      rfl
    have hq3 := (closeFds_view t3 p).2
    exact ⟨closeFds_withView hb.core hpid2, by rw [hq3]; exact hb.wf, by rw [hq3]; exact hb.lists⟩
  obtain ⟨s', hs', hb'⟩ := addPcbToQueue_take (s := t3.closeFds p) (p := p) (x := v3.proc p)
    (t := .stopped) hinv3 hcl.wf (hcl.view.trans (View.take_self hnot).symm) hcur
    (hinv3.pid_ne_zero hcur) (.inr rfl) (by rw [hrun]; simp)
  refine ⟨s', ?_, ?_⟩
  · have hname : (t3.pcb p).blockingQueueName = .noBlocker := by
      have hfree := ((hinv3.consistent p hcur).free (.inr hrun)).1
      rw [hb.pcb]
      exact hfree
    unfold cleanupProc
    simp only [h1, h2, ht1, ht2, ht3, hname, ne_eq, not_true_eq_false, if_false,
      Option.bind_eq_bind, Option.bind_some]
    exact hs'
  · have hterm : s.view.terminate = v3.move p { v3.proc p with state := .stopped } := by
      unfold View.terminate View.exit
      rw [hcurr, ← hv3, hcurr3]
    rw [hterm]
    exact hcl.trans hb'

end Xeros.Model.KernelOf
