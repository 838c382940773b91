import Xeros.Refinement.Base

/-!
# What the queue operations do to the view

Each operation of pcb.c on queues, given the invariant, succeeds and takes the view to an
abstract operation.  A process on its way from one list to another is one that has been taken out
(`View.take`).
-/

set_option autoImplicit false

namespace Xeros.Model.KernelOf

open Xeros.Foundations Xeros.Abstract Xeros.Interface

variable {Q : Type} [ProcLists Q] [LawfulProcLists Q] {s : KernelOf Q} {run : Option PcbPtr}
  {v : View} {p : PcbPtr} {x : ProcView}

theorem state_of_mem (hv : Inv run v) {st : ProcState} (hst : st = .ready ∨ st = .stopped)
    (hp : p ∈ v.lists (.queue (.proc st))) : (v.proc p).state = st := by
  have hplace := ((hv.mem_iff _ _).mp hp).2
  rcases hst with rfl | rfl
  · exact ProcView.place_eq_ready_iff.mp hplace
  · exact ProcView.place_eq_stopped_iff.mp hplace

theorem mem_of_state (hv : Inv run v) (hp : p ≠ .idle) {st : ProcState}
    (hst : st = .ready ∨ st = .stopped) (h : (v.proc p).state = st) :
    p ∈ v.lists (.queue (.proc st)) := by
  refine (hv.mem_iff _ _).mpr ⟨hp, ?_⟩
  rcases hst with rfl | rfl
  · exact ProcView.place_eq_ready_iff.mpr h
  · exact ProcView.place_eq_stopped_iff.mpr h

/-- A process that was taken out is in no list. -/
theorem not_mem_take (hv : Inv run v) (hs : s.view = v.take p x) (i : ListId) :
    p ∉ LawfulProcLists.lists s.queues i := by
  have hl : LawfulProcLists.lists s.queues i = (v.lists i).erase p :=
    congrFun (congrArg View.lists hs) i
  rw [hl, (hv.nodup i).mem_erase_iff]
  simp

theorem lists_of_view (hs : s.view = v.take p x) (i : ListId) :
    LawfulProcLists.lists s.queues i = (v.lists i).erase p :=
  congrFun (congrArg View.lists hs) i

/-- Members of the ready and the stopped queue are in these states, as `verify_pcb_queues`
expects. -/
def StatesFit (s : KernelOf Q) : Prop :=
  ∀ st, st = ProcState.ready ∨ st = ProcState.stopped →
    ∀ q ∈ LawfulProcLists.lists s.queues (.queue (.proc st)), (s.pcb q).currState = st

theorem statesFit_take (hv : Inv run v) (hs : s.view = v.take p x) : StatesFit s := by
  intro st hst q hq
  rw [lists_of_view hs] at hq
  have hqp : q ≠ p := fun hqp => (hv.nodup _).not_mem_erase (hqp ▸ hq)
  have hqs := state_of_mem hv hst (List.mem_of_mem_erase hq)
  have hqv : (s.pcb q).view = v.proc q := by rw [← view_proc, hs, View.take_proc_ne v x hqp]
  rw [← hqs, ← hqv]
  rfl

/-- `add_pcb_to_queue` on a process that is in no list. -/
theorem addPcbToQueue_spec (hwf : LawfulProcLists.WellFormed s.queues)
    (hnot : ∀ i, p ∉ LawfulProcLists.lists s.queues i) (hfit : StatesFit s) (hp : p ≠ .idle)
    (hpid : (s.pcb p).pid ≠ 0) {st : ProcState} (hst : st = .ready ∨ st = .stopped)
    (hne : (s.pcb p).currState ≠ st) :
    ∃ s', s.addPcbToQueue p st = some s' ∧
      Becomes s (s.view.move p { s.view.proc p with state := st }) s' := by
  have hpid' : ((s.setPcb p fun y => { y with currState := st }).pcb p).pid ≠ 0 := by
    rw [setPcb_toCore, Core.setPcb_pcb_self]
    exact hpid
  obtain ⟨k, hk, hkwf, hkl⟩ := LawfulProcLists.addProcToQueue hwf hnot (.proc st)
  have hplace : ({ s.view.proc p with state := st } : ProcView).place =
      some (.queue (.proc st)) := by
    rcases hst with rfl | rfl <;> rfl
  -- a process of the two queues is `p` itself, or was there before
  have hmem : ∀ st', st' = .ready ∨ st' = .stopped →
      ∀ q ∈ LawfulProcLists.lists k (.queue (.proc st')),
        ((s.setPcb p fun y => { y with currState := st }).pcb q).currState = st' := by
    intro st' hst' q hq
    rw [hkl] at hq
    by_cases hqp : q = p
    · subst hqp
      by_cases hstst : st' = st
      · subst hstst
        simp
      · rw [Function.update_of_ne (by simp [hstst])] at hq
        exact absurd hq (hnot _)
    · have hq' : q ∈ LawfulProcLists.lists s.queues (.queue (.proc st')) := by
        by_cases hstst : st' = st
        · subst hstst
          simpa [hqp] using hq
        · rwa [Function.update_of_ne (by simp [hstst])] at hq
      rw [setPcb_toCore, Core.setPcb_pcb_ne _ _ hqp]
      exact hfit st' hst' q hq'
  refine ⟨⟨s.toCore.setPcb p (fun y => { y with currState := st }), k⟩, ?_, ?_⟩
  · have hver := LawfulProcLists.verifyPcbQueues hkwf (hmem .ready (.inl rfl))
      (hmem .stopped (.inr rfl))
    unfold addPcbToQueue
    simp only [hne, ne_eq, not_false_eq_true, cAssert_pos, hst, hpid', if_false,
      setPcb_queues, hk, hver, Option.bind_eq_bind, Option.bind_some, Option.pure_def]
    rfl
  · refine becomes_of_setPcb hkwf p _ (fun _ => rfl) rfl ?_ rfl rfl
    rw [hkl]
    funext i
    rw [View.move_lists, hplace, view_lists, List.erase_of_not_mem (hnot i)]
    by_cases hi : i = .queue (.proc st)
    · subst hi
      simp [hp]
    · rw [Function.update_of_ne hi, if_neg fun hc => hi (Option.some.inj hc.2).symm]
      simp

/-- `add_pcb_to_queue` on a process that was taken out. -/
theorem addPcbToQueue_take (hv : Inv run v) (hwf : LawfulProcLists.WellFormed s.queues)
    (hs : s.view = v.take p x) (hp : p ≠ .idle) (hpid : x.pid ≠ 0) {t : ProcState}
    (hst : t = .ready ∨ t = .stopped) (hne : x.state ≠ t) :
    ∃ s', s.addPcbToQueue p t = some s' ∧ Becomes s (v.move p { x with state := t }) s' := by
  have hx : (s.pcb p).view = x := by rw [← view_proc, hs, View.take_proc_self]
  subst hx
  obtain ⟨s', hs', hb⟩ := addPcbToQueue_spec hwf (not_mem_take hv hs) (statesFit_take hv hs) hp
    hpid hst hne
  refine ⟨s', hs', ?_⟩
  rw [view_proc, hs, View.take_move hv.nodup] at hb
  exact hb

/-- `add_pcb_to_queue` on the idle process only changes its state. -/
theorem addPcbToQueue_idle (hwf : LawfulProcLists.WellFormed s.queues)
    (hpid : (s.pcb .idle).pid = 0) {st : ProcState} (hst : st = .ready ∨ st = .stopped)
    (hne : (s.pcb .idle).currState ≠ st) :
    ∃ s', s.addPcbToQueue .idle st = some s' ∧
      Becomes s (s.view.set .idle fun x => { x with state := st }) s' := by
  refine ⟨s.setPcb .idle (fun y => { y with currState := st }), ?_, ?_⟩
  · have hpid' : ((s.setPcb .idle fun y => { y with currState := st }).pcb .idle).pid = 0 := by
      simpa using hpid
    unfold addPcbToQueue
    simp only [hne, ne_eq, not_false_eq_true, cAssert_pos, hst, hpid', if_true,
      Option.bind_eq_bind, Option.bind_some]
  · exact becomes_setPcb hwf .idle fun x => { x with state := st }

/-- `remove_pcb_from_queue` on a ready or stopped process. -/
theorem removePcbFromQueue_spec (h : Good run s) (hp : p ≠ .idle) {st : ProcState}
    (hst : st = .ready ∨ st = .stopped) (hstate : (s.pcb p).currState = st) :
    ∃ s', s.removePcbFromQueue p = some s' ∧ Becomes s (s.view.take p (s.view.proc p)) s' := by
  have hmem : p ∈ LawfulProcLists.lists s.queues (.queue (.proc st)) :=
    mem_of_state h.inv hp hst hstate
  obtain ⟨hkwf, hkl⟩ := LawfulProcLists.removeProcFromQueue h.wf hmem
  set k := ProcLists.removeProcFromQueue s.queues p (.proc st) with hk
  have hstates : ∀ st', st' = .ready ∨ st' = .stopped →
      ∀ q ∈ LawfulProcLists.lists k (.queue (.proc st')), (s.pcb q).currState = st' := by
    intro st' hst' q hq
    refine state_of_mem h.inv hst' ?_
    rw [hkl] at hq
    by_cases hstst : st' = st
    · subst hstst
      rw [Function.update_self] at hq
      exact List.mem_of_mem_erase hq
    · rwa [Function.update_of_ne (by simp [hstst])] at hq
  refine ⟨⟨s.toCore, k⟩, ?_, becomes_of_queues hkwf (Function.update_eq_self p _) ?_ rfl rfl⟩
  · have hver := LawfulProcLists.verifyPcbQueues hkwf (hstates .ready (.inl rfl))
      (hstates .stopped (.inr rfl))
    have hrun : (s.pcb p).currState ≠ .running := by
      rw [hstate]
      rcases hst with rfl | rfl <;> simp
    unfold removePcbFromQueue
    rw [hstate] at hrun ⊢
    simp only [hrun, ne_eq, not_false_eq_true, cAssert_pos, hst, ← hk, hver, Option.bind_eq_bind,
      Option.bind_some, Option.pure_def]
    rfl
  · rw [hkl]
    funext i
    by_cases hi : i = .queue (.proc st)
    · subst hi
      simp
    · rw [Function.update_of_ne hi, View.take_lists]
      refine (List.erase_of_not_mem fun hpi => hi ?_).symm
      exact h.inv.mem_unique hpi hmem

/-- `currproc = get_next_proc();` -/
theorem reschedule_spec (h : Good none s) :
    ∃ s', s.reschedule = some s' ∧ Becomes s s.view.dispatch s' := by
  have hhead := LawfulProcLists.head h.wf (.proc .ready)
  unfold reschedule getNextProc
  cases hl : LawfulProcLists.lists s.queues (.queue (.proc .ready)) with
  | nil =>
    have hd : s.view.dispatch = { s.view.move .idle { s.view.proc .idle with state := .running } with
        currproc := .idle } := by
      unfold View.dispatch
      simp [hl]
    rw [hhead, hl]
    refine ⟨_, rfl, ?_⟩
    rw [hd]
    refine ⟨?_, h.wf, ?_⟩
    · simp only [setCurrproc, setPcb_toCore, Core.setPcb, Core.withView, View.move, Core.mk.injEq,
        true_and]
      refine ⟨?_, rfl⟩
      funext q
      by_cases hq : q = .idle
      · subst hq
        simp [Pcb.withView, Pcb.view]
      · simp [hq]
    · funext i
      have herase := List.erase_of_not_mem (h.inv.not_mem_idle i)
      rw [view_lists] at herase
      simp [View.move, herase]
  | cons p l =>
    have hp : p ∈ LawfulProcLists.lists s.queues (.queue (.proc .ready)) := by simp [hl]
    have hpi : p ≠ .idle := ((h.inv.mem_iff _ _).mp hp).1
    have hstate : (s.pcb p).currState = .ready := state_of_mem h.inv (.inl rfl) hp
    obtain ⟨s1, hs1, hb1⟩ := removePcbFromQueue_spec h hpi (.inl rfl) hstate
    have hd : s.view.dispatch = { s.view.move p { s.view.proc p with state := .running } with
        currproc := p } := by
      unfold View.dispatch
      simp [hl]
    rw [hhead, hl, List.head?_cons]
    simp only [hs1, Option.map_some, Option.bind_eq_bind, Option.bind_some, Option.pure_def]
    refine ⟨_, rfl, ?_⟩
    rw [hd]
    refine ⟨?_, hb1.wf, ?_⟩
    · simp only [setCurrproc, setPcb_toCore, hb1.core, Core.setPcb, Core.withView, View.move,
        View.take, Core.mk.injEq, true_and]
      refine ⟨?_, trivial⟩
      funext q
      by_cases hq : q = p
      · subst hq
        simp [Pcb.withView]
      · simp [hq]
    · rw [setCurrproc_queues, setPcb_queues, hb1.lists]
      funext i
      simp [View.move, ProcView.place]

/-- `add_proc_to_blocking_queue` on a process that is in no list. -/
theorem addProcToBlockingQueue_spec (hwf : LawfulProcLists.WellFormed s.queues)
    (hnot : ∀ i, p ∉ LawfulProcLists.lists s.queues i) (o : PcbPtr) (q : BlockingQueue) :
    ∃ s', s.addProcToBlockingQueue p o q = some s' ∧ Becomes s (s.view.enqueue p o q) s' := by
  obtain ⟨k, hk, hkwf, hkl⟩ := LawfulProcLists.addProcToQueue hwf hnot (.blocking o q)
  refine ⟨⟨s.toCore.setPcb p fun y => { y with blockingProc := some o, blockingQueueName := q }, k⟩,
    ?_, becomes_of_setPcb hkwf p _ (fun _ => rfl) rfl hkl rfl rfl⟩
  unfold addProcToBlockingQueue
  rw [hk]
  rfl

omit [LawfulProcLists Q] in
/-- `remove_proc_from_blocking_queue` on a process that is not there. -/
theorem removeProcFromBlockingQueue_not_in (o : PcbPtr) (q : BlockingQueue)
    (h : (s.pcb p).blockingQueueName ≠ q ∨ (s.pcb p).blockingProc ≠ some o) :
    s.removeProcFromBlockingQueue p (some o) q = some (false, s) := by
  unfold removeProcFromBlockingQueue
  simp [h]

/-- `remove_proc_from_blocking_queue` on a process that is there. -/
theorem removeProcFromBlockingQueue_in (h : Good run s) (hp : p ≠ .idle)
    (hstate : (s.pcb p).currState = .blocked) {o : PcbPtr} {q : BlockingQueue} (hq : owned q)
    (hname : (s.pcb p).blockingQueueName = q) (hpeer : (s.pcb p).blockingProc = some o) :
    ∃ s', s.removeProcFromBlockingQueue p (some o) q = some (true, s') ∧
      Becomes s (s.view.take p { s.view.proc p with queue := .noBlocker, peer := none }) s' := by
  have hmem : p ∈ LawfulProcLists.lists s.queues (.queue (.blocking o q)) :=
    (h.inv.mem_iff _ _).mpr ⟨hp, ProcView.place_eq_blocking_iff.mpr ⟨hstate, hq, hname, hpeer⟩⟩
  obtain ⟨hkwf, hkl⟩ := LawfulProcLists.removeProcFromQueue h.wf hmem
  refine ⟨_, ?_, becomes_of_setPcb (v := s.view.take p
    { s.view.proc p with queue := .noBlocker, peer := none }) hkwf p
    (fun y => { y with blockingProc := none, blockingQueueName := .noBlocker }) (fun _ => rfl)
    rfl ?_ rfl rfl⟩
  · unfold removeProcFromBlockingQueue
    simp only [hname, hpeer, ne_eq, not_true_eq_false, or_self, if_false, hstate, cAssert_pos,
      Option.bind_eq_bind, Option.bind_some, Option.pure_def]
    rfl
  · rw [hkl]
    funext i
    by_cases hi : i = .queue (.blocking o q)
    · subst hi
      simp
    · rw [Function.update_of_ne hi, View.take_lists]
      refine (List.erase_of_not_mem fun hpi => hi ?_).symm
      exact h.inv.mem_unique hpi hmem

end Xeros.Model.KernelOf
