import Xeros.Analysis.Runs
import Xeros.Interface.Links

/-!
# Queue membership

In a run with no keyboard device open, every process control block is linked in the one list that
its state names, over the pointers of the C code.
-/

set_option autoImplicit false

namespace Xeros.Analysis

open Xeros.Foundations Xeros.Model Xeros.Abstract Xeros.Interface

/-- The control block `p` is linked exactly once, and in the list `i`. -/
def OnlyIn (s : Kernel) (p : PcbPtr) (i : ListId) : Prop :=
  (s.queues.lists i).count p = 1 ∧ ∀ j, j ≠ i → p ∉ s.queues.lists j

/-- The control block `p` is in no list. -/
def Nowhere (s : Kernel) (p : PcbPtr) : Prop := ∀ j, p ∉ s.queues.lists j

/-- Every control block is linked where its state and its blocking queue name say. -/
structure Membership (s : Kernel) : Prop where
  linked : ∀ i, Seg s.queues.next s.queues.prev none (s.queues.lists i) none
  heads : ∀ q, s.queues.head q = (s.queues.lists (.queue q)).head?
  tails : ∀ q, s.queues.tail q = (s.queues.lists (.queue q)).getLast?
  sleepingHead : s.queues.gSleepingList = (s.queues.lists .sleeping).head?
  ready : ∀ i, (s.pcb (.table i)).currState = .ready →
    OnlyIn s (.table i) (.queue (.proc .ready))
  stopped : ∀ i, (s.pcb (.table i)).currState = .stopped →
    OnlyIn s (.table i) (.queue (.proc .stopped))
  running : ∀ i, (s.pcb (.table i)).currState = .running →
    Nowhere s (.table i) ∧ s.currproc = .table i
  queued : ∀ i, (s.pcb (.table i)).currState = .blocked →
    owned (s.pcb (.table i)).blockingQueueName →
    ∃ o, (s.pcb (.table i)).blockingProc = some o ∧ (s.pcb o).currState ≠ .stopped ∧
      OnlyIn s (.table i) (.queue (.blocking o (s.pcb (.table i)).blockingQueueName))
  asleep : ∀ i, (s.pcb (.table i)).currState = .blocked →
    (s.pcb (.table i)).blockingQueueName = .sleep →
    OnlyIn s (.table i) .sleeping ∧ (s.pcb (.table i)).blockingProc = none
  alone : ∀ i, (s.pcb (.table i)).currState = .blocked →
    (s.pcb (.table i)).blockingQueueName = .receiveAny →
    Nowhere s (.table i) ∧ (s.pcb (.table i)).blockingProc = none
  named : ∀ i, (s.pcb (.table i)).currState = .blocked →
    (s.pcb (.table i)).blockingQueueName ≠ .noBlocker
  unnamed : ∀ i, (s.pcb (.table i)).currState ≠ .blocked →
    (s.pcb (.table i)).currState ≠ .stopped → (s.pcb (.table i)).blockingQueueName = .noBlocker
  oneRunning : ∃! p, (s.pcb p).currState = .running
  idle : Nowhere s .idle

variable {s : Kernel} {run : Option PcbPtr} {p : PcbPtr}

theorem onlyIn_of_place (h : Inv run s.view) (hp : p ≠ .idle) {i : ListId}
    (hi : (s.view.proc p).place = some i) : OnlyIn s p i := by
  have hmem : p ∈ s.queues.lists i := (h.mem_iff i p).mpr ⟨hp, hi⟩
  refine ⟨List.count_eq_one_of_mem (h.nodup i) hmem, fun j hj hpj => ?_⟩
  have hpl := ((h.mem_iff j p).mp hpj).2
  rw [hi] at hpl
  exact hj (Option.some.inj hpl).symm

/-- The invariant of the view, read over the pointers. -/
theorem membership_of_ready (h : s.Ready) : Membership s := by
  have hinv := h.sound.inv
  have hrep : s.queues.Represents s.queues.lists := h.wf
  have hcons : ∀ i, ((s.pcb (.table i)).view).Consistent := fun i => hinv.consistent _ (by simp)
  have hfree : ∀ i, (s.pcb (.table i)).currState ≠ .blocked →
      (s.pcb (.table i)).currState ≠ .stopped →
      (s.pcb (.table i)).blockingQueueName = .noBlocker := by
    intro i hb hs
    refine ((hcons i).free ?_).1
    cases hst : (s.pcb (.table i)).currState with
    | ready => exact .inl hst
    | running => exact .inr hst
    | stopped => exact absurd hst hs
    | blocked => exact absurd hst hb
  refine ⟨hrep.family.seg, hrep.head, hrep.tail, hrep.sleeping, fun i hi => ?_, fun i hi => ?_,
    fun i hi => ?_, fun i hi hq => ?_, fun i hi hq => ?_, fun i hi hq => ?_,
    fun i hi => (hcons i).named hi, hfree, ⟨s.currproc, hinv.running_self, fun p hp => ?_⟩,
    hinv.not_mem_idle⟩
  · exact onlyIn_of_place hinv (by simp) (ProcView.place_ready hi)
  · exact onlyIn_of_place hinv (by simp) (ProcView.place_stopped hi)
  · exact ⟨hinv.not_mem (ProcView.place_running hi), Option.some.inj ((hinv.running _).mp hi)⟩
  · obtain ⟨o, ho, hpeer⟩ := (hcons i).peer hi hq
    refine ⟨o, hpeer, hinv.alive _ o (by simp) hi hpeer, onlyIn_of_place hinv (by simp) ?_⟩
    exact ProcView.place_eq_blocking_iff.mpr ⟨hi, hq, rfl, hpeer⟩
  · refine ⟨onlyIn_of_place hinv (by simp) (ProcView.place_eq_sleeping_iff.mpr ⟨hi, hq⟩), ?_⟩
    refine (hcons i).alone hi ?_
    show ¬ owned (s.pcb (.table i)).blockingQueueName
    rw [hq]
    decide
  · have hno : ¬ owned (s.pcb (.table i)).blockingQueueName := by
      rw [hq]
      decide
    have hplace : (s.view.proc (.table i)).place = none := by
      have hst : (s.view.proc (.table i)).state = .blocked := hi
      have hname : (s.view.proc (.table i)).queue = .receiveAny := hq
      rw [ProcView.place_blocked hst, hname]
      rfl
    exact ⟨hinv.not_mem hplace, (hcons i).alone hi hno⟩
  · exact (Option.some.inj ((hinv.running p).mp hp)).symm

/-- Queue membership holds in every state of every run with no device open. -/
theorem queue_membership (r : KernelOf.Run Links) {n : ℕ} (hn : n ≤ r.len)
    (hd : r.Deviceless n) : Membership (r.state n) := membership_of_ready (r.ready hn hd)

/-- A process is created, waited for, and sleeps. -/
def membershipScript : List KernelOf.Act :=
  [.call [2, 40400, 8192] [], .call [7, 34] [], .call [11, 30] [], .tick]

/-- The invariant holds at the end of a run in which one process waits for another that sleeps. -/
theorem queue_membership_blocked : ∃ r : KernelOf.Run Links, r.len = 4 ∧
    ((r.state 4).pcb (.table 0)).blockingQueueName = .waiting ∧
    ((r.state 4).pcb (.table 1)).blockingQueueName = .sleep ∧ Membership (r.state 4) := by
  obtain ⟨r, hlen, hcheck, -, htest⟩ := KernelOf.exists_run (Q := Links)
    KernelOf.smallPc 40300 (fun _ t => KernelOf.Deviceless t) membershipScript
    (fun n s => match n with
      | 4 => decide ((s.pcb (.table 0)).blockingQueueName = .waiting ∧
          (s.pcb (.table 1)).blockingQueueName = .sleep)
      | _ => true) (by decide +kernel)
  obtain ⟨h0, h1⟩ := of_decide_eq_true (htest 4 (by decide))
  refine ⟨r, hlen, h0, h1, queue_membership r (by rw [hlen]; decide) fun k hk => ?_⟩
  exact hcheck k (by rw [hlen]; exact hk)

end Xeros.Analysis
