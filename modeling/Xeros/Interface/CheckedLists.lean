import Xeros.Interface.Links

/-!
# What the pointers guarantee in any state

`LawfulProcLists` is about well-formed lists.  `CheckedProcLists` asks for no such thing: it says
which operations leave the heads of the ready and the stopped queue alone, and what a successful
`verify_pcb_queues` has seen there.
-/

set_option autoImplicit false

namespace Xeros.Interface

open Xeros.Model Xeros.Abstract

/-- The heads of the two process queues. -/
class CheckedProcLists (Q : Type) [ProcLists Q] : Prop where
  addProcToQueue_head : ∀ {k k' : Q} {p o : PcbPtr} {b : BlockingQueue},
    ProcLists.addProcToQueue k p (.blocking o b) = some k' →
    ∀ st, ProcLists.head k' (.proc st) = ProcLists.head k (.proc st)
  removeProcFromQueue_head : ∀ (k : Q) (p o : PcbPtr) (b : BlockingQueue) (st : ProcState),
    ProcLists.head (ProcLists.removeProcFromQueue k p (.blocking o b)) (.proc st) =
      ProcLists.head k (.proc st)
  linkSleeper_head : ∀ (k : Q) (p : PcbPtr) (prev entry : Option PcbPtr) (st : ProcState),
    ProcLists.head (ProcLists.linkSleeper k p prev entry) (.proc st) = ProcLists.head k (.proc st)
  unlinkSleeper_head : ∀ (k : Q) (p : PcbPtr) (st : ProcState),
    ProcLists.head (ProcLists.unlinkSleeper k p) (.proc st) = ProcLists.head k (.proc st)
  clearLinks_head : ∀ (k : Q) (p : PcbPtr) (st : ProcState),
    ProcLists.head (ProcLists.clearLinks k p) (.proc st) = ProcLists.head k (.proc st)
  verifyPcbQueues_head : ∀ {k : Q} {state : PcbPtr → ProcState} {st : ProcState} {p : PcbPtr},
    ProcLists.verifyPcbQueues k state = some () → st = .ready ∨ st = .stopped →
    ProcLists.head k (.proc st) = some p → state p = st

end Xeros.Interface

namespace Xeros.Model.Links

open Xeros.Interface

theorem addProcToQueue_head {k k' : Links} {p o : PcbPtr} {b : BlockingQueue}
    (h : k.addProcToQueue p (.blocking o b) = some k') (st : ProcState) :
    k'.head (.proc st) = k.head (.proc st) := by
  unfold addProcToQueue at h
  cases hh : k.head (.blocking o b) with
  | none =>
    rw [hh] at h
    obtain rfl := Option.some.inj h
    simp
  | some _ =>
    rw [hh] at h
    obtain ⟨u, hu, h⟩ := Option.bind_eq_some_iff.mp h
    obtain ⟨t, -, rfl⟩ := Option.map_eq_some_iff.mp hu
    obtain rfl := Option.some.inj h
    simp

theorem removeProcFromQueue_head (k : Links) (p o : PcbPtr) (b : BlockingQueue) (st : ProcState) :
    (k.removeProcFromQueue p (.blocking o b)).head (.proc st) = k.head (.proc st) := by
  rw [removeProcFromQueue_eq]
  simp [setHeadIf_head]

theorem unlinkSleeper_head (k : Links) (p : PcbPtr) (st : ProcState) :
    (k.unlinkSleeper p).head (.proc st) = k.head (.proc st) := by
  rw [unlinkSleeper_eq]
  simp

/-- A queue that passed its check starts with a process in the right state. -/
theorem verifyQueue_head {k : Links} {state : PcbPtr → ProcState} {st : ProcState} {p : PcbPtr}
    (h : k.verifyQueue state st = some ()) (hp : k.head (.proc st) = some p) : state p = st := by
  unfold verifyQueue at h
  have hp : k.gProcQueueHeads st = some p := hp
  rw [hp] at h
  obtain ⟨_, -, h⟩ := Option.bind_eq_some_iff.mp h
  obtain ⟨_, hstate, -⟩ := Option.bind_eq_some_iff.mp h
  exact cAssert_eq_some.mp hstate

instance : CheckedProcLists Links where
  addProcToQueue_head := addProcToQueue_head
  removeProcFromQueue_head := removeProcFromQueue_head
  linkSleeper_head k p prev entry st := congrFun (linkSleeper_head k p prev entry) _
  unlinkSleeper_head := unlinkSleeper_head
  clearLinks_head _ _ _ := rfl
  verifyPcbQueues_head := by
    intro k state st p h hst hp
    obtain ⟨_, hready, hstopped⟩ := Option.bind_eq_some_iff.mp h
    rcases hst with rfl | rfl
    · exact verifyQueue_head hready hp
    · exact verifyQueue_head hstopped hp

end Xeros.Model.Links
