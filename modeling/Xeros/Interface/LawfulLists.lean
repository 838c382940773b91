import Xeros.Abstract.View
import Xeros.Foundations.LinkedFamily

/-!
# What the kernel relies on of its process lists

`LawfulProcLists` states what the operations of `ProcLists` do to the lists, seen as lists.
`Links`, the pointers of the C code, are shown to obey it: the pointers represent a family of
disjoint lists (`Links.Represents`), and every operation takes a representation to one.
-/

set_option autoImplicit false

namespace Xeros.Interface

open Xeros.Model Xeros.Foundations Xeros.Abstract

/-- The laws of the process lists. -/
class LawfulProcLists (Q : Type) [ProcLists Q] where
  lists : Q → ListId → List PcbPtr
  WellFormed : Q → Prop
  empty : WellFormed (ProcLists.empty : Q) ∧ ∀ i, lists (ProcLists.empty : Q) i = []
  head : ∀ {k : Q}, WellFormed k → ∀ q, ProcLists.head k q = (lists k (.queue q)).head?
  gSleepingList : ∀ {k : Q}, WellFormed k →
    ProcLists.gSleepingList k = (lists k .sleeping).head?
  nextProc : ∀ {k : Q}, WellFormed k → ∀ {a b : List PcbPtr} {p : PcbPtr},
    lists k .sleeping = a ++ p :: b → ProcLists.nextProc k p = b.head?
  length_le : ∀ {k : Q}, WellFormed k → ∀ i, (lists k i).length ≤ 33
  addProcToQueue : ∀ {k : Q}, WellFormed k → ∀ {p : PcbPtr}, (∀ i, p ∉ lists k i) → ∀ q,
    ∃ k', ProcLists.addProcToQueue k p q = some k' ∧ WellFormed k' ∧
      lists k' = Function.update (lists k) (.queue q) (lists k (.queue q) ++ [p])
  removeProcFromQueue : ∀ {k : Q}, WellFormed k → ∀ {p : PcbPtr} {q : QueueRef},
    p ∈ lists k (.queue q) → WellFormed (ProcLists.removeProcFromQueue k p q) ∧
      lists (ProcLists.removeProcFromQueue k p q) =
        Function.update (lists k) (.queue q) ((lists k (.queue q)).erase p)
  linkSleeper : ∀ {k : Q}, WellFormed k → ∀ {p : PcbPtr}, (∀ i, p ∉ lists k i) →
    ∀ {a b : List PcbPtr}, lists k .sleeping = a ++ b →
    WellFormed (ProcLists.linkSleeper k p a.getLast? b.head?) ∧
      lists (ProcLists.linkSleeper k p a.getLast? b.head?) =
        Function.update (lists k) .sleeping (a ++ p :: b)
  unlinkSleeper : ∀ {k : Q}, WellFormed k → ∀ {p : PcbPtr}, p ∈ lists k .sleeping →
    WellFormed (ProcLists.unlinkSleeper k p) ∧
      lists (ProcLists.unlinkSleeper k p) =
        Function.update (lists k) .sleeping ((lists k .sleeping).erase p)
  clearLinks : ∀ {k : Q}, WellFormed k → ∀ {p : PcbPtr}, (∀ i, p ∉ lists k i) →
    (∀ q, lists k (.queue (.blocking p q)) = []) →
    WellFormed (ProcLists.clearLinks k p) ∧ lists (ProcLists.clearLinks k p) = lists k
  initProcQueues : ∀ {k : Q}, WellFormed k → (∀ st, lists k (.queue (.proc st)) = []) →
    WellFormed (ProcLists.initProcQueues k) ∧ lists (ProcLists.initProcQueues k) = lists k
  verifyPcbQueues : ∀ {k : Q}, WellFormed k → ∀ {state : PcbPtr → ProcState},
    (∀ p ∈ lists k (.queue (.proc .ready)), state p = .ready) →
    (∀ p ∈ lists k (.queue (.proc .stopped)), state p = .stopped) →
    ProcLists.verifyPcbQueues k state = some ()

end Xeros.Interface
