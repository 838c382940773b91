import Xeros.Abstract.Invariant
import Xeros.Interface.LawfulLists
import Xeros.Model.Devices

/-!
# The abstract view of a kernel state

`KernelOf.view` is the abstraction function.  `Becomes s v s'` is how the results of the
operations on processes are stated: `s'` is `s` with the processes, lists and history of `v`, and
nothing else is different.
-/

set_option autoImplicit false

namespace Xeros.Model

open Xeros.Foundations Xeros.Abstract Xeros.Interface

/-- What a control block is to the other processes. -/
def Pcb.view (x : Pcb) : ProcView where
  pid := x.pid
  state := x.currState
  queue := x.blockingQueueName
  peer := x.blockingProc
  ret := x.ret

/-- A control block with the fields of a `ProcView` replaced. -/
def Pcb.withView (x : Pcb) (y : ProcView) : Pcb :=
  { x with
    pid := y.pid
    currState := y.state
    blockingQueueName := y.queue
    blockingProc := y.peer
    ret := y.ret }

@[simp] theorem Pcb.view_withView (x : Pcb) (y : ProcView) : (x.withView y).view = y := rfl

@[simp] theorem Pcb.withView_view (x : Pcb) : x.withView x.view = x := rfl

@[simp] theorem Pcb.withView_withView (x : Pcb) (y z : ProcView) :
    (x.withView y).withView z = x.withView z := rfl

/-- The kernel state with processes and history replaced. -/
def Core.withView (c : Core) (v : View) : Core :=
  { c with
    pcb := fun p => (c.pcb p).withView (v.proc p)
    currproc := v.currproc
    transfers := v.transfers }

@[simp] theorem Core.withView_toHeap (c : Core) (v : View) : (c.withView v).toHeap = c.toHeap := rfl

@[simp] theorem Core.withView_kbd (c : Core) (v : View) : (c.withView v).kbd = c.kbd := rfl

@[simp] theorem Core.withView_gDeviceTable (c : Core) (v : View) :
    (c.withView v).gDeviceTable = c.gDeviceTable := rfl

@[simp] theorem Core.withView_pcb (c : Core) (v : View) (p : PcbPtr) :
    (c.withView v).pcb p = (c.pcb p).withView (v.proc p) := rfl

@[simp] theorem Core.withView_currproc (c : Core) (v : View) :
    (c.withView v).currproc = v.currproc := rfl

@[simp] theorem Core.withView_transfers (c : Core) (v : View) :
    (c.withView v).transfers = v.transfers := rfl

@[simp] theorem Core.withView_withView (c : Core) (v w : View) :
    (c.withView v).withView w = c.withView w := rfl

namespace KernelOf

variable {Q : Type} [ProcLists Q] [LawfulProcLists Q]

/-- The abstract view of a kernel state. -/
def view (s : KernelOf Q) : View where
  proc := fun p => (s.pcb p).view
  lists := LawfulProcLists.lists s.queues
  currproc := s.currproc
  transfers := s.transfers

/-- The process lists of `s` are well formed and the view satisfies the invariant. -/
structure Good (run : Option PcbPtr) (s : KernelOf Q) : Prop where
  wf : LawfulProcLists.WellFormed s.queues
  inv : Inv run s.view

/-- The heap has nothing to do with the lists. -/
theorem Good.setHeap {run : Option PcbPtr} {s : KernelOf Q} (h : Good run s) (heap : Heap) :
    Good run (s.setHeap heap) := ⟨h.wf, h.inv⟩

/-- `s'` is `s` with the processes, lists and history of `v`. -/
structure Becomes (s : KernelOf Q) (v : View) (s' : KernelOf Q) : Prop where
  core : s'.toCore = s.toCore.withView v
  wf : LawfulProcLists.WellFormed s'.queues
  lists : LawfulProcLists.lists s'.queues = v.lists

@[simp] theorem view_proc (s : KernelOf Q) (p : PcbPtr) : s.view.proc p = (s.pcb p).view := rfl

@[simp] theorem view_currproc (s : KernelOf Q) : s.view.currproc = s.currproc := rfl

@[simp] theorem view_transfers (s : KernelOf Q) : s.view.transfers = s.transfers := rfl

@[simp] theorem view_lists (s : KernelOf Q) : s.view.lists = LawfulProcLists.lists s.queues := rfl

namespace Becomes

variable {s s' s'' : KernelOf Q} {v w : View}

theorem view (h : Becomes s v s') : s'.view = v := by
  unfold KernelOf.view
  rw [h.core, h.lists]
  rfl

theorem refl (h : LawfulProcLists.WellFormed s.queues) : Becomes s s.view s :=
  ⟨rfl, h, rfl⟩

/-- `Becomes`, field by field. -/
theorem of_fields (hheap : s'.toHeap = s.toHeap)
    (hpcb : ∀ q, s'.pcb q = (s.pcb q).withView (v.proc q)) (hcurr : s'.currproc = v.currproc)
    (htable : s'.gDeviceTable = s.gDeviceTable) (hkbd : s'.kbd = s.kbd)
    (htransfers : s'.transfers = v.transfers) (hwf : LawfulProcLists.WellFormed s'.queues)
    (hlists : LawfulProcLists.lists s'.queues = v.lists) : Becomes s v s' := by
  refine ⟨?_, hwf, hlists⟩
  obtain ⟨⟨heap, pcb, curr, table, kbd, transfers⟩, k⟩ := s'
  unfold Core.withView
  simp only at hheap hcurr htable hkbd htransfers
  have hp : pcb = fun q => (s.pcb q).withView (v.proc q) := funext hpcb
  subst hheap hcurr htable hkbd htransfers hp
  rfl

theorem trans (h : Becomes s v s') (h' : Becomes s' w s'') : Becomes s w s'' :=
  ⟨by rw [h'.core, h.core, Core.withView_withView], h'.wf, h'.lists⟩

theorem good (h : Becomes s v s') {run : Option PcbPtr} (hv : Inv run v) : Good run s' :=
  ⟨h.wf, by rw [h.view]; exact hv⟩

theorem toHeap (h : Becomes s v s') : s'.toHeap = s.toHeap := by rw [h.core]; rfl

theorem kbd (h : Becomes s v s') : s'.kbd = s.kbd := by rw [h.core]; rfl

theorem gDeviceTable (h : Becomes s v s') : s'.gDeviceTable = s.gDeviceTable := by
  rw [h.core]; rfl

theorem pcb (h : Becomes s v s') (p : PcbPtr) : s'.pcb p = (s.pcb p).withView (v.proc p) := by
  rw [h.core]; rfl

theorem currproc (h : Becomes s v s') : s'.currproc = v.currproc := by rw [h.core]; rfl

theorem transfers (h : Becomes s v s') : s'.transfers = v.transfers := by rw [h.core]; rfl

end Becomes

omit [ProcLists Q] [LawfulProcLists Q] in
theorem setPcb_setPcb (s : KernelOf Q) (p : PcbPtr) (f g : Pcb → Pcb) :
    (s.setPcb p f).setPcb p g = s.setPcb p fun x => g (f x) := by
  simp [setPcb, Core.setPcb]

omit [ProcLists Q] [LawfulProcLists Q] in
theorem setPcb_setMem (s : KernelOf Q) (p : PcbPtr) (f : Pcb → Pcb) (m : Memory) :
    (s.setPcb p f).setMem m = (s.setMem m).setPcb p f := rfl

omit [ProcLists Q] [LawfulProcLists Q] in
theorem store_eq (s : KernelOf Q) (a w : ℕ) : s.store a w = s.setMem (store32 s.mem a w) := rfl

omit [ProcLists Q] [LawfulProcLists Q] in
theorem setMem_setMem (s : KernelOf Q) (m m' : Memory) : (s.setMem m).setMem m' = s.setMem m' := rfl

omit [ProcLists Q] [LawfulProcLists Q] in
theorem setHeap_setMem (s : KernelOf Q) (h : Heap) (m : Memory) :
    (s.setHeap h).setMem m = s.setHeap { h with mem := m } := rfl

omit [ProcLists Q] [LawfulProcLists Q] in
/-- An assignment that changes nothing. -/
theorem setPcb_eq_self {s : KernelOf Q} {p : PcbPtr} {f : Pcb → Pcb} (h : f (s.pcb p) = s.pcb p) :
    s.setPcb p f = s := by
  unfold setPcb Core.setPcb
  rw [h, Function.update_eq_self]

/-- Assigning fields of a control block changes one process of the view. -/
theorem view_setPcb (s : KernelOf Q) (p : PcbPtr) (f : Pcb → Pcb) :
    (s.setPcb p f).view = s.view.set p fun _ => (f (s.pcb p)).view := by
  unfold view View.set
  simp only [setPcb_queues, setPcb_toCore, Core.setPcb_currproc, Core.setPcb_transfers,
    View.mk.injEq, and_self, and_true]
  funext q
  by_cases hq : q = p
  · subst hq
    simp
  · simp [hq]

/-- An assignment to fields that a view has, and new links. -/
theorem becomes_of_setPcb {s : KernelOf Q} {v : View} {k : Q} (hk : LawfulProcLists.WellFormed k)
    (p : PcbPtr) (f : Pcb → Pcb) (hf : ∀ y, f y = y.withView (f y).view)
    (hproc : v.proc = Function.update s.view.proc p (f (s.pcb p)).view)
    (hlists : LawfulProcLists.lists k = v.lists) (hcurr : v.currproc = s.currproc)
    (htransfers : v.transfers = s.transfers) : Becomes s v ⟨s.toCore.setPcb p f, k⟩ := by
  refine ⟨?_, hk, hlists⟩
  unfold Core.setPcb Core.withView
  simp only [Core.mk.injEq, true_and]
  refine ⟨?_, hcurr.symm, htransfers.symm⟩
  funext q
  rw [hproc]
  by_cases hq : q = p
  · subst hq
    simpa using hf (s.pcb q)
  · simp [hq]

/-- New links only. -/
theorem becomes_of_queues {s : KernelOf Q} {v : View} {k : Q} (hk : LawfulProcLists.WellFormed k)
    (hproc : v.proc = s.view.proc) (hlists : LawfulProcLists.lists k = v.lists)
    (hcurr : v.currproc = s.currproc) (htransfers : v.transfers = s.transfers) :
    Becomes s v ⟨s.toCore, k⟩ := by
  refine ⟨?_, hk, hlists⟩
  unfold Core.withView
  rw [hproc, hcurr, htransfers]
  rfl

/-- An assignment to fields that a view has. -/
theorem becomes_setPcb {s : KernelOf Q} (h : LawfulProcLists.WellFormed s.queues) (p : PcbPtr)
    (f : ProcView → ProcView) :
    Becomes s (s.view.set p f) (s.setPcb p fun x => x.withView (f x.view)) :=
  becomes_of_setPcb h p _ (fun _ => rfl) rfl rfl rfl rfl

end KernelOf

end Xeros.Model
