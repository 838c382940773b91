import Xeros.Model.Create
import Xeros.Refinement.Processes

/-!
# What create.c does to the view

A call of `create` leaves the view alone, puts the slot it took back, or adds a ready process.
-/

set_option autoImplicit false

namespace Xeros.Model.KernelOf

open Xeros.Foundations Xeros.Abstract Xeros.Interface

variable {Q : Type} [ProcLists Q] [LawfulProcLists Q] {s : KernelOf Q} {run : Option PcbPtr}
  {p : PcbPtr}

/-- The state with another heap and another control block `p`. -/
def withSlot (s : KernelOf Q) (heap : Heap) (p : PcbPtr) (x : Pcb) : KernelOf Q :=
  (s.setHeap heap).setPcb p fun _ => x

omit [ProcLists Q] [LawfulProcLists Q] in
theorem withSlot_pcb_self (s : KernelOf Q) (heap : Heap) (p : PcbPtr) (x : Pcb) :
    (s.withSlot heap p x).pcb p = x := by
  simp [withSlot]

omit [ProcLists Q] [LawfulProcLists Q] in
theorem withSlot_pcb_ne (s : KernelOf Q) (heap : Heap) {p q : PcbPtr} (x : Pcb) (h : q ≠ p) :
    (s.withSlot heap p x).pcb q = s.pcb q := by
  simp [withSlot, h]

/-- The pid that a slot gets next stands for the same slot, when it is positive. -/
theorem slotOfPid_nextPid {pid : ℤ} (h : 1 ≤ pid) : slotOfPid (nextPid pid) = slotOfPid pid := by
  have hsize : (pcbTableSize : ℤ) = 32 := rfl
  unfold slotOfPid
  simp only [Fin.mk.injEq]
  unfold nextPid
  simp only [hsize]
  split_ifs with hlt
  · rw [Int.tmod_eq_emod_of_nonneg (by omega)]
    congr 1
    omega
  · congr 1
    unfold wrapInt
    omega

/-- A change of the heap and of the slot `p`, which the view has taken out. -/
theorem Becomes.slot {s' : KernelOf Q} {v : View} {heap : Heap} {x : Pcb} {y : ProcView}
    (h : Becomes (s.withSlot heap p x) (v.take p y) s') (heap' : Heap) (f : Pcb → Pcb) :
    Becomes (s.withSlot heap' p (f (x.withView y))) (v.take p (f (x.withView y)).view)
      ((s'.setHeap heap').setPcb p f) := by
  refine Becomes.of_fields rfl (fun q => ?_) h.currproc h.gDeviceTable h.kbd h.transfers h.wf h.lists
  by_cases hq : q = p
  · subst hq
    rw [withSlot_pcb_self, View.take_proc_self, Pcb.withView_view]
    simp only [setPcb_toCore, setHeap_toCore, Core.setPcb_pcb_self, Core.setHeap_pcb]
    rw [h.pcb, withSlot_pcb_self, View.take_proc_self]
  · rw [withSlot_pcb_ne _ _ _ hq, View.take_proc_ne _ _ hq]
    simp only [setPcb_toCore, setHeap_toCore, Core.setPcb_pcb_ne _ _ hq, Core.setHeap_pcb]
    rw [h.pcb, withSlot_pcb_ne _ _ _ hq, View.take_proc_ne _ _ hq]

/-- The first stopped process is taken out and its control block cleared. -/
theorem takeSlot_spec (h : Good run s) {rest : List PcbPtr}
    (hl : s.view.lists (.queue (.proc .stopped)) = p :: rest) :
    ∃ s1, s.removePcbFromQueue p = some s1 ∧ (s1.pcb p).pid = (s.pcb p).pid ∧
      s1.toHeap = s.toHeap ∧
      Becomes (s.withSlot s.toHeap p Pcb.zero) (s.view.take p Pcb.zero.view)
        ((s1.setQueues (ProcLists.clearLinks s1.queues p)).setPcb p fun _ => Pcb.zero) := by
  have hpm : p ∈ s.view.lists (.queue (.proc .stopped)) := by simp [hl]
  have hpi : p ≠ .idle := ((h.inv.mem_iff _ _).mp hpm).1
  have hstate : (s.pcb p).currState = .stopped := state_of_mem h.inv (.inr rfl) hpm
  obtain ⟨s1, hs1, hb1⟩ := removePcbFromQueue_spec h hpi (.inr rfl) hstate
  have hnot : ∀ i, p ∉ LawfulProcLists.lists s1.queues i := not_mem_take h.inv hb1.view
  obtain ⟨hkwf, hkl⟩ := LawfulProcLists.clearLinks hb1.wf hnot fun q => by
    rw [lists_of_view hb1.view, h.inv.not_watched hstate q]
    rfl
  refine ⟨s1, hs1, by rw [hb1.pcb]; simp [Pcb.withView, Pcb.view], hb1.toHeap, ?_⟩
  refine Becomes.of_fields hb1.toHeap (fun q => ?_) hb1.currproc hb1.gDeviceTable hb1.kbd
    hb1.transfers hkwf (hkl.trans hb1.lists)
  by_cases hq : q = p
  · subst hq
    rw [withSlot_pcb_self, View.take_proc_self]
    simp
  · rw [withSlot_pcb_ne _ _ _ hq, View.take_proc_ne _ _ hq]
    simp only [setPcb_toCore, setQueues_toCore, Core.setPcb_pcb_ne _ _ hq]
    rw [hb1.pcb, View.take_proc_ne _ _ hq]

/-- `get_next_available_pcb` when all processes are in use. -/
theorem getNextAvailablePcb_full (h : Good run s)
    (hl : s.view.lists (.queue (.proc .stopped)) = []) :
    s.getNextAvailablePcb = some (none, s) := by
  have hhead : ProcLists.head s.queues (.proc .stopped) = none :=
    (LawfulProcLists.head h.wf _).trans (congrArg List.head? hl)
  unfold getNextAvailablePcb
  rw [hhead]

/-- `get_next_available_pcb` when there is a stopped process but no memory for its table. -/
theorem getNextAvailablePcb_noTable (h : Good run s) {rest : List PcbPtr}
    (hl : s.view.lists (.queue (.proc .stopped)) = p :: rest) {heap : Heap}
    (hk : s.toHeap.kmalloc (signalTableSize * 4) = some (0, heap)) :
    ∃ s', s.getNextAvailablePcb = some (none, s') ∧
      Becomes (s.withSlot heap p { Pcb.zero with pid := (s.pcb p).pid }) (s.view.recycle p) s' := by
  have hpm : p ∈ s.view.lists (.queue (.proc .stopped)) := by simp [hl]
  have hpi : p ≠ .idle := ((h.inv.mem_iff _ _).mp hpm).1
  obtain ⟨s1, hs1, hpid1, hheap1, hb⟩ := takeSlot_spec h hl
  have hhead : ProcLists.head s.queues (.proc .stopped) = some p :=
    (LawfulProcLists.head h.wf _).trans (congrArg List.head? hl)
  generalize ht : (s1.setQueues (ProcLists.clearLinks s1.queues p)).setPcb p
    (fun _ => Pcb.zero) = t at hb
  have hkm : t.kmalloc (signalTableSize * 4) = some (0, t.setHeap heap) := by
    have htheap : t.toHeap = s.toHeap := by
      rw [← ht]
      exact hheap1
    unfold kmalloc
    rw [htheap, hk]
    rfl
  have hbt := hb.slot heap fun x => { x with signalTable := 0, pid := (s.pcb p).pid }
  obtain ⟨s', hs', hb'⟩ := addPcbToQueue_take h.inv hbt.wf hbt.view hpi (h.inv.pid_ne_zero hpi)
    (t := .stopped) (.inr rfl) (by simp [Pcb.zero, Pcb.view, Pcb.withView])
  refine ⟨s', ?_, hbt.trans hb'⟩
  unfold getNextAvailablePcb
  rw [hhead]
  dsimp only
  rw [hs1, Option.bind_eq_bind, Option.bind_some, ht, hkm, Option.bind_eq_bind, Option.bind_some]
  dsimp only
  rw [if_pos rfl, setPcb_setPcb, hpid1, hs']
  rfl

/-- The control block that `get_next_available_pcb` hands out, but for its view. -/
def freshPcb (table : ℕ) : Pcb :=
  { Pcb.zero with
    signalTable := table
    signalsEnabled := true
    currState := .stopped
    blockingQueueName := .noBlocker }

/-- `get_next_available_pcb` when it finds a control block. -/
theorem getNextAvailablePcb_found (h : Good run s) {rest : List PcbPtr}
    (hl : s.view.lists (.queue (.proc .stopped)) = p :: rest) {table : ℕ} {heap : Heap}
    (hk : s.toHeap.kmalloc (signalTableSize * 4) = some (table, heap)) (ht0 : table ≠ 0)
    (hpid : 1 ≤ nextPid (s.pcb p).pid) :
    ∃ s', s.getNextAvailablePcb = some (some p, s') ∧
      Becomes (s.withSlot { heap with mem := memset heap.mem table 0 4 } p
          { freshPcb table with pid := nextPid (s.pcb p).pid })
        (s.view.take p ⟨nextPid (s.pcb p).pid, .stopped, .noBlocker, none, 0⟩) s' := by
  obtain ⟨s1, hs1, hpid1, hheap1, hb⟩ := takeSlot_spec h hl
  have hhead : ProcLists.head s.queues (.proc .stopped) = some p :=
    (LawfulProcLists.head h.wf _).trans (congrArg List.head? hl)
  generalize ht : (s1.setQueues (ProcLists.clearLinks s1.queues p)).setPcb p
    (fun _ => Pcb.zero) = t at hb
  have hkm : t.kmalloc (signalTableSize * 4) = some (table, t.setHeap heap) := by
    have htheap : t.toHeap = s.toHeap := by
      rw [← ht]
      exact hheap1
    unfold kmalloc
    rw [htheap, hk]
    rfl
  have hbt := hb.slot { heap with mem := memset heap.mem table 0 4 } fun x =>
    { x with
      signalTable := table
      signalsEnabled := true
      currState := .stopped
      blockingQueueName := .noBlocker
      pid := nextPid (s.pcb p).pid }
  refine ⟨_, ?_, hbt⟩
  unfold getNextAvailablePcb
  rw [hhead]
  dsimp only
  rw [hs1, Option.bind_eq_bind, Option.bind_some, ht, hkm, Option.bind_eq_bind, Option.bind_some]
  dsimp only
  rw [if_neg ht0, hpid1, cAssert_pos (by simpa using hpid), setPcb_setMem, setHeap_setMem,
    setPcb_setPcb]
  rfl

theorem getNextAvailablePcb_noMem (h : Good run s) {rest : List PcbPtr}
    (hl : s.view.lists (.queue (.proc .stopped)) = p :: rest)
    (hk : s.toHeap.kmalloc (signalTableSize * 4) = none) : s.getNextAvailablePcb = none := by
  obtain ⟨s1, hs1, -, hheap1, -⟩ := takeSlot_spec h hl
  have hhead : ProcLists.head s.queues (.proc .stopped) = some p :=
    (LawfulProcLists.head h.wf _).trans (congrArg List.head? hl)
  have hkm : ((s1.setQueues (ProcLists.clearLinks s1.queues p)).setPcb p
      fun _ => Pcb.zero).kmalloc (signalTableSize * 4) = none := by
    unfold kmalloc
    rw [setPcb_toCore, Core.setPcb_toHeap, setQueues_toCore, hheap1, hk]
    rfl
  unfold getNextAvailablePcb
  rw [hhead]
  dsimp only
  rw [hs1, Option.bind_eq_bind, Option.bind_some, hkm]
  rfl

/-- `get_next_available_pcb` fails its assertion when the next pid is not positive. -/
theorem getNextAvailablePcb_badPid (h : Good run s) {rest : List PcbPtr}
    (hl : s.view.lists (.queue (.proc .stopped)) = p :: rest) {table : ℕ} {heap : Heap}
    (hk : s.toHeap.kmalloc (signalTableSize * 4) = some (table, heap)) (ht0 : table ≠ 0)
    (hpid : ¬ 1 ≤ nextPid (s.pcb p).pid) : s.getNextAvailablePcb = none := by
  obtain ⟨s1, hs1, hpid1, hheap1, hb⟩ := takeSlot_spec h hl
  have hhead : ProcLists.head s.queues (.proc .stopped) = some p :=
    (LawfulProcLists.head h.wf _).trans (congrArg List.head? hl)
  generalize ht : (s1.setQueues (ProcLists.clearLinks s1.queues p)).setPcb p
    (fun _ => Pcb.zero) = t at hb
  have hkm : t.kmalloc (signalTableSize * 4) = some (table, t.setHeap heap) := by
    have htheap : t.toHeap = s.toHeap := by
      rw [← ht]
      exact hheap1
    unfold kmalloc
    rw [htheap, hk]
    rfl
  unfold getNextAvailablePcb
  rw [hhead]
  dsimp only
  rw [hs1, Option.bind_eq_bind, Option.bind_some, ht, hkm, Option.bind_eq_bind, Option.bind_some]
  dsimp only
  rw [if_neg ht0, hpid1, cAssert_eq_none.mpr (by simpa using hpid)]
  rfl

/-- The heap after `create` has laid out a stack. -/
def stackHeap (h : Heap) (stackBottom func : ℕ) (stack : ℤ) : Heap :=
  let fakeReturnAddr := toWord (stackBottom + stack - 4)
  { h with
    mem := setupContextFrame (store32 h.mem fakeReturnAddr h.image.sysstop)
      (subWord fakeReturnAddr sizeofContextFrame) func }

/-- The part of `create` that makes the new process ready. -/
theorem setupStack_spec (h : Good run s) {t : KernelOf Q} {heap : Heap} {x : Pcb} {pid : ℤ}
    (hp : p ≠ .idle) (hpid : 1 ≤ pid)
    (hb : Becomes (s.withSlot heap p x) (s.view.take p ⟨pid, .stopped, .noBlocker, none, 0⟩) t)
    (stackBottom func : ℕ) (stack : ℤ) :
    ∃ s' y, (t.setupStack p stackBottom func stack).addPcbToQueue p .ready = some s' ∧
      Becomes (s.withSlot (stackHeap heap stackBottom func stack) p y) (s.view.spawn p pid) s' ∧
      y.signalTable = x.signalTable ∧ y.signalsFired = x.signalsFired ∧
      y.signalsEnabled = x.signalsEnabled ∧ y.fdTable = x.fdTable ∧
      y.memoryRegion = stackBottom := by
  have hheap : t.toHeap = heap := hb.toHeap
  have hbt := hb.slot (stackHeap heap stackBottom func stack) fun x =>
    { x with
      memoryRegion := stackBottom
      esp := subWord (toWord (stackBottom + stack - 4)) sizeofContextFrame }
  have hstack : t.setupStack p stackBottom func stack =
      (t.setHeap (stackHeap heap stackBottom func stack)).setPcb p fun x =>
        { x with
          memoryRegion := stackBottom
          esp := subWord (toWord (stackBottom + stack - 4)) sizeofContextFrame } := by
    rw [← hheap]
    unfold setupStack
    simp only [store_eq, setPcb_setMem, setMem_setMem, setPcb_setPcb, setPcb_toCore,
      setMem_toCore, Core.setPcb_toHeap, Core.setMem_mem]
    rfl
  rw [hstack]
  obtain ⟨s', hs', hb'⟩ := addPcbToQueue_take h.inv hbt.wf hbt.view hp
    (t := .ready) (by show pid ≠ 0; omega) (.inl rfl) (by simp [Pcb.view, Pcb.withView])
  exact ⟨s', _, hs', hbt.trans hb', rfl, rfl, rfl, rfl, rfl⟩

/-! ## `create` -/

/-- The stack size that `create` uses. -/
def stackSize (stack : ℤ) : ℤ := if stack < defaultStackSize then defaultStackSize else stack

variable {func b : ℕ} {stack : ℤ} {heap1 : Heap}

omit [LawfulProcLists Q] in
theorem create_noStack (hf : func ≠ 0)
    (hk : s.toHeap.kmalloc (toWord (stackSize stack)) = some (0, heap1)) :
    s.create func stack = some (enomem, s.setHeap heap1) := by
  have hkm : s.kmalloc (toWord (stackSize stack)) = some (0, s.setHeap heap1) := by
    unfold kmalloc
    rw [hk]
    rfl
  unfold create
  rw [if_neg hf]
  unfold stackSize at hkm
  dsimp only
  rw [hkm, Option.bind_eq_bind, Option.bind_some]
  rfl

omit [LawfulProcLists Q] in
/-- `create`, once it has its stack. -/
theorem create_stack (hf : func ≠ 0) (hb : b ≠ 0)
    (hk : s.toHeap.kmalloc (toWord (stackSize stack)) = some (b, heap1)) :
    s.create func stack = ((s.setHeap heap1).getNextAvailablePcb.bind fun r =>
      match r with
      | (none, t) => (t.kfree b).bind fun t => some (eproclimit, t)
      | (some p, t) => ((t.setupStack p b func (stackSize stack)).addPcbToQueue p .ready).bind
          fun t => some ((t.pcb p).pid, t)) := by
  have hkm : s.kmalloc (toWord (stackSize stack)) = some (b, s.setHeap heap1) := by
    unfold kmalloc
    rw [hk]
    rfl
  unfold create
  rw [if_neg hf]
  unfold stackSize at hkm ⊢
  dsimp only
  rw [hkm, Option.bind_eq_bind, Option.bind_some]
  dsimp only
  rw [if_neg hb, Option.bind_eq_bind]
  congr 1
  funext r
  obtain ⟨none | q, t⟩ := r <;> rfl

/-- `create` on a full process table. -/
theorem create_full (h : Good run s) (hf : func ≠ 0) (hb : b ≠ 0)
    (hk : s.toHeap.kmalloc (toWord (stackSize stack)) = some (b, heap1))
    (hl : s.view.lists (.queue (.proc .stopped)) = []) :
    s.create func stack = (heap1.kfree b).map fun heap => (eproclimit, s.setHeap heap) := by
  rw [create_stack hf hb hk, getNextAvailablePcb_full (h.setHeap heap1) hl]
  simp only [Option.bind_some, kfree]
  show ((heap1.kfree b).map _).bind _ = _
  cases heap1.kfree b <;> rfl

/-- `create` without memory for a signal table. -/
theorem create_noTable (h : Good run s) (hf : func ≠ 0) (hb : b ≠ 0)
    (hk : s.toHeap.kmalloc (toWord (stackSize stack)) = some (b, heap1)) {rest : List PcbPtr}
    (hl : s.view.lists (.queue (.proc .stopped)) = p :: rest) {heap2 heap3 : Heap}
    (hk2 : heap1.kmalloc (signalTableSize * 4) = some (0, heap2))
    (hfree : heap2.kfree b = some heap3) :
    ∃ s' x, s.create func stack = some (eproclimit, s') ∧
      Becomes (s.withSlot heap3 p x) (s.view.recycle p) s' ∧ x.fdTable = fun _ => none := by
  obtain ⟨s1, hs1, hb1⟩ := getNextAvailablePcb_noTable (h.setHeap heap1) hl hk2
  refine ⟨s1.setHeap heap3, { Pcb.zero with pid := (s.pcb p).pid }, ?_, ?_, rfl⟩
  · rw [create_stack hf hb hk, hs1, Option.bind_some]
    have hheap : s1.toHeap = heap2 := hb1.toHeap
    simp only [kfree]
    rw [hheap, hfree]
    rfl
  · exact Becomes.of_fields rfl hb1.pcb hb1.currproc hb1.gDeviceTable hb1.kbd hb1.transfers hb1.wf
      hb1.lists

/-- `create`, when it creates a process. -/
theorem create_found (h : Good run s) (hf : func ≠ 0) (hb : b ≠ 0)
    (hk : s.toHeap.kmalloc (toWord (stackSize stack)) = some (b, heap1)) {rest : List PcbPtr}
    (hl : s.view.lists (.queue (.proc .stopped)) = p :: rest) {table : ℕ} {heap2 : Heap}
    (hk2 : heap1.kmalloc (signalTableSize * 4) = some (table, heap2)) (ht : table ≠ 0)
    (hpid : 1 ≤ nextPid (s.pcb p).pid) :
    ∃ s' x, s.create func stack = some (nextPid (s.pcb p).pid, s') ∧
      Becomes (s.withSlot (stackHeap { heap2 with mem := memset heap2.mem table 0 4 } b func
        (stackSize stack)) p x) (s.view.spawn p (nextPid (s.pcb p).pid)) s' ∧
      x.signalTable = table ∧ x.signalsFired = 0 ∧ x.signalsEnabled = true ∧
      x.fdTable = (fun _ => none) ∧ x.memoryRegion = b := by
  have hpm : p ∈ s.view.lists (.queue (.proc .stopped)) := by simp [hl]
  have hpi : p ≠ .idle := ((h.inv.mem_iff _ _).mp hpm).1
  obtain ⟨t, ht1, hbt⟩ := getNextAvailablePcb_found (h.setHeap heap1) hl hk2 ht hpid
  obtain ⟨s', y, hs', hb', htable, hfired, henabled, hfd, hregion⟩ :=
    setupStack_spec h hpi hpid hbt b func (stackSize stack)
  refine ⟨s', y, ?_, hb', htable, hfired, henabled, hfd, hregion⟩
  rw [create_stack hf hb hk, ht1, Option.bind_some]
  dsimp only
  rw [hs', Option.bind_some]
  have hspid : (s'.pcb p).pid = nextPid (s.pcb p).pid := by
    rw [hb'.pcb]
    simp [Pcb.withView, View.spawn]
  rw [hspid]

omit [ProcLists Q] [LawfulProcLists Q] in
theorem kmalloc_eq {size : ℕ} {r : ℕ × KernelOf Q} (h : s.kmalloc size = some r) :
    ∃ heap, s.toHeap.kmalloc size = some (r.1, heap) ∧ r.2 = s.setHeap heap := by
  unfold kmalloc at h
  obtain ⟨r', hr', rfl⟩ := Option.map_eq_some_iff.mp h
  exact ⟨r'.2, hr', rfl⟩

/-- What a call of `create` can do. -/
inductive Created (s : KernelOf Q) : ℤ → KernelOf Q → Prop where
  | failed (r : ℤ) (heap : Heap) (hr : r < 0) : Created s r (s.setHeap heap)
  | recycled (p : PcbPtr) (rest : List PcbPtr) (heap : Heap) (x : Pcb) (s' : KernelOf Q)
      (hl : s.view.lists (.queue (.proc .stopped)) = p :: rest)
      (hb : Becomes (s.withSlot heap p x) (s.view.recycle p) s')
      (hfd : x.fdTable = fun _ => none) : Created s eproclimit s'
  | created (p : PcbPtr) (rest : List PcbPtr) (heap : Heap) (x : Pcb) (s' : KernelOf Q)
      (hl : s.view.lists (.queue (.proc .stopped)) = p :: rest)
      (hpid : 1 ≤ nextPid (s.pcb p).pid)
      (hb : Becomes (s.withSlot heap p x) (s.view.spawn p (nextPid (s.pcb p).pid)) s')
      (hfd : x.fdTable = fun _ => none) : Created s (nextPid (s.pcb p).pid) s'

theorem create_cases (h : Good run s) {r : ℤ} {s' : KernelOf Q}
    (hc : s.create func stack = some (r, s')) : Created s r s' := by
  by_cases hf : func = 0
  · unfold create at hc
    rw [if_pos hf] at hc
    obtain ⟨rfl, rfl⟩ := hc
    exact .failed einval s.toHeap (by decide)
  cases hk : s.toHeap.kmalloc (toWord (stackSize stack)) with
  | none =>
    have hkm : s.kmalloc (toWord (stackSize stack)) = none := by
      unfold kmalloc
      rw [hk]
      rfl
    unfold stackSize at hkm
    unfold create at hc
    rw [if_neg hf] at hc
    dsimp only at hc
    rw [hkm] at hc
    simp at hc
  | some r1 =>
    obtain ⟨b, heap1⟩ := r1
    by_cases hb : b = 0
    · subst hb
      rw [create_noStack hf hk] at hc
      obtain ⟨rfl, rfl⟩ := hc
      exact .failed enomem heap1 (by decide)
    cases hl : s.view.lists (.queue (.proc .stopped)) with
    | nil =>
      rw [create_full h hf hb hk hl] at hc
      obtain ⟨heap, -, heq⟩ := Option.map_eq_some_iff.mp hc
      obtain ⟨rfl, rfl⟩ := heq
      exact .failed eproclimit heap (by decide)
    | cons p rest =>
      cases hk2 : heap1.kmalloc (signalTableSize * 4) with
      | none =>
        rw [create_stack hf hb hk, getNextAvailablePcb_noMem (h.setHeap heap1) hl hk2] at hc
        simp at hc
      | some r2 =>
        obtain ⟨table, heap2⟩ := r2
        by_cases ht : table = 0
        · subst ht
          cases hfree : heap2.kfree b with
          | none =>
            exfalso
            obtain ⟨s1, hs1, hb1⟩ := getNextAvailablePcb_noTable (h.setHeap heap1) hl hk2
            have hheap : s1.toHeap = heap2 := hb1.toHeap
            rw [create_stack hf hb hk, hs1, Option.bind_some] at hc
            simp only [kfree] at hc
            rw [hheap, hfree] at hc
            simp at hc
          | some heap3 =>
            obtain ⟨t, x, ht, hbt, hfd⟩ := create_noTable h hf hb hk hl hk2 hfree
            rw [ht] at hc
            obtain ⟨rfl, rfl⟩ := hc
            exact .recycled p rest heap3 x s' hl hbt hfd
        by_cases hpid : 1 ≤ nextPid (s.pcb p).pid
        · obtain ⟨t, x, ht', hbt, -, -, -, hfd, -⟩ := create_found h hf hb hk hl hk2 ht hpid
          rw [ht'] at hc
          obtain ⟨rfl, rfl⟩ := hc
          exact .created p rest _ x s' hl hpid hbt hfd
        · rw [create_stack hf hb hk, getNextAvailablePcb_badPid (h.setHeap heap1) hl hk2 ht hpid] at hc
          simp at hc

end Xeros.Model.KernelOf
