import Mathlib.Logic.Relation
import Xeros.Refinement.Create
import Xeros.Refinement.Keyboard

/-!
# Processes and descriptors come and go

What `create`, `cleanup_proc`, `di_open` and `di_close` change of control blocks and of the keyboard
driver.  As in `Xeros.Refinement.Frames`, nothing is asked of the queues.
-/

set_option autoImplicit false

namespace Xeros.Model.KernelOf

open Xeros.Foundations Xeros.Abstract

variable {Q : Type} {s s' s'' : KernelOf Q} {p : PcbPtr}

/-! ## Descriptors -/

/-- The process `p` closes the descriptor `i`. -/
structure Closes (p : PcbPtr) (i : Fin pcbNumFds) (s s' : KernelOf Q) : Prop where
  wasOpen : (s.pcb p).fdTable i ≠ none
  refcount : 0 < s.kbd.gKbdRefcount
  eq : s' = (s.setKbd (s.kbd.kbdClose (s.pcb p).pid).2).setPcb p fun x =>
    { x with fdTable := Function.update x.fdTable i none }

theorem diClose_cases (s : KernelOf Q) (p : PcbPtr) (fd : ℤ) :
    s.diClose p fd = (syserr, s) ∧ ((∀ i e, checkFd (s.pcb p) fd ≠ some (i, e)) ∨
        s.kbd.gKbdRefcount ≤ 0) ∨
      ∃ i e, checkFd (s.pcb p) fd = some (i, e) ∧ (s.diClose p fd).1 = 0 ∧
        Closes p i s (s.diClose p fd).2 := by
  cases hc : checkFd (s.pcb p) fd with
  | none =>
    unfold diClose
    rw [hc]
    exact .inl ⟨rfl, .inl (by simp)⟩
  | some r =>
    obtain ⟨i, e⟩ := r
    by_cases hr : s.kbd.gKbdRefcount ≤ 0
    · have hclose : s.kbd.kbdClose (s.pcb p).pid = (ebadf, s.kbd) := if_pos hr
      unfold diClose
      rw [hc]
      dsimp only
      rw [hclose]
      exact .inl ⟨rfl, .inr hr⟩
    · have hclose : (s.kbd.kbdClose (s.pcb p).pid).1 = 0 := by
        unfold Keyboard.kbdClose
        rw [if_neg hr]
      have hopen : (s.pcb p).fdTable i ≠ none := by
        intro hnone
        unfold checkFd at hc
        split_ifs at hc
        obtain ⟨e', he', heq⟩ := Option.map_eq_some_iff.mp hc
        rw [(Prod.mk.inj heq).1, hnone] at he'
        simp at he'
      have hdi : s.diClose p fd = (0, (s.setKbd (s.kbd.kbdClose (s.pcb p).pid).2).setPcb p fun x =>
          { x with fdTable := Function.update x.fdTable i none }) := by
        unfold diClose
        rw [hc]
        dsimp only
        rw [hclose]
        rfl
      rw [hdi]
      exact .inr ⟨i, e, rfl, rfl, hopen, by omega, rfl⟩

/-- Some descriptors of `p` are closed. -/
def ClosesSome (p : PcbPtr) : KernelOf Q → KernelOf Q → Prop :=
  Relation.ReflTransGen fun s s' => ∃ i, Closes p i s s'

theorem closeFds_closes (s : KernelOf Q) (p : PcbPtr) : ClosesSome p s (s.closeFds p) := by
  unfold closeFds
  generalize List.finRange pcbNumFds = fds
  induction fds generalizing s with
  | nil => exact .refl
  | cons fd fds ih =>
    rw [List.foldl_cons]
    rcases diClose_cases s p fd.val with ⟨heq, -⟩ | ⟨i, e, -, -, hc⟩
    · rw [heq]
      exact ih s
    · exact .head ⟨i, hc⟩ (ih _)

theorem Closes.pcb_ne {i : Fin pcbNumFds} (h : Closes p i s s') {q : PcbPtr} (hq : q ≠ p) :
    s'.pcb q = s.pcb q := by
  rw [h.eq, setPcb_toCore, Core.setPcb_pcb_ne _ _ hq]
  rfl

theorem Closes.pcb_self {i : Fin pcbNumFds} (h : Closes p i s s') :
    s'.pcb p = { s.pcb p with fdTable := Function.update (s.pcb p).fdTable i none } := by
  rw [h.eq, setPcb_toCore, Core.setPcb_pcb_self]
  rfl

theorem Closes.kbd {i : Fin pcbNumFds} (h : Closes p i s s') :
    s'.kbd = (s.kbd.kbdClose (s.pcb p).pid).2 := by
  rw [h.eq]
  rfl

/-- What closing descriptors leaves alone. -/
structure FdsOnly (p : PcbPtr) (s s' : KernelOf Q) : Prop where
  toHeap : s'.toHeap = s.toHeap
  gDeviceTable : s'.gDeviceTable = s.gDeviceTable
  currproc : s'.currproc = s.currproc
  queues : s'.queues = s.queues
  self : s'.pcb p = { s.pcb p with fdTable := (s'.pcb p).fdTable }
  other : ∀ q, q ≠ p → s'.pcb q = s.pcb q

theorem ClosesSome.fdsOnly (h : ClosesSome p s s') : FdsOnly p s s' := by
  induction h with
  | refl => exact ⟨rfl, rfl, rfl, rfl, rfl, fun _ _ => rfl⟩
  | tail _ hstep ih =>
    obtain ⟨i, hc⟩ := hstep
    refine ⟨?_, ?_, ?_, ?_, ?_, fun q hq => (hc.pcb_ne hq).trans (ih.other q hq)⟩
    · rw [← ih.toHeap, hc.eq]
      rfl
    · rw [← ih.gDeviceTable, hc.eq]
      rfl
    · rw [← ih.currproc, hc.eq]
      rfl
    · rw [← ih.queues, hc.eq]
      rfl
    · rw [hc.pcb_self, ih.self]

/-- The outcome of `di_open` for the process `p`. -/
inductive OpenOutcome (s : KernelOf Q) (p : PcbPtr) (deviceNo : ℤ) : ℤ → KernelOf Q → Prop where
  | refused : OpenOutcome s p deviceNo syserr s
  | opened (e : DeviceId) (fd : Fin pcbNumFds) (k : Keyboard) (he : deviceOf deviceNo = some e)
      (hfd : (s.pcb p).fdTable fd = none)
      (hk : s.kbd.kbdOpen (s.pcb p).pid (toInt (load32 s.mem (s.gDeviceTable e))) = some (0, k)) :
      OpenOutcome s p deviceNo fd.val ((s.setKbd k).setPcb p fun x =>
        { x with fdTable := Function.update x.fdTable fd (some e) })

/-- A refused `kbd_open` changes nothing. -/
theorem kbdOpen_refused {k k' : Keyboard} {pid flag r : ℤ} (h : k.kbdOpen pid flag = some (r, k'))
    (hr : r ≠ 0) : k' = k := by
  unfold Keyboard.kbdOpen at h
  split_ifs at h
  · exact (Prod.mk.inj (Option.some.inj h)).2.symm
  · exact absurd (Prod.mk.inj (Option.some.inj h)).1.symm hr
  · dsimp only at h
    obtain ⟨_, -, h⟩ := Option.bind_eq_some_iff.mp h
    exact absurd (Prod.mk.inj (Option.some.inj h)).1.symm hr

theorem diOpen_cases {deviceNo r : ℤ} (h : s.diOpen p deviceNo = some (r, s')) :
    OpenOutcome s p deviceNo r s' := by
  unfold diOpen at h
  cases he : deviceOf deviceNo with
  | none =>
    rw [he] at h
    obtain ⟨rfl, rfl⟩ := Prod.mk.inj (Option.some.inj h)
    exact .refused
  | some e =>
    rw [he] at h
    dsimp only at h
    cases hf : (List.finRange pcbNumFds).find? fun fd => (s.pcb p).fdTable fd = none with
    | none =>
      rw [hf] at h
      obtain ⟨rfl, rfl⟩ := Prod.mk.inj (Option.some.inj h)
      exact .refused
    | some fd =>
      rw [hf] at h
      dsimp only at h
      obtain ⟨⟨result, k⟩, hk, h⟩ := Option.bind_eq_some_iff.mp h
      dsimp only at h
      split_ifs at h with hr
      · obtain ⟨rfl, rfl⟩ := Prod.mk.inj (Option.some.inj h)
        rw [kbdOpen_refused hk hr]
        exact .refused
      · obtain ⟨rfl, rfl⟩ := Prod.mk.inj (Option.some.inj h)
        obtain rfl : result = 0 := not_not.mp hr
        exact .opened e fd k he (by simpa using List.find?_some hf) hk

variable [ProcLists Q]

/-! ## The end of a process -/

/-- The heap is changed and processes are moved; then `p` closes descriptors and stops. -/
theorem cleanupProc_stages (hs : s.cleanupProc s.currproc = some s') (hrun : Running s) :
    ∃ (heap : Heap) (u v : KernelOf Q), Quiet (s.setHeap heap) u ∧ ClosesSome s.currproc u v ∧
      v.addPcbToQueue s.currproc .stopped = some s' := by
  unfold cleanupProc at hs
  obtain ⟨u1, hu1, hs⟩ := Option.bind_eq_some_iff.mp hs
  obtain ⟨heap1, -, rfl⟩ := kfree_eq hu1
  obtain ⟨u2, hu2, hs⟩ := Option.bind_eq_some_iff.mp hs
  obtain ⟨heap2, -, rfl⟩ := kfree_eq hu2
  obtain ⟨u3, hu3, hs⟩ := Option.bind_eq_some_iff.mp hs
  obtain ⟨u4, hu4, hs⟩ := Option.bind_eq_some_iff.mp hs
  obtain ⟨u5, hu5, hs⟩ := Option.bind_eq_some_iff.mp hs
  dsimp only at hs
  have hquiet : Quiet (s.setHeap heap2) u5 :=
    ((notifyBlockedProcs_quiet hu3 (by simp)).trans (notifyBlockedProcs_quiet hu4 (by simp))).trans
      (notifyBlockedProcs_quiet hu5 (by simp))
  have hrun5 : (u5.pcb s.currproc).currState = .running := hquiet.running _ hrun
  split_ifs at hs
  · -- a running process is blocked on nothing
    obtain ⟨u6, hu6, -⟩ := Option.bind_eq_some_iff.mp hs
    unfold resolveBlocking at hu6
    obtain ⟨_, -, hu6⟩ := Option.bind_eq_some_iff.mp hu6
    obtain ⟨_, hb, -⟩ := Option.bind_eq_some_iff.mp hu6
    have hb := cAssert_eq_some.mp hb
    rw [hrun5] at hb
    simp at hb
  · exact ⟨heap2, u5, _, hquiet, closeFds_closes u5 s.currproc, hs⟩

/-! ## New processes -/

/-- The outcome of `create`: nothing happened, or a slot of the table was filled. -/
inductive CreateOutcome (s : KernelOf Q) : ℤ → KernelOf Q → Prop where
  | failed (r : ℤ) (heap : Heap) : CreateOutcome s r (s.setHeap heap)
  | filled (r : ℤ) (p : PcbPtr) (k : Q) (heap : Heap) (x : Pcb)
      (hp : (s.pcb p).currState = .ready ∨ (s.pcb p).currState = .stopped)
      (hpid : x.pid = (s.pcb p).pid ∨ x.pid = nextPid (s.pcb p).pid ∧ 1 ≤ x.pid)
      (hfd : x.fdTable = fun _ => none) (hx : x.currState = .ready ∨ x.currState = .stopped) :
      CreateOutcome s r ((s.setQueues k).withSlot heap p x)

/-- A slot of the table is looked for. -/
theorem getNextAvailablePcb_cases {r : Option PcbPtr}
    (h : s.getNextAvailablePcb = some (r, s')) :
    r = none ∧ s' = s ∨ ∃ p k heap x,
      ((s.pcb p).currState = .ready ∨ (s.pcb p).currState = .stopped) ∧
      x.fdTable = (fun _ => none) ∧ x.currState = .stopped ∧
      s' = (s.setQueues k).withSlot heap p x ∧
      (r = none ∧ x.pid = (s.pcb p).pid ∨
        r = some p ∧ x.pid = nextPid (s.pcb p).pid ∧ 1 ≤ x.pid) := by
  unfold getNextAvailablePcb at h
  cases hh : ProcLists.head s.queues (.proc .stopped) with
  | none =>
    rw [hh] at h
    obtain ⟨rfl, rfl⟩ := Prod.mk.inj (Option.some.inj h)
    exact .inl ⟨rfl, rfl⟩
  | some p =>
    rw [hh] at h
    dsimp only at h
    obtain ⟨s1, hs1, h⟩ := Option.bind_eq_some_iff.mp h
    obtain ⟨hp, k, rfl⟩ := removePcbFromQueue_eq hs1
    obtain ⟨⟨table, s2⟩, hs2, h⟩ := Option.bind_eq_some_iff.mp h
    obtain ⟨heap, -, rfl⟩ := kmalloc_eq hs2
    dsimp only at h
    split_ifs at h
    · obtain ⟨s3, hs3, h⟩ := Option.bind_eq_some_iff.mp h
      obtain ⟨-, k', rfl⟩ := addPcbToQueue_eq hs3
      obtain ⟨rfl, rfl⟩ := Prod.mk.inj (Option.some.inj h)
      refine .inr ⟨p, k', heap,
        { Pcb.zero with signalTable := table, pid := (s.pcb p).pid, currState := .stopped },
        hp, rfl, rfl, ?_, .inl ⟨rfl, rfl⟩⟩
      unfold withSlot setPcb setQueues setHeap Core.setPcb Core.setHeap
      simp only [Function.update_self, Function.update_idem]
    · obtain ⟨_, hpid, h⟩ := Option.bind_eq_some_iff.mp h
      obtain ⟨rfl, rfl⟩ := Prod.mk.inj (Option.some.inj h)
      have hpid := cAssert_eq_some.mp hpid
      rw [setPcb_toCore, Core.setPcb_pcb_self] at hpid
      refine .inr ⟨p, ProcLists.clearLinks k p,
        { heap with mem := memset heap.mem table 0 4 },
        { freshPcb table with pid := nextPid (s.pcb p).pid }, hp, rfl, rfl, ?_,
        .inr ⟨rfl, rfl, hpid⟩⟩
      unfold withSlot setPcb setQueues setMem setHeap Core.setPcb Core.setMem Core.setHeap freshPcb
      simp only [Function.update_self, Function.update_idem]

omit [ProcLists Q] in
theorem setupStack_eq (s : KernelOf Q) (p : PcbPtr) (b func : ℕ) (stack : ℤ) :
    ∃ m sp, s.setupStack p b func stack =
      (s.setMem m).setPcb p fun x => { x with memoryRegion := b, esp := sp } := by
  unfold setupStack
  simp only [store_eq, setPcb_setMem, setMem_setMem, setPcb_setPcb]
  exact ⟨_, _, rfl⟩

theorem create_outcome {func : ℕ} {stack r : ℤ} (h : s.create func stack = some (r, s')) :
    CreateOutcome s r s' := by
  unfold create at h
  split_ifs at h with hf
  · obtain ⟨rfl, rfl⟩ := Prod.mk.inj (Option.some.inj h)
    exact .failed einval s.toHeap
  all_goals
    dsimp only at h
    obtain ⟨⟨b, s1⟩, hs1, h⟩ := Option.bind_eq_some_iff.mp h
    obtain ⟨heap, -, rfl⟩ := kmalloc_eq hs1
    dsimp only at h
    split_ifs at h
    · obtain ⟨rfl, rfl⟩ := Prod.mk.inj (Option.some.inj h)
      exact .failed enomem heap
    · obtain ⟨⟨np, s2⟩, hs2, h⟩ := Option.bind_eq_some_iff.mp h
      rcases getNextAvailablePcb_cases hs2 with ⟨rfl, rfl⟩ | ⟨p, k, heap2, x, hp, hfd, hx, rfl, hr⟩
      · dsimp only at h
        obtain ⟨s3, hs3, h⟩ := Option.bind_eq_some_iff.mp h
        obtain ⟨heap3, -, rfl⟩ := kfree_eq hs3
        obtain ⟨rfl, rfl⟩ := Prod.mk.inj (Option.some.inj h)
        exact .failed eproclimit heap3
      · rcases hr with ⟨rfl, hpid⟩ | ⟨rfl, hpid⟩
        · dsimp only at h
          obtain ⟨s3, hs3, h⟩ := Option.bind_eq_some_iff.mp h
          obtain ⟨heap3, -, rfl⟩ := kfree_eq hs3
          obtain ⟨rfl, rfl⟩ := Prod.mk.inj (Option.some.inj h)
          exact .filled eproclimit p k heap3 x hp (.inl hpid) hfd (.inr hx)
        · dsimp only at h
          obtain ⟨s3, hs3, h⟩ := Option.bind_eq_some_iff.mp h
          obtain ⟨m, sp, hm⟩ := setupStack_eq (((s.setHeap heap).setQueues k).withSlot heap2 p x) p b
            func _
          rw [hm] at hs3
          obtain ⟨-, k', rfl⟩ := addPcbToQueue_eq hs3
          obtain ⟨rfl, rfl⟩ := Prod.mk.inj (Option.some.inj h)
          have heq : ((((((s.setHeap heap).setQueues k).withSlot heap2 p x).setMem m).setPcb p fun x =>
              { x with memoryRegion := b, esp := sp }).setQueues k').setPcb p (fun x =>
              { x with currState := .ready }) = (s.setQueues k').withSlot { heap2 with mem := m } p
              { x with memoryRegion := b, esp := sp, currState := .ready } := by
            unfold withSlot setPcb setQueues setMem setHeap Core.setPcb Core.setMem Core.setHeap
            simp only [Function.update_self, Function.update_idem]
          rw [heq]
          exact .filled _ p k' _ _ hp (.inr hpid) hfd (.inl rfl)

end Xeros.Model.KernelOf
