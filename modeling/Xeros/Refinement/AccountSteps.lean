import Xeros.Refinement.Accounts

/-!
# The accounts in one turn

`create` adds the two blocks of a new process, ending a process removes its two blocks, and a failed
`create` gives back what it had.  Every other request leaves the kernel's tables and the free list
alone, so that the accounts can only suffer from the bytes it writes for a program.
-/

set_option autoImplicit false

namespace Xeros.Model

open Xeros.Foundations Xeros.Abstract Xeros.Interface Xeros.Refinement

/-- A process that goes on has the blocks it had. -/
theorem Pcb.allocations_eq {x y : Pcb} (hstop : y.currState = .stopped ↔ x.currState = .stopped)
    (hblocks : x.currState ≠ .stopped →
      y.memoryRegion = x.memoryRegion ∧ y.signalTable = x.signalTable) :
    y.allocations = x.allocations := by
  by_cases hx : x.currState = .stopped
  · rw [Pcb.allocations_stopped hx, Pcb.allocations_stopped (hstop.mpr hx)]
  · obtain ⟨hregion, htable⟩ := hblocks hx
    rw [Pcb.allocations_live hx, Pcb.allocations_live fun hy => hx (hstop.mp hy), hregion, htable]

namespace KernelOf

/-! ## Who has stopped -/

section Stopped

variable {Q : Type} [ProcLists Q] {s s' : KernelOf Q} {req : SyscallRequest} {p : PcbPtr}

/-- Only the end of the running process stops one. -/
theorem Upkeep.stopped [CheckedProcLists Q] (h : Upkeep s req s')
    (hp : (s'.pcb p).currState = .stopped) :
    (s.pcb p).currState = .stopped ∨
      p = s.currproc ∧ (req = .stop ∨ req = .sigreturn) := by
  cases h with
  | moves hreq h => exact .inl (h.stopped p hp)
  | fills hreq h hkbd =>
    left
    rcases h.slot p with ⟨hstate, -⟩ | ⟨hstop, -⟩
    · rwa [← hstate]
    · exact hstop
  | ends hreq h =>
    obtain ⟨heap, u, w, -, hmoves, hw, hs⟩ := h.stages
    by_cases hcur : p = s.currproc
    · exact .inr ⟨hcur, hreq⟩
    · left
      apply hmoves.stopped p
      apply (closeFds_moves u s.currproc (a := none)).stopped p
      rw [← (addPcbToQueue_checked hw).1 p hcur]
      exact (reschedule_moves hs (a := none)).stopped p hp

omit [ProcLists Q] in
/-- A process that has not stopped keeps its blocks. -/
theorem DataStep.regions (h : DataStep s req s' p) (hp : (s.pcb p).currState ≠ .stopped) :
    (s'.pcb p).memoryRegion = (s.pcb p).memoryRegion ∧
      (s'.pcb p).signalTable = (s.pcb p).signalTable := by
  cases h with
  | same _ h => exact ⟨h.sameOwner.memoryRegion, h.sameOwner.signalTable⟩
  | charged _ _ h => exact ⟨h.sameOwner.memoryRegion, h.sameOwner.signalTable⟩
  | marked sig _ _ h => exact ⟨h.sameOwner.memoryRegion, h.sameOwner.signalTable⟩
  | returned _ _ h => exact ⟨h.sameOwner.memoryRegion, h.sameOwner.signalTable⟩
  | filled _ _ hs h => exact absurd hs hp
  | ended f _ _ _ h => exact ⟨h.sameOwner.memoryRegion, h.sameOwner.signalTable⟩
  | descriptors f _ _ h => exact ⟨h.sameOwner.memoryRegion, h.sameOwner.signalTable⟩

/-- A process that has stopped stays so, unless its slot is used for a new one. -/
theorem Turn.stopped [LawfulProcLists Q] (h : Ready s) (ht : Turn s req s') (hreq : req ≠ .create)
    {i : Fin pcbTableSize} (hstop : (s.pcb (.table i)).currState = .stopped) :
    (s'.pcb (.table i)).currState = .stopped := by
  obtain ⟨-, e, hh, he, hview⟩ := ht
  have hstep : ((s'.view).proc (.table i)).state = ((e.apply s.view).proc (.table i)).state := by
    rw [hview]
  rcases Event.stopped_step h.sound he (by simp) hstop with hs | ⟨pid, rfl⟩
  · exact hstep.trans hs
  · cases hh
    exact absurd rfl hreq

end Stopped

/-- An assignment that leaves the state of a process alone. -/
theorem setPcb_currState {Q : Type} (s : KernelOf Q) {p : PcbPtr} {f : Pcb → Pcb} (q : PcbPtr)
    (hf : (f (s.pcb p)).currState = (s.pcb p).currState) :
    ((s.setPcb p f).pcb q).currState = (s.pcb q).currState := by
  rw [setPcb_toCore, Core.setPcb_pcb]
  split_ifs with hq
  · rw [hf, hq]
  · rfl

/-! ## One request -/

variable {Q : Type} [ProcLists Q] [LawfulProcLists Q] [CheckedProcLists Q] {s s' : KernelOf Q}
  {req : SyscallRequest} {F : List Block} {t : Trap}

/-- The kernel at the start of a handler, while no device is open. -/
structure Steady (s : KernelOf Q) : Prop where
  ready : Ready s
  sane : Sane s
  orderly : KernelOf.Orderly none s

/-- The requests that allocate or free no block. -/
def Balanced (req : SyscallRequest) : Prop := req ≠ .create ∧ req ≠ .stop ∧ req ≠ .sigreturn

instance : DecidablePred Balanced := fun _ => inferInstanceAs (Decidable (_ ∧ _))

/-- What a request other than these leaves alone. -/
structure KeepsLists (s s' : KernelOf Q) : Prop where
  image : s'.image = s.image
  gFreeList : s'.gFreeList = s.gFreeList
  gDeviceTable : s'.gDeviceTable = s.gDeviceTable

omit [ProcLists Q] [LawfulProcLists Q] [CheckedProcLists Q] in
theorem Kept.keepsLists {R : PcbPtr → Prop} (h : Kept R s s') : KeepsLists s s' :=
  ⟨h.image, h.gFreeList, h.gDeviceTable⟩

theorem dispatchRequest_keepsLists (h : Steady s) (hreq : Balanced req)
    (hdev : SyscallRequest.Deviceless req) (hcur : req ≠ .timerInt → s.currproc ≠ .idle)
    (hs : s.dispatchRequest t req = some s') : KeepsLists s s' := by
  have hrun := h.sane.running
  by_cases htimer : req = .timerInt
  · subst htimer
    exact (timerHandler_handles hs hrun h.sane.idle).kept.keepsLists
  have hclosed : ∀ fd, checkFd s.current fd = none := checkFd_none (h.ready.closed s.currproc)
  have hup := dispatchRequest_upkeep hrun h.orderly hs
  cases dispatchRequest_step h.sane (fun hr => hcur (by rw [hr]; simp)) hs with
  | kept _ _ hk => exact hk.kept.keepsLists
  | signalled p _ hp hk => exact hk.kept.keepsLists
  | create => exact absurd rfl hreq.1
  | ended _ heap u v w _ hu hv hw hr =>
    -- the request ends nobody
    exfalso
    rcases hup.stopped (ended_stopped h.sane (hcur htimer) hu hv hw hr) with hst | ⟨-, hst | hst⟩
    · have hrun : (s.pcb s.currproc).currState = .running := hrun
      rw [hst] at hrun
      simp at hrun
    · exact hreq.2.1 hst
    · exact hreq.2.2 hst
  | opened => exact absurd rfl hdev.2
  | closed i u r hc => exact absurd (h.ready.closed s.currproc i) hc.wasOpen
  | ioctl => exact ⟨rfl, rfl, rfl⟩
  | read i u hi hd => exact absurd (hclosed _) hd.isOpen
  | blocked i u _ hi hd => exact absurd (hclosed _) hd.isOpen
  | key => exact absurd rfl hdev.1

/-- These requests leave every process its blocks. -/
theorem dispatchRequest_sameOwners (h : Steady s) (hreq : Balanced req)
    (hdev : SyscallRequest.Deviceless req) (hcur : req ≠ .timerInt → s.currproc ≠ .idle)
    (hs : s.dispatchRequest t req = some s') : SameOwners s s' := by
  have hup := dispatchRequest_upkeep h.sane.running h.orderly hs
  have hturn := dispatchRequest_turn h.ready hdev hcur hs
  have hdata := dispatchRequest_data h.sane h.orderly (fun ht _ => hcur ht) hs
  have hlists := dispatchRequest_keepsLists h hreq hdev hcur hs
  have hstop : ∀ p, (s'.pcb p).currState = .stopped → (s.pcb p).currState = .stopped := by
    intro p hp
    rcases hup.stopped hp with hst | ⟨-, hst | hst⟩
    · exact hst
    · exact absurd hst hreq.2.1
    · exact absurd hst hreq.2.2
  refine ⟨hlists.image, ?_, fun i => ?_⟩
  · unfold bootAllocations
    rw [hlists.gDeviceTable, ((hdata .idle).regions h.orderly.idle).1]
  · apply Pcb.allocations_eq
    · exact ⟨hstop _, fun hst => hturn.stopped h.ready hreq.1 hst⟩
    · exact fun hlive => (hdata (.table i)).regions hlive

/-- The accounts after a request that allocates and frees nothing, if it writes no header. -/
theorem balanced_accounts (h : Steady s) (hM : Managed s.toHeap F s.liveBlocks)
    (hreq : Balanced req) (hdev : SyscallRequest.Deviceless req)
    (hcur : req ≠ .timerInt → s.currproc ≠ .idle) (hs : s.dispatchRequest t req = some s')
    (hmem : ∀ a < 4294967296, load8 s'.mem a ≠ load8 s.mem a →
      Writable s.toHeap s.liveBlocks a) : Accounted s' ∧ KeepsBlocks s s' := by
  have hlists := dispatchRequest_keepsLists h hreq hdev hcur hs
  have hheap : s'.toHeap = { s.toHeap with mem := s'.mem } := by
    show (⟨s'.image, s'.mem, s'.gFreeList⟩ : Heap) = ⟨s.image, s'.mem, s.gFreeList⟩
    rw [hlists.image, hlists.gFreeList]
  have hM' := (hM.rewrite hmem).1
  rw [← hheap] at hM'
  exact (dispatchRequest_sameOwners h hreq hdev hcur hs).accounted hM hM'

/-! ## Creating a process -/

omit [ProcLists Q] [LawfulProcLists Q] [CheckedProcLists Q] in
/-- The return code of a process is no part of the accounts. -/
theorem setRet_accounts {u : KernelOf Q} (h : Accounted u ∧ KeepsBlocks s u) (r : ℤ) :
    Accounted (u.setRet r) ∧ KeepsBlocks s (u.setRet r) := by
  obtain ⟨⟨F, hM⟩, hkeep⟩ := h
  have hstate : ∀ q, ((u.setRet r).pcb q).currState = (u.pcb q).currState := fun q =>
    setPcb_currState u q rfl
  have hdata : ∀ q, (u.pcb q).SameOwner ((u.setRet r).pcb q) := fun q =>
    ((KeepsData.refl u).setRet r q).sameOwner
  have howners : SameOwners u (u.setRet r) := by
    refine ⟨rfl, ?_, fun i => ?_⟩
    · unfold bootAllocations
      rw [(hdata .idle).memoryRegion]
      rfl
    · apply Pcb.allocations_eq
      · rw [hstate]
      · exact fun _ => ⟨(hdata _).memoryRegion, (hdata _).signalTable⟩
  have hblocks := howners.blocks hM hM
  refine ⟨(howners.accounted hM hM).1, hkeep.image, hblocks.boot.trans hkeep.boot,
    fun i hi hi' => ?_⟩
  rw [hstate] at hi'
  exact (hblocks.table i).trans (hkeep.table i hi hi')

/-- No stack is smaller than the smallest one, and the size of none wraps around. -/
theorem stackSize_bounds {stack : ℤ} (hstack : stack < 2147483648) :
    8192 ≤ stackSize stack ∧ stackSize stack < 4294967296 := by
  unfold stackSize defaultStackSize
  split_ifs <;> omega

omit [LawfulProcLists Q] [CheckedProcLists Q] in
theorem Creation.accounts {func : ℕ} {stack r : ℤ} (hc : Creation s func stack r s')
    (h : KernelOf.Orderly none s) (hstack : stack < 2147483648)
    (hM : Managed s.toHeap F s.liveBlocks) : Accounted s' ∧ KeepsBlocks s s' := by
  have hslot : ∀ q, ProcLists.head s.queues (.proc .stopped) = some q →
      ((s.pcb q).currState = .ready ∨ (s.pcb q).currState = .stopped) →
      ∃ i, q = .table i ∧ (s.pcb (.table i)).currState = .stopped := by
    intro q hh hq
    obtain ⟨hready, hidle⟩ := h.head q hh
    cases q with
    | idle => exact absurd rfl hidle
    | table i => exact ⟨i, rfl, hq.resolve_left hready⟩
  cases hc with
  | failed _ heap _ hheap =>
    obtain ⟨himage, F', hM'⟩ := hheap.none_managed hM
    have hsame : SameOwners s (s.setHeap heap) := ⟨himage, rfl, fun _ => rfl⟩
    exact hsame.accounted hM hM'
  | recycled q k heap table hh hq hheap =>
    obtain ⟨i, rfl, hstop⟩ := hslot q hh hq
    obtain ⟨himage, F', hM'⟩ := hheap.none_managed hM
    refine SameOwners.accounted ⟨himage, rfl, fun j => ?_⟩ hM hM'
    by_cases hj : PcbPtr.table j = .table i
    · rw [hj, withSlot_pcb_self, Pcb.allocations_stopped hstop]
      rfl
    · rw [withSlot_pcb_ne _ _ _ hj]
      rfl
  | created q k heap table b sp hh hq hpid hheap =>
    obtain ⟨i, rfl, hstop⟩ := hslot q hh hq
    obtain ⟨hmin, hmax⟩ := stackSize_bounds hstack
    obtain ⟨himage, F', stackBlock, tableBlock, rfl, rfl, hM'⟩ := hheap.some_managed hM hmin hmax
    refine accounted_created (i := i) hM hM' himage rfl hstop ?_ fun j hj => ?_
    · rw [withSlot_pcb_self]
      rfl
    · rw [withSlot_pcb_ne _ _ _ (by simpa using hj)]
      rfl

omit [CheckedProcLists Q] in
theorem create_accounts (h : Steady s) (hM : Managed s.toHeap F s.liveBlocks)
    {r : ℤ × KernelOf Q} (hs : s.dispatchSyscallCreate = some r) :
    Accounted (setRetOf r) ∧ KeepsBlocks s (setRetOf r) := by
  obtain ⟨r, u⟩ := r
  rw [setRetOf_mk]
  apply setRet_accounts
  unfold dispatchSyscallCreate at hs
  dsimp only at hs
  obtain ⟨result, -, hs⟩ := Option.bind_eq_some_iff.mp hs
  split_ifs at hs
  · obtain ⟨rfl, rfl⟩ := Prod.mk.inj (Option.some.inj hs)
    exact ⟨⟨F, hM⟩, rfl, rfl, fun _ _ _ => rfl⟩
  · have hrange := (wrapInt_range (s.arg 1)).2
    exact (create_creation hs).accounts h.orderly hrange hM

/-! ## Ending a process -/

omit [LawfulProcLists Q] [CheckedProcLists Q] in
/-- `cleanup_proc` frees the stack and the signal table, and the rest of it does not touch the
heap. -/
theorem cleanupProc_frees (hs : s.cleanupProc s.currproc = some s') (hrun : Running s) :
    ∃ heap, s.toHeap.kfree s.current.memoryRegion = some heap ∧
      heap.kfree s.current.signalTable = some s'.toHeap ∧ s'.gDeviceTable = s.gDeviceTable := by
  unfold cleanupProc at hs
  obtain ⟨u1, hu1, hs⟩ := Option.bind_eq_some_iff.mp hs
  obtain ⟨heap1, hk1, rfl⟩ := kfree_eq hu1
  obtain ⟨u2, hu2, hs⟩ := Option.bind_eq_some_iff.mp hs
  obtain ⟨heap2, hk2, rfl⟩ := kfree_eq hu2
  obtain ⟨u3, hu3, hs⟩ := Option.bind_eq_some_iff.mp hs
  obtain ⟨u4, hu4, hs⟩ := Option.bind_eq_some_iff.mp hs
  obtain ⟨u5, hu5, hs⟩ := Option.bind_eq_some_iff.mp hs
  dsimp only at hs
  have hquiet : Quiet (s.setHeap heap2) u5 :=
    ((notifyBlockedProcs_quiet hu3 (by simp)).trans (notifyBlockedProcs_quiet hu4 (by simp))).trans
      (notifyBlockedProcs_quiet hu5 (by simp))
  have hrun5 : (u5.pcb s.currproc).currState = .running := hquiet.running _ hrun
  split_ifs at hs
  · -- a running process is blocked on nothing
    obtain ⟨u6, hu6, -⟩ := Option.bind_eq_some_iff.mp hs
    unfold resolveBlocking at hu6
    obtain ⟨_, -, hu6⟩ := Option.bind_eq_some_iff.mp hu6
    obtain ⟨_, hb, -⟩ := Option.bind_eq_some_iff.mp hu6
    have hb := cAssert_eq_some.mp hb
    rw [hrun5] at hb
    simp at hb
  · have honly := (closeFds_closes u5 s.currproc).fdsOnly
    have hs : (u5.closeFds s.currproc).addPcbToQueue s.currproc .stopped = some s' := hs
    obtain ⟨-, k, rfl⟩ := addPcbToQueue_eq hs
    have hheap : (u5.closeFds s.currproc).toHeap = heap2 := honly.toHeap.trans hquiet.toHeap
    have hdevices : (u5.closeFds s.currproc).gDeviceTable = s.gDeviceTable :=
      honly.gDeviceTable.trans hquiet.gDeviceTable
    refine ⟨heap1, hk1, ?_, hdevices⟩
    rw [setPcb_toCore, Core.setPcb_toHeap]
    show _ = some (u5.closeFds s.currproc).toHeap
    rw [hheap]
    exact hk2

omit [LawfulProcLists Q] [CheckedProcLists Q] in
theorem reschedule_heap (hs : s.reschedule = some s') :
    s'.toHeap = s.toHeap ∧ s'.gDeviceTable = s.gDeviceTable := by
  unfold reschedule getNextProc at hs
  cases hh : ProcLists.head s.queues (.proc .ready) with
  | none =>
    rw [hh] at hs
    obtain rfl := Option.some.inj hs
    exact ⟨rfl, rfl⟩
  | some q =>
    rw [hh] at hs
    dsimp only at hs
    cases hr : s.removePcbFromQueue q with
    | none =>
      rw [hr] at hs
      exact absurd hs (by simp)
    | some s2 =>
      rw [hr] at hs
      obtain ⟨-, k, rfl⟩ := removePcbFromQueue_eq hr
      obtain rfl := Option.some.inj hs
      exact ⟨rfl, rfl⟩

/-- The accounts after the end of the running process. -/
theorem ended_accounts (h : Steady s) (hM : Managed s.toHeap F s.liveBlocks)
    (hreq : req = .stop ∨ req = .sigreturn) (hcur : s.currproc ≠ .idle)
    (hdata : ∀ p, DataStep s req s' p) (hup : Upkeep s req s') (hturn : Turn s req s')
    (hs : (s.cleanupProc s.currproc >>= fun u => u.reschedule) = some s') :
    Accounted s' ∧ KeepsBlocks s s' := by
  have hstop := cleanupProc_stopped h.sane hcur hs
  obtain ⟨w, hw, hs⟩ := Option.bind_eq_some_iff.mp hs
  obtain ⟨heap, hk1, hk2, hdevices⟩ := cleanupProc_frees hw h.sane.running
  obtain ⟨hheap, hdevices'⟩ := reschedule_heap hs
  obtain ⟨i, hi⟩ := PcbPtr.exists_table hcur
  have hlive : (s.pcb (.table i)).currState ≠ .stopped := by
    have hrun : (s.pcb s.currproc).currState = .running := h.sane.running
    rw [← hi, hrun]
    simp
  have hrun : s.current = s.pcb (.table i) := congrArg s.pcb hi
  rw [hrun] at hk1 hk2
  rw [← hheap] at hk2
  rw [hi] at hstop
  refine accounted_ended hM hlive hk1 hk2 ?_ hstop fun j hj => ?_
  · unfold bootAllocations
    rw [hdevices', hdevices, ((hdata .idle).regions h.orderly.idle).1]
  · apply Pcb.allocations_eq
    · refine ⟨fun hst => ?_, fun hst => hturn.stopped h.ready ?_ hst⟩
      · rcases hup.stopped hst with hst | ⟨hc, -⟩
        · exact hst
        · rw [hi] at hc
          simp only [PcbPtr.table.injEq] at hc
          exact absurd hc hj
      · rcases hreq with rfl | rfl <;> simp
    · exact fun hlive => (hdata (.table j)).regions hlive

/-! ## Every request -/

/-- One turn of the dispatcher keeps the accounts, if what the kernel writes for a program is no
header. -/
theorem dispatchRequest_accounts (h : Steady s) (hacc : Accounted s)
    (hdev : SyscallRequest.Deviceless req) (hcur : req ≠ .timerInt → s.currproc ≠ .idle)
    (hs : s.dispatchRequest t req = some s')
    (hmem : Balanced req → ∀ a < 4294967296, load8 s'.mem a ≠ load8 s.mem a →
      Writable s.toHeap s.liveBlocks a) : Accounted s' ∧ KeepsBlocks s s' := by
  obtain ⟨F, hM⟩ := hacc
  by_cases hreq : Balanced req
  · exact balanced_accounts h hM hreq hdev hcur hs (hmem hreq)
  have hdata := dispatchRequest_data h.sane h.orderly (fun ht _ => hcur ht) hs
  have hup := dispatchRequest_upkeep h.sane.running h.orderly hs
  have hturn := dispatchRequest_turn h.ready hdev hcur hs
  have hreq' : req = .create ∨ req = .stop ∨ req = .sigreturn := by
    unfold Balanced at hreq
    tauto
  rcases hreq' with rfl | rfl | rfl
  · obtain ⟨r, hr, rfl⟩ := Option.map_eq_some_iff.mp hs
    exact create_accounts h hM hr
  · exact ended_accounts h hM (.inl rfl) (hcur (by simp)) hdata hup hturn hs
  · have hs' : s.dispatchSyscallSigreturn = some s' := hs
    unfold dispatchSyscallSigreturn at hs'
    dsimp only at hs'
    obtain ⟨result, -, hs'⟩ := Option.bind_eq_some_iff.mp hs'
    split_ifs at hs'
    · exact ended_accounts h hM (.inr rfl) (hcur (by simp)) hdata hup hturn hs'
    · -- the handler returns to what it interrupted
      obtain rfl := Option.some.inj hs'
      refine SameOwners.accounted ⟨rfl, ?_, fun i => ?_⟩ hM hM
      · unfold bootAllocations
        rw [((hdata .idle).regions h.orderly.idle).1]
        rfl
      · refine Pcb.allocations_eq ?_ fun hlive => (hdata (.table i)).regions hlive
        unfold setRet
        rw [setPcb_currState _ _ rfl, setPcb_currState _ _ rfl]

end KernelOf

end Xeros.Model
