import Xeros.Refinement.AccountSteps

/-!
# The accounts at boot

`initproc` allocates three blocks before the dispatcher starts, and the root process two more.
-/

set_option autoImplicit false

namespace Xeros.Model.KernelOf

open Xeros.Foundations Xeros.Abstract Xeros.Interface Xeros.Refinement

variable {Q : Type} [ProcLists Q] {s s' : KernelOf Q} {F L : List Block}

/-- `initproc`, up to the call of `dispatch` -/
def initproc (image : Image) (mem : Memory) : Option (KernelOf Q) := do
  let s := initial image mem
  let h ← s.toHeap.kmeminit
  let s ← (s.setHeap h).diInitDevtable
  s.pcbTableInit

theorem boot_eq_initproc (image : Image) (mem : Memory) (root : ℕ) :
    (boot image mem root : Option (KernelOf Q)) =
      (initproc image mem).bind fun s => (s.create root defaultStackSize).bind fun r =>
        r.2.reschedule := by
  unfold boot initproc
  simp only [Option.bind_eq_bind, Option.bind_assoc]

omit [ProcLists Q] in
/-- A device entry gets a block for its data. -/
theorem kbdDevswCreate_accounts {entry : DeviceId} {flag : ℕ} (hM : Managed s.toHeap F L)
    (hs : s.kbdDevswCreate entry flag = some s') :
    ∃ F' l, Managed s'.toHeap F' (l :: L) ∧ s'.image = s.image ∧
      s'.gDeviceTable = Function.update s.gDeviceTable entry (l.addr + 16) := by
  unfold kbdDevswCreate at hs
  obtain ⟨r, hr, hs⟩ := Option.bind_eq_some_iff.mp hs
  obtain ⟨heap, hk, hu⟩ := kmalloc_eq hr
  obtain ⟨b, u⟩ := r
  dsimp only at hk hu hs
  subst hu
  obtain ⟨_, hb, hs⟩ := Option.bind_eq_some_iff.mp hs
  have hb := cAssert_eq_some.mp hb
  obtain rfl := Option.some.inj hs
  rcases hM.kmalloc_cases hk with ⟨hb0, -⟩ | ⟨l, F', rfl, himage, hM', hsize⟩
  · exact absurd hb0 hb
  · refine ⟨F', l, (hM'.rewrite (m := store32 heap.mem (l.addr + 16) flag) ?_).1, himage, rfl⟩
    intro a ha hne
    have hlim := hM'.live_limit (l := l) List.mem_cons_self
    unfold Block.limit at hlim
    right
    right
    right
    refine ⟨l, List.mem_cons_self, ?_⟩
    by_contra hout
    unfold Block.limit at hout
    apply hne
    apply load8_store32_of_ne
    intro j hj
    omega

omit [ProcLists Q] in
theorem diInitDevtable_accounts (hM : Managed s.toHeap F []) (hs : s.diInitDevtable = some s') :
    ∃ F' noEcho echo, Managed s'.toHeap F' [echo, noEcho] ∧ s'.image = s.image ∧
      s'.gDeviceTable .keyboardNoEcho = noEcho.addr + 16 ∧
      s'.gDeviceTable .keyboard = echo.addr + 16 := by
  unfold diInitDevtable at hs
  obtain ⟨u, hu, hs⟩ := Option.bind_eq_some_iff.mp hs
  obtain ⟨w, hw, hs⟩ := Option.bind_eq_some_iff.mp hs
  obtain rfl := Option.some.inj hs
  obtain ⟨F1, noEcho, hM1, himage1, htable1⟩ := kbdDevswCreate_accounts hM hu
  obtain ⟨F2, echo, hM2, himage2, htable2⟩ := kbdDevswCreate_accounts hM1 hw
  refine ⟨F2, noEcho, echo, hM2, himage2.trans himage1, ?_, ?_⟩
  · show w.gDeviceTable .keyboardNoEcho = _
    rw [htable2, Function.update_of_ne (by simp), htable1, Function.update_self]
  · show w.gDeviceTable .keyboard = _
    rw [htable2, Function.update_self]

/-- The stack of the idle process is written inside its block. -/
theorem idleStack_managed {h : Heap} {l : Block} (hM : Managed h F (l :: L))
    (hsize : idleProcStackSize + 16 ≤ l.size) (func : ℕ) :
    Managed { h with mem := setupContextFrame h.mem (idlePcb (l.addr + 16)).esp func } F
      (l :: L) := by
  refine (hM.rewrite fun a ha hne => ?_).1
  have hlim := hM.live_limit (l := l) List.mem_cons_self
  have hsize : 1024 + 16 ≤ l.size := hsize
  unfold Block.limit at hlim
  have hcf : (idlePcb (l.addr + 16)).esp = l.addr + 16 + 1024 - 44 := by
    show subWord (l.addr + 16 + 1024) 44 = _
    exact subWord_of_le (by omega) (by omega)
  rw [hcf] at hne
  right
  right
  right
  refine ⟨l, List.mem_cons_self, ?_⟩
  by_contra hout
  unfold Block.limit at hout
  apply hne
  apply load8_setupContextFrame_of_ne
  intro j hj
  have hj44 : j < 44 := hj
  omega

/-- Before the first process the three blocks of boot are in use. -/
theorem initproc_accounts [LawfulProcLists Q] {image : Image} {mem : Memory}
    (hmax : image.maxaddr = 4194303) (hword : image.freemem < 4294967296)
    (hroom : roundToParagraph image.freemem + 16 ≤ holeStart)
    (hs : (initproc image mem : Option (KernelOf Q)) = some s) :
    ∃ b, TableReady b s ∧ s.transfers = [] ∧ s.image = image ∧ Accounted s := by
  unfold initproc at hs
  dsimp only at hs
  obtain ⟨heap, hheap, hs⟩ := Option.bind_eq_some_iff.mp hs
  obtain ⟨u, hu, hs⟩ := Option.bind_eq_some_iff.mp hs
  have himage := memoryImage_of_kmeminit hmax hword hroom hheap
  obtain ⟨h0, hk0, himage0, hM0, -⟩ := kmeminit_managed himage
  rw [hheap] at hk0
  obtain rfl := Option.some.inj hk0
  obtain ⟨F1, noEcho, echo, hM1, himage1, hnoEcho, hecho⟩ := diInitDevtable_accounts hM0 hu
  obtain ⟨hpcb, hq, -, htr⟩ := diInitDevtable_same hu
  obtain ⟨hwf, hl⟩ := LawfulProcLists.empty (Q := Q)
  obtain ⟨b, heap2, m, hk, hb, rfl, htable, hheap2, -, hdevices, htr2⟩ := pcbTableInit_spec
    (by rw [hq]; exact hwf) (by rw [hq]; exact hl) (fun p => by rw [hpcb]; rfl) hs
  rcases hM1.kmalloc_cases hk with ⟨hb0, -⟩ | ⟨idle, F2, rfl, himage2, hM2, hsize⟩
  · exact absurd hb0 hb
  have hM3 := idleStack_managed hM2 hsize heap2.image.idleproc
  rw [← hheap2] at hM3
  have hstop : ∀ i, (s.pcb (.table i)).currState = .stopped := by
    intro i
    rw [htable.table]
    rfl
  have hlive : s.liveBlocks = [noEcho, echo, idle] := by
    have hnone : holdings s.blocksOf = [] :=
      holdings_eq_nil.mpr fun i => blocksOf_stopped (hstop i)
    unfold liveBlocks bootBlocks bootAllocations
    rw [hnone, hdevices, hnoEcho, hecho, htable.idle]
    show [blockAt s.toHeap (noEcho.addr + 16), blockAt s.toHeap (echo.addr + 16),
      blockAt s.toHeap (idle.addr + 16)] ++ [] = _
    rw [hM3.blockAt_data (by simp), hM3.blockAt_data (by simp), hM3.blockAt_data (by simp),
      List.append_nil]
  have hkept : s.image = image := by
    have hheap := congrArg Heap.image hheap2
    exact hheap.trans (himage2.trans (himage1.trans himage0))
  refine ⟨_, htable, htr2.trans htr, hkept, F2, ?_⟩
  rw [hlive]
  exact hM3.perm (List.reverse_perm [idle, echo, noEcho])

end Xeros.Model.KernelOf
