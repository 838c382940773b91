import Xeros.Model.ContextSwitch
import Xeros.Refinement.Base

/-!
# Building and leaving a signal frame

`signal` writes four words and a context frame below the stack pointer of a process and changes
two fields of its control block.  Nothing that other processes see is touched.
-/

set_option autoImplicit false

namespace Xeros.Model

open Xeros.Foundations Xeros.Abstract

/-- What building a signal frame leaves alone, whoever it is built for. -/
structure SameFields (c c' : Core) : Prop where
  view : ∀ p, (c'.pcb p).view = (c.pcb p).view
  fdTable : ∀ p, (c'.pcb p).fdTable = (c.pcb p).fdTable
  signalTable : ∀ p, (c'.pcb p).signalTable = (c.pcb p).signalTable
  memoryRegion : ∀ p, (c'.pcb p).memoryRegion = (c.pcb p).memoryRegion
  currproc : c'.currproc = c.currproc
  gDeviceTable : c'.gDeviceTable = c.gDeviceTable
  kbd : c'.kbd = c.kbd
  transfers : c'.transfers = c.transfers
  image : c'.image = c.image
  gFreeList : c'.gFreeList = c.gFreeList

/-- Building a signal frame for `proc` leaves the other control blocks alone. -/
structure SameBut (c c' : Core) (proc : PcbPtr) : Prop extends SameFields c c' where
  other : ∀ p, p ≠ proc → c'.pcb p = c.pcb p

theorem SameFields.trans {c c' c'' : Core} (h : SameFields c c') (h' : SameFields c' c'') :
    SameFields c c'' :=
  ⟨fun p => (h'.view p).trans (h.view p), fun p => (h'.fdTable p).trans (h.fdTable p),
    fun p => (h'.signalTable p).trans (h.signalTable p),
    fun p => (h'.memoryRegion p).trans (h.memoryRegion p), h'.currproc.trans h.currproc,
    h'.gDeviceTable.trans h.gDeviceTable, h'.kbd.trans h.kbd, h'.transfers.trans h.transfers,
    h'.image.trans h.image, h'.gFreeList.trans h.gFreeList⟩

theorem SameBut.trans {c c' c'' : Core} {proc : PcbPtr} (h : SameBut c c' proc)
    (h' : SameBut c' c'' proc) : SameBut c c'' proc :=
  ⟨h.toSameFields.trans h'.toSameFields, fun p hp => (h'.other p hp).trans (h.other p hp)⟩

theorem sameBut_setMem (c : Core) (proc : PcbPtr) (m : Memory) : SameBut c (c.setMem m) proc :=
  ⟨⟨fun _ => rfl, fun _ => rfl, fun _ => rfl, fun _ => rfl, rfl, rfl, rfl, rfl, rfl, rfl⟩,
    fun _ _ => rfl⟩

theorem SameBut.refl (c : Core) (proc : PcbPtr) : SameBut c c proc := sameBut_setMem c proc c.mem

theorem sameBut_setPcb (c : Core) (proc : PcbPtr) (f : Pcb → Pcb)
    (hview : (f (c.pcb proc)).view = (c.pcb proc).view)
    (hfd : (f (c.pcb proc)).fdTable = (c.pcb proc).fdTable)
    (htable : (f (c.pcb proc)).signalTable = (c.pcb proc).signalTable)
    (hregion : (f (c.pcb proc)).memoryRegion = (c.pcb proc).memoryRegion) :
    SameBut c (c.setPcb proc f) proc := by
  refine ⟨⟨fun p => ?_, fun p => ?_, fun p => ?_, fun p => ?_, rfl, rfl, rfl, rfl, rfl, rfl⟩,
    fun p hp => Core.setPcb_pcb_ne c f hp⟩ <;>
  by_cases hp : p = proc
  · rw [hp, Core.setPcb_pcb_self, hview]
  · rw [Core.setPcb_pcb_ne c f hp]
  · rw [hp, Core.setPcb_pcb_self, hfd]
  · rw [Core.setPcb_pcb_ne c f hp]
  · rw [hp, Core.setPcb_pcb_self, htable]
  · rw [Core.setPcb_pcb_ne c f hp]
  · rw [hp, Core.setPcb_pcb_self, hregion]
  · rw [Core.setPcb_pcb_ne c f hp]

theorem Core.setPcb_setPcb (c : Core) (p : PcbPtr) (f g : Pcb → Pcb) :
    (c.setPcb p f).setPcb p g = c.setPcb p fun x => g (f x) := by
  simp [Core.setPcb]

theorem Core.setPcb_setMem (c : Core) (p : PcbPtr) (f : Pcb → Pcb) (m : Memory) :
    (c.setPcb p f).setMem m = (c.setMem m).setPcb p f := rfl

theorem Core.setMem_setMem (c : Core) (m m' : Memory) : (c.setMem m).setMem m' = c.setMem m' := rfl

theorem Core.store_eq (c : Core) (a w : ℕ) : c.store a w = c.setMem (store32 c.mem a w) := rfl

@[simp] theorem Core.setMem_image (c : Core) (m : Memory) : (c.setMem m).image = c.image := rfl

/-- The stack pointer that `signal` leaves. -/
def signalContext (sp : ℕ) : ℕ :=
  subWord (subWord (subWord (subWord (subWord sp 4) 4) 4) 4) sizeofContextFrame

/-- The memory that `signal` leaves, below the stack pointer `sp`. -/
def signalFrame (c : Core) (proc : PcbPtr) (sigNo : ℕ) : Memory :=
  let sp := (c.pcb proc).esp
  let m := store32 c.mem (subWord sp 4) (toWord (c.pcb proc).ret)
  let m := store32 m (subWord (subWord sp 4) 4) sp
  let m := store32 m (subWord (subWord (subWord sp 4) 4) 4)
    (load32 m ((c.pcb proc).signalTable + 4 * sigNo))
  let m := store32 m (subWord (subWord (subWord (subWord sp 4) 4) 4) 4) 0xCAFECAFE
  setupContextFrame m (signalContext sp) c.image.sigtramp

theorem pushSignalFrame_eq (c : Core) (proc : PcbPtr) (sigNo : ℕ) :
    c.pushSignalFrame proc sigNo =
      (c.setMem (signalFrame c proc sigNo)).setPcb proc fun x =>
        { x with signalsEnabled := false, esp := signalContext (c.pcb proc).esp } := by
  unfold Core.pushSignalFrame
  simp only [Core.store_eq, Core.setPcb_setMem, Core.setMem_setMem, Core.setPcb_setPcb,
    Core.setPcb_pcb_self, Core.setMem_mem, Core.setPcb_toHeap, Core.setMem_pcb, Core.handlerOf,
    Core.setMem_image, signalFrame, signalContext]

theorem pushSignalFrame_same (c : Core) (proc : PcbPtr) (sigNo : ℕ) :
    SameBut c (c.pushSignalFrame proc sigNo) proc := by
  rw [pushSignalFrame_eq]
  generalize signalFrame c proc sigNo = m
  generalize signalContext (c.pcb proc).esp = sp
  refine (sameBut_setMem c proc m).trans ?_
  apply sameBut_setPcb <;> simp only [Pcb.view]

/-! ## The words of the frame -/

theorem load8_memset_of_ne (m : Memory) {a c : ℕ} (b : UInt8) {n : ℕ}
    (h : ∀ j < n, c % 4294967296 ≠ (a + j) % 4294967296) : load8 (memset m a b n) c = load8 m c := by
  induction n generalizing m a with
  | zero => rfl
  | succ n ih =>
    unfold memset
    rw [ih, load8_store8, if_neg]
    · have h0 := h 0 (by omega)
      rwa [Nat.add_zero] at h0
    · intro j hj
      have hj' := h (j + 1) (by omega)
      rwa [show a + (j + 1) = a + 1 + j by omega] at hj'

/-- Setting up a context frame writes nothing but the frame. -/
theorem load8_setupContextFrame_of_ne (m : Memory) {cf c : ℕ} (func : ℕ)
    (h : ∀ j < sizeofContextFrame, c % 4294967296 ≠ (cf + j) % 4294967296) :
    load8 (setupContextFrame m cf func) c = load8 m c := by
  have hword : ∀ d, d + 4 ≤ 44 → ∀ j < 4, c % 4294967296 ≠ (cf + d + j) % 4294967296 := by
    intro d hd j hj
    have hj' := h (d + j) (by show d + j < 44; omega)
    rwa [show cf + (d + j) = cf + d + j by omega] at hj'
  unfold setupContextFrame
  rw [load8_store32_of_ne _ _ _ _ (hword 8 (by omega)),
    load8_store32_of_ne _ _ _ _ (hword 12 (by omega)),
    load8_store32_of_ne _ _ _ _ (hword 40 (by omega)),
    load8_store32_of_ne _ _ _ _ (hword 36 (by omega)),
    load8_store32_of_ne _ _ _ _ (hword 32 (by omega)), load8_memset_of_ne _ _ h]

/-- Memory when `signal` looks for the handler: the return code and the stack pointer of the process
are saved below its stack. -/
def savedContext (c : Core) (proc : PcbPtr) : Memory :=
  let sp := (c.pcb proc).esp
  store32 (store32 c.mem (subWord sp 4) (toWord (c.pcb proc).ret)) (subWord (subWord sp 4) 4) sp

theorem setupContextFrame_eip (m : Memory) (cf func : ℕ) :
    load32 (setupContextFrame m cf func) (cf + 32) = func % 4294967296 := by
  have hskip : ∀ (m : Memory) (d w : ℕ), (d + 4 ≤ 32 ∨ 36 ≤ d) → d ≤ 40 →
      load32 (store32 m (cf + d) w) (cf + 32) = load32 m (cf + 32) := by
    intro m d w hd hd'
    apply load32_store32_of_disjoint
    intro i hi j hj
    omega
  unfold setupContextFrame
  rw [hskip _ 8 _ (by omega) (by omega), hskip _ 12 _ (by omega) (by omega),
    hskip _ 40 _ (by omega) (by omega), hskip _ 36 _ (by omega) (by omega), load32_store32_same]

/-- The frame of `signal`, upwards from the stack pointer it leaves: a context that starts in
`sigtramp`, its two arguments (the handler and the context to return to), and the return code. -/
theorem signalFrame_words (c : Core) (proc : PcbPtr) (sigNo x : ℕ) :
    let sp := signalContext (c.pcb proc).esp
    let m := store32 (signalFrame c proc sigNo) (sp + 28) x
    load32 m (sp + 32) = c.image.sigtramp % 4294967296 ∧
      load32 m (sp + 48) = load32 (savedContext c proc) ((c.pcb proc).signalTable + 4 * sigNo) ∧
      load32 m (sp + 52) = (c.pcb proc).esp % 4294967296 ∧
      load32 m (sp + 56) = toWord (c.pcb proc).ret := by
  intro sp m
  obtain ⟨a, ha⟩ : ∃ a, a = (c.pcb proc).esp := ⟨_, rfl⟩
  have hsp : sp = signalContext a := by rw [ha]
  have h4 : subWord a 4 = (sp + 56) % 4294967296 := by
    rw [hsp]
    unfold signalContext subWord sizeofContextFrame
    omega
  have h8 : subWord (subWord a 4) 4 = (sp + 52) % 4294967296 := by
    rw [hsp]
    unfold signalContext subWord sizeofContextFrame
    omega
  have h12 : subWord (subWord (subWord a 4) 4) 4 = (sp + 48) % 4294967296 := by
    rw [hsp]
    unfold signalContext subWord sizeofContextFrame
    omega
  have h16 : subWord (subWord (subWord (subWord a 4) 4) 4) 4 = (sp + 44) % 4294967296 := by
    rw [hsp]
    unfold signalContext subWord sizeofContextFrame
    omega
  have hskip : ∀ (m : Memory) (d w e : ℕ), (e + 4 ≤ d ∨ d + 4 ≤ e) → d ≤ 60 → e ≤ 60 →
      load32 (store32 m (sp + d) w) (sp + e) = load32 m (sp + e) := by
    intro m d w e hout hd he
    apply load32_store32_of_disjoint
    intro i hi j hj
    omega
  have hframe : ∀ (m : Memory) (func e : ℕ), 44 ≤ e → e ≤ 60 →
      load32 (setupContextFrame m sp func) (sp + e) = load32 m (sp + e) := by
    intro m func e he he'
    apply load32_congr
    intro i hi
    apply load8_setupContextFrame_of_ne
    intro j hj
    have hj44 : j < 44 := hj
    omega
  have hsaved : savedContext c proc =
      store32 (store32 c.mem (sp + 56) (toWord (c.pcb proc).ret)) (sp + 52) a := by
    unfold savedContext
    dsimp only
    rw [← ha, h8, h4, store32_mod, store32_mod]
  obtain ⟨w, hw⟩ : ∃ w, w = load32 (savedContext c proc) ((c.pcb proc).signalTable + 4 * sigNo) :=
    ⟨_, rfl⟩
  have hwlt : w < 4294967296 := by
    rw [hw]
    exact load32_lt _ _
  have hm : m = store32 (setupContextFrame (store32 (store32 (store32 (store32 c.mem (sp + 56)
      (toWord (c.pcb proc).ret)) (sp + 52) a) (sp + 48) w) (sp + 44) 0xCAFECAFE) sp
        c.image.sigtramp) (sp + 28) x := by
    show store32 (signalFrame c proc sigNo) (sp + 28) x = _
    rw [hw, hsaved]
    unfold signalFrame
    dsimp only
    rw [← ha, h16, h12, h8, h4, ← hsp]
    simp only [store32_mod]
  rw [hm]
  refine ⟨?_, ?_, ?_, ?_⟩
  · rw [hskip _ 28 _ 32 (by omega) (by omega) (by omega), setupContextFrame_eip]
  · rw [hskip _ 28 _ 48 (by omega) (by omega) (by omega), hframe _ _ 48 (by omega) (by omega),
      hskip _ 44 _ 48 (by omega) (by omega) (by omega), load32_store32_same, Nat.mod_eq_of_lt hwlt,
      hw]
  · rw [hskip _ 28 _ 52 (by omega) (by omega) (by omega), hframe _ _ 52 (by omega) (by omega),
      hskip _ 44 _ 52 (by omega) (by omega) (by omega),
      hskip _ 48 _ 52 (by omega) (by omega) (by omega), load32_store32_same, ha]
  · rw [hskip _ 28 _ 56 (by omega) (by omega) (by omega), hframe _ _ 56 (by omega) (by omega),
      hskip _ 44 _ 56 (by omega) (by omega) (by omega),
      hskip _ 48 _ 56 (by omega) (by omega) (by omega),
      hskip _ 52 _ 56 (by omega) (by omega) (by omega), load32_store32_same,
      Nat.mod_eq_of_lt (toWord_lt _)]

/-! ## Entering user mode -/

/-- The process that `pid_to_proc` finds under the pid of `proc` is `proc`. -/
def Core.FindsSelf (c : Core) (proc : PcbPtr) : Prop :=
  ∀ q, c.pidToProc (c.pcb proc).pid = some q → q = proc

theorem pidToProc_congr {c c' : Core} (h : ∀ p, (c'.pcb p).view = (c.pcb p).view) (pid : ℤ) :
    c'.pidToProc pid = c.pidToProc pid := by
  have hpid : ∀ p, (c'.pcb p).pid = (c.pcb p).pid := fun p => congrArg ProcView.pid (h p)
  have hstate : ∀ p, (c'.pcb p).currState = (c.pcb p).currState := fun p =>
    congrArg ProcView.state (h p)
  unfold Core.pidToProc
  simp only [hpid, hstate]

/-- Delivering a signal touches one process: the one that `pid_to_proc` finds, if any. -/
theorem callHighestPrioritySignal_found {c c' : Core} {proc : PcbPtr}
    (h : c.callHighestPrioritySignal proc = some c') :
    ∃ c1 q, SameBut c c1 proc ∧ SameBut c1 c' q ∧
      (q = proc ∨ c.pidToProc (c.pcb proc).pid = some q) := by
  unfold Core.callHighestPrioritySignal at h
  obtain ⟨-, -, h⟩ := Option.bind_eq_some_iff.mp h
  obtain rfl := Option.some.inj h
  generalize highestSignal (c.pcb proc).signalsFired (signalTableSize - 1) = n
  have hc : SameBut c (c.setPcb proc fun x =>
      { x with signalsFired := flagBitClear x.signalsFired n }) proc := by
    apply sameBut_setPcb <;> simp only [Pcb.view]
  generalize c.setPcb proc (fun x => { x with signalsFired := flagBitClear x.signalsFired n }) = c1
    at hc
  have hpid : (c1.pcb proc).pid = (c.pcb proc).pid := congrArg ProcView.pid (hc.view proc)
  unfold Core.signal
  rw [hpid, pidToProc_congr hc.view]
  cases hq : c.pidToProc (c.pcb proc).pid with
  | none => exact ⟨c1, proc, hc, SameBut.refl c1 proc, .inl rfl⟩
  | some q =>
    refine ⟨c1, q, hc, ?_, .inr rfl⟩
    dsimp only
    split_ifs
    · exact SameBut.refl c1 q
    · exact pushSignalFrame_same c1 q _

/-- Delivering a signal touches the process alone. -/
theorem callHighestPrioritySignal_same {c c' : Core} {proc : PcbPtr} (hself : c.FindsSelf proc)
    (h : c.callHighestPrioritySignal proc = some c') : SameBut c c' proc := by
  obtain ⟨c1, q, h1, h2, hq⟩ := callHighestPrioritySignal_found h
  obtain rfl : q = proc := hq.elim id (hself q)
  exact h1.trans h2

namespace KernelOf

variable {Q : Type} {s s' : KernelOf Q}

theorem enterUser_same {proc : PcbPtr} (hself : s.FindsSelf proc)
    (h : s.enterUser proc = some s') :
    SameBut s.toCore s'.toCore proc ∧ s'.queues = s.queues := by
  unfold enterUser at h
  split_ifs at h with hfire
  · obtain ⟨c, hc, h⟩ := Option.bind_eq_some_iff.mp h
    obtain rfl := Option.some.inj h
    exact ⟨(callHighestPrioritySignal_same hself hc).trans (sameBut_setMem c proc _), rfl⟩
  · obtain rfl := Option.some.inj h
    exact ⟨sameBut_setMem s.toCore proc _, rfl⟩

theorem enterUser_fields {proc : PcbPtr} (h : s.enterUser proc = some s') :
    SameFields s.toCore s'.toCore ∧ s'.queues = s.queues := by
  unfold enterUser at h
  split_ifs at h with hfire
  · obtain ⟨c, hc, h⟩ := Option.bind_eq_some_iff.mp h
    obtain rfl := Option.some.inj h
    obtain ⟨c1, q, h1, h2, -⟩ := callHighestPrioritySignal_found hc
    have h3 := (sameBut_setMem c proc (store32 c.mem ((c.pcb proc).esp + 28)
      (toWord (c.pcb proc).ret))).toSameFields
    exact ⟨(h1.toSameFields.trans h2.toSameFields).trans h3, rfl⟩
  · obtain rfl := Option.some.inj h
    exact ⟨(sameBut_setMem s.toCore proc _).toSameFields, rfl⟩

end KernelOf

end Xeros.Model
