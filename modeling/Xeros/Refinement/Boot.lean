import Xeros.Abstract.Steps
import Xeros.Refinement.Turns

/-!
# The state that booting leaves

`pcb_table_init` fills the stopped queue slot by slot (`Filled`), the idle process gets its stack,
the first process is created, and the first process is dispatched: the result is `Ready`.
-/

set_option autoImplicit false

namespace Xeros.Model.KernelOf

open Xeros.Foundations Xeros.Abstract Xeros.Interface

variable {Q : Type} [ProcLists Q] [LawfulProcLists Q] {s s' : KernelOf Q}

/-- The control block of slot `i` once `pcb_table_init` has been there. -/
def tablePcb (i : Fin pcbTableSize) : Pcb :=
  { Pcb.zero with pid := i.val + 1, currState := .stopped }

/-- The slots `l` have been filled and queued, in this order; the others are zero. -/
structure Filled (l : List (Fin pcbTableSize)) (s : KernelOf Q) : Prop where
  wf : LawfulProcLists.WellFormed s.queues
  stopped : LawfulProcLists.lists s.queues (.queue (.proc .stopped)) = l.map PcbPtr.table
  other : ∀ i, i ≠ .queue (.proc .stopped) → LawfulProcLists.lists s.queues i = []
  filled : ∀ i ∈ l, s.pcb (.table i) = tablePcb i
  zero : ∀ i ∉ l, s.pcb (.table i) = Pcb.zero
  idle : s.pcb .idle = Pcb.zero

/-- One round of the loop fills and queues one slot. -/
theorem tableInitRound_spec {l : List (Fin pcbTableSize)} (h : Filled l s) {i : Fin pcbTableSize}
    (hi : i ∉ l) :
    ∃ s', tableInitRound s i = some s' ∧ Filled (l ++ [i]) s' ∧ s'.toHeap = s.toHeap ∧
      s'.kbd = s.kbd ∧ s'.gDeviceTable = s.gDeviceTable ∧ s'.transfers = s.transfers := by
  obtain ⟨u, hu⟩ : ∃ u, u = s.setPcb (.table i) fun x => { x with pid := i.val + 1 } := ⟨_, rfl⟩
  have hnot : ∀ j, PcbPtr.table i ∉ LawfulProcLists.lists u.queues j := by
    intro j hj
    rw [hu, setPcb_queues] at hj
    by_cases hjs : j = .queue (.proc .stopped)
    · rw [hjs, h.stopped, List.mem_map] at hj
      obtain ⟨a, ha, hai⟩ := hj
      obtain rfl := PcbPtr.table.inj hai
      exact hi ha
    · rw [h.other j hjs] at hj
      exact absurd hj List.not_mem_nil
  have hfit : StatesFit u := by
    intro st hst q hq
    rw [hu, setPcb_queues] at hq
    by_cases hsts : st = .stopped
    · rw [hsts, h.stopped, List.mem_map] at hq
      obtain ⟨a, ha, rfl⟩ := hq
      have hai : PcbPtr.table a ≠ .table i := fun hc => hi (PcbPtr.table.inj hc ▸ ha)
      rw [hu, setPcb_toCore, Core.setPcb_pcb_ne _ _ hai, h.filled a ha, hsts]
      rfl
    · rw [h.other _ (by simpa using hsts)] at hq
      exact absurd hq List.not_mem_nil
  have hself : u.pcb (.table i) = { Pcb.zero with pid := i.val + 1 } := by
    rw [hu, setPcb_toCore, Core.setPcb_pcb_self, h.zero i hi]
  have hpid : (u.pcb (.table i)).pid ≠ 0 := by
    rw [hself]
    show (i.val : ℤ) + 1 ≠ 0
    omega
  have hwf : LawfulProcLists.WellFormed u.queues := by
    rw [hu]
    exact h.wf
  obtain ⟨s', hs', hb⟩ := addPcbToQueue_spec hwf hnot hfit (by simp) hpid
    (.inr rfl : ProcState.stopped = .ready ∨ _) (by rw [hself]; simp [Pcb.zero])
  have hrest : s'.toHeap = s.toHeap ∧ s'.kbd = s.kbd ∧ s'.gDeviceTable = s.gDeviceTable ∧
      s'.transfers = s.transfers := by
    rw [hb.toHeap, hb.kbd, hb.gDeviceTable, hb.transfers, hu]
    exact ⟨rfl, rfl, rfl, rfl⟩
  refine ⟨s', ?_, ?_, hrest⟩
  · unfold tableInitRound
    rw [← hu]
    exact hs'
  have hlu : LawfulProcLists.lists u.queues = LawfulProcLists.lists s.queues := by rw [hu]; rfl
  have hlist : ∀ j, LawfulProcLists.lists s'.queues j = LawfulProcLists.lists s.queues j ++
      if j = .queue (.proc .stopped) then [.table i] else [] := by
    intro j
    rw [hb.lists, View.move_lists, view_lists, List.erase_of_not_mem (hnot j), hlu]
    by_cases hj : j = .queue (.proc .stopped)
    · subst hj
      simp [ProcView.place]
    · rw [if_neg hj, if_neg fun hc => hj (Option.some.inj hc.2).symm]
  have hother : ∀ q, q ≠ .table i → s'.pcb q = s.pcb q := by
    intro q hq
    rw [hb.pcb, View.move_proc_ne _ _ hq, view_proc, Pcb.withView_view, hu, setPcb_toCore,
      Core.setPcb_pcb_ne _ _ hq]
  refine ⟨hb.wf, ?_, fun j hj => ?_, fun a ha => ?_, fun a ha => ?_, ?_⟩
  · rw [hlist, if_pos rfl, h.stopped, List.map_append]
    rfl
  · rw [hlist, if_neg hj, h.other j hj]
    rfl
  · rcases List.mem_append.mp ha with ha | ha
    · have hai : PcbPtr.table a ≠ .table i := fun hc => hi (PcbPtr.table.inj hc ▸ ha)
      rw [hother _ hai, h.filled a ha]
    · obtain rfl := List.mem_singleton.mp ha
      rw [hb.pcb, View.move_proc_self, view_proc, hself]
      rfl
  · have hal : a ∉ l := fun hc => ha (List.mem_append_left _ hc)
    have hai : PcbPtr.table a ≠ .table i := fun hc =>
      ha (List.mem_append_right _ (List.mem_singleton.mpr (PcbPtr.table.inj hc)))
    rw [hother _ hai, h.zero a hal]
  · rw [hother _ (by simp), h.idle]

/-- The loop fills the slots in order. -/
theorem tableInitLoop_spec (rest : List (Fin pcbTableSize)) {l : List (Fin pcbTableSize)}
    (h : Filled l s) (hnd : (l ++ rest).Nodup) :
    ∃ s', rest.foldlM tableInitRound s = some s' ∧ Filled (l ++ rest) s' ∧
      s'.toHeap = s.toHeap ∧ s'.kbd = s.kbd ∧ s'.gDeviceTable = s.gDeviceTable ∧
      s'.transfers = s.transfers := by
  induction rest generalizing s l with
  | nil => exact ⟨s, rfl, by rw [List.append_nil]; exact h, rfl, rfl, rfl, rfl⟩
  | cons i rest ih =>
    have hi : i ∉ l := fun hc => (List.nodup_append.mp hnd).2.2 i hc i (by simp) rfl
    obtain ⟨s1, hs1, h1, hheap, hkbd, htable, htr⟩ := tableInitRound_spec h hi
    have happ : l ++ i :: rest = l ++ [i] ++ rest := by simp
    rw [happ] at hnd ⊢
    obtain ⟨s2, hs2, h2, hheap2, hkbd2, htable2, htr2⟩ := ih h1 hnd
    refine ⟨s2, ?_, h2, hheap2.trans hheap, hkbd2.trans hkbd, htable2.trans htable,
      htr2.trans htr⟩
    rw [List.foldlM_cons, hs1]
    exact hs2

/-- The control block of the idle process, with its stack at `b`. -/
def idlePcb (b : ℕ) : Pcb :=
  { Pcb.zero with
    currState := .blocked
    memoryRegion := b
    esp := subWord (b + idleProcStackSize) sizeofContextFrame }

omit [LawfulProcLists Q] in
theorem initIdleProc_eq (hs : s.initIdleProc = some s') :
    ∃ b heap m, s.toHeap.kmalloc idleProcStackSize = some (b, heap) ∧ b ≠ 0 ∧
      m = setupContextFrame heap.mem (idlePcb b).esp heap.image.idleproc ∧
      s' = ((s.setQueues (ProcLists.clearLinks s.queues .idle)).setHeap
        { heap with mem := m }).setPcb .idle fun _ => idlePcb b := by
  unfold initIdleProc at hs
  dsimp only at hs
  obtain ⟨⟨b, s1⟩, hs1, hs⟩ := Option.bind_eq_some_iff.mp hs
  obtain ⟨heap, hk, hs1⟩ := kmalloc_eq hs1
  dsimp only at hk hs1 hs
  obtain ⟨_, hb, hs⟩ := Option.bind_eq_some_iff.mp hs
  obtain rfl := Option.some.inj hs
  refine ⟨b, heap, _, hk, cAssert_eq_some.mp hb, rfl, ?_⟩
  rw [hs1]
  unfold setPcb setMem setHeap setQueues Core.setPcb Core.setMem Core.setHeap
  simp only [Function.update_self, Function.update_idem]
  rfl

/-- What `pcb_table_init` leaves: the stopped queue is full, and the idle process has a stack. -/
structure TableReady (b : ℕ) (s : KernelOf Q) : Prop where
  wf : LawfulProcLists.WellFormed s.queues
  stopped : LawfulProcLists.lists s.queues (.queue (.proc .stopped)) =
    (List.finRange pcbTableSize).map PcbPtr.table
  other : ∀ i, i ≠ .queue (.proc .stopped) → LawfulProcLists.lists s.queues i = []
  table : ∀ i, s.pcb (.table i) = tablePcb i
  idle : s.pcb .idle = idlePcb b

theorem pcbTableInit_spec (hwf : LawfulProcLists.WellFormed s.queues)
    (hl : ∀ i, LawfulProcLists.lists s.queues i = []) (hpcb : ∀ p, s.pcb p = Pcb.zero)
    (hs : s.pcbTableInit = some s') :
    ∃ b heap m, s.toHeap.kmalloc idleProcStackSize = some (b, heap) ∧ b ≠ 0 ∧
      m = setupContextFrame heap.mem (idlePcb b).esp heap.image.idleproc ∧
      TableReady b s' ∧ s'.toHeap = { heap with mem := m } ∧ s'.kbd = s.kbd ∧
      s'.gDeviceTable = s.gDeviceTable ∧ s'.transfers = s.transfers := by
  obtain ⟨hwf0, hl0⟩ := LawfulProcLists.initProcQueues hwf fun st => hl _
  have h0 : Filled [] (s.setQueues (ProcLists.initProcQueues s.queues)) := by
    refine ⟨hwf0, ?_, fun i _ => ?_, fun i hi => absurd hi List.not_mem_nil, fun i _ => hpcb _,
      hpcb _⟩
    · rw [setQueues_queues, hl0, hl]
      rfl
    · rw [setQueues_queues, hl0, hl]
  unfold pcbTableInit at hs
  dsimp only at hs
  obtain ⟨s1, hs1, hs⟩ := Option.bind_eq_some_iff.mp hs
  obtain ⟨s1', hs1', h1, hheap, hkbd, htable, htr⟩ := tableInitLoop_spec (List.finRange pcbTableSize)
    h0 (by rw [List.nil_append]; exact List.nodup_finRange _)
  rw [hs1] at hs1'
  obtain rfl := Option.some.inj hs1'
  rw [List.nil_append] at h1
  obtain ⟨b, heap, m, hk, hb, hm, rfl⟩ := initIdleProc_eq hs
  rw [hheap] at hk
  have hidle : ∀ i, PcbPtr.idle ∉ LawfulProcLists.lists s1.queues i := by
    intro i hi
    by_cases his : i = .queue (.proc .stopped)
    · rw [his, h1.stopped] at hi
      simp at hi
    · rw [h1.other i his] at hi
      exact absurd hi List.not_mem_nil
  obtain ⟨hwf2, hl2⟩ := LawfulProcLists.clearLinks h1.wf hidle fun q => h1.other _ (by simp)
  refine ⟨b, heap, m, hk, hb, hm, ⟨hwf2, ?_, fun i hi => ?_, fun i => ?_, ?_⟩, rfl, hkbd, htable,
    htr⟩
  · rw [setPcb_queues, setHeap_queues, setQueues_queues, hl2, h1.stopped]
  · rw [setPcb_queues, setHeap_queues, setQueues_queues, hl2, h1.other i hi]
  · rw [setPcb_toCore, Core.setPcb_pcb_ne _ _ (by simp)]
    exact h1.filled i (List.mem_finRange i)
  · rw [setPcb_toCore, Core.setPcb_pcb_self]

theorem TableReady.good {b : ℕ} (h : TableReady b s) : Good none s := by
  have htable : ∀ i, s.view.proc (.table i) = (tablePcb i).view := fun i => by
    rw [view_proc, h.table]
  have hidle : s.view.proc .idle = (idlePcb b).view := by rw [view_proc, h.idle]
  refine ⟨h.wf, ⟨fun i p => ?_, fun i => ?_, fun p => ?_, fun p hp => ?_, fun p o hp hb _ => ?_,
    fun i => ?_, ?_, ?_⟩⟩
  · rw [view_lists]
    cases p with
    | idle =>
      by_cases hi : i = .queue (.proc .stopped)
      · rw [hi, h.stopped]
        simp
      · rw [h.other i hi]
        simp
    | table a =>
      have hplace : (s.view.proc (.table a)).place = some (.queue (.proc .stopped)) := by
        rw [htable]
        exact ProcView.place_stopped rfl
      rw [hplace]
      by_cases hi : i = .queue (.proc .stopped)
      · rw [hi, h.stopped]
        simp
      · rw [h.other i hi]
        simp [Ne.symm hi]
  · rw [view_lists]
    by_cases hi : i = .queue (.proc .stopped)
    · rw [hi, h.stopped]
      exact (List.nodup_finRange _).map fun a c hac => PcbPtr.table.inj hac
    · rw [h.other i hi]
      exact List.nodup_nil
  · cases p with
    | idle =>
      rw [hidle]
      simp [Pcb.view, idlePcb]
    | table a =>
      rw [htable]
      simp [Pcb.view, tablePcb]
  · cases p with
    | idle => exact absurd rfl hp
    | table a =>
      rw [htable]
      constructor <;> simp [Pcb.view, tablePcb]
  · cases p with
    | idle => exact absurd rfl hp
    | table a =>
      rw [htable] at hb
      simp [Pcb.view, tablePcb] at hb
  · rw [htable]
    have hi := i.isLt
    refine ⟨?_, ?_⟩
    · show (1 : ℤ) ≤ (i.val : ℤ) + 1
      omega
    · unfold slotOfPid
      apply Fin.ext
      show (((i.val : ℤ) + 1 - 1) % 32).toNat = i.val
      have hlt : i.val < 32 := hi
      omega
  · rw [hidle]
    rfl
  · rw [hidle]
    simp [Pcb.view, idlePcb]

omit [ProcLists Q] [LawfulProcLists Q] in
/-- Creating the devices leaves processes and queues alone. -/
theorem kbdDevswCreate_same {entry : DeviceId} {flag : ℕ} (hs : s.kbdDevswCreate entry flag = some s') :
    s'.pcb = s.pcb ∧ s'.queues = s.queues ∧ s'.kbd = s.kbd ∧ s'.transfers = s.transfers := by
  unfold kbdDevswCreate at hs
  obtain ⟨⟨b, s1⟩, hs1, hs⟩ := Option.bind_eq_some_iff.mp hs
  obtain ⟨heap, -, hs1⟩ := kmalloc_eq hs1
  dsimp only at hs1 hs
  obtain ⟨_, -, hs⟩ := Option.bind_eq_some_iff.mp hs
  obtain rfl := Option.some.inj hs
  rw [hs1]
  exact ⟨rfl, rfl, rfl, rfl⟩

omit [ProcLists Q] [LawfulProcLists Q] in
theorem diInitDevtable_same (hs : s.diInitDevtable = some s') :
    s'.pcb = s.pcb ∧ s'.queues = s.queues ∧ s'.kbd = s.kbd.kbdInit.kbdInit ∧
      s'.transfers = s.transfers := by
  unfold diInitDevtable at hs
  obtain ⟨s1, hs1, hs⟩ := Option.bind_eq_some_iff.mp hs
  obtain ⟨s2, hs2, hs⟩ := Option.bind_eq_some_iff.mp hs
  obtain rfl := Option.some.inj hs
  obtain ⟨hp1, hq1, hk1, ht1⟩ := kbdDevswCreate_same hs1
  obtain ⟨hp2, hq2, hk2, ht2⟩ := kbdDevswCreate_same hs2
  refine ⟨hp2.trans hp1, hq2.trans hq1, ?_, ht2.trans ht1⟩
  show s2.kbd.kbdInit.kbdInit = _
  rw [hk2, hk1]

/-- The stages of `initproc`, up to the first turn of the dispatcher. -/
theorem boot_stages {image : Image} {mem : Memory} {root : ℕ}
    (hs : (boot image mem root : Option (KernelOf Q)) = some s) :
    ∃ (s1 : KernelOf Q) (b : ℕ) (r : ℤ × KernelOf Q), TableReady b s1 ∧
      s1.kbd = Keyboard.zero.kbdInit.kbdInit ∧ s1.transfers = [] ∧
      s1.create root defaultStackSize = some r ∧ r.2.reschedule = some s := by
  unfold boot at hs
  dsimp only at hs
  obtain ⟨heap, -, hs⟩ := Option.bind_eq_some_iff.mp hs
  obtain ⟨u1, hu1, hs⟩ := Option.bind_eq_some_iff.mp hs
  obtain ⟨u2, hu2, hs⟩ := Option.bind_eq_some_iff.mp hs
  obtain ⟨r, hr, hs⟩ := Option.bind_eq_some_iff.mp hs
  obtain ⟨hpcb, hq, hkbd, htr⟩ := diInitDevtable_same hu1
  obtain ⟨hwf, hl⟩ := LawfulProcLists.empty (Q := Q)
  obtain ⟨b, heap2, m, -, -, -, htable, -, hkbd2, -, htr2⟩ := pcbTableInit_spec
    (by rw [hq]; exact hwf) (by rw [hq]; exact hl) (fun p => by rw [hpcb]; rfl) hu2
  exact ⟨u2, b, r, htable, hkbd2.trans hkbd, htr2.trans htr, hr, hs⟩

/-- Before the first process is dispatched nobody runs, sleeps or waits for another process. -/
structure AtRest (s : KernelOf Q) : Prop where
  good : Good none s
  sleepers : s.view.sleepers = []
  closed : ∀ p fd, (s.pcb p).fdTable fd = none
  free : ∀ p, (s.pcb p).currState = .blocked → (s.pcb p).blockingProc = none
  transfers : s.transfers = []

theorem TableReady.atRest {b : ℕ} (h : TableReady b s) (htr : s.transfers = []) : AtRest s := by
  refine ⟨h.good, h.other _ (by simp), fun p fd => ?_, fun p _ => ?_, htr⟩
  · cases p with
    | idle =>
      rw [h.idle]
      rfl
    | table i =>
      rw [h.table]
      rfl
  · cases p with
    | idle =>
      rw [h.idle]
      rfl
    | table i =>
      rw [h.table]
      rfl

/-- A slot that is filled, or emptied again, with nobody blocked in it. -/
theorem AtRest.move {s0 : KernelOf Q} {p : PcbPtr} (h : AtRest s) {x : ProcView} (hx : x.state ≠ .blocked)
    (hb : Becomes s0 (s.view.move p x) s') (hinv : Inv none (s.view.move p x))
    (hfd : ∀ q fd, (s0.pcb q).fdTable fd = none) :
    AtRest s' := by
  refine ⟨hb.good hinv, ?_, fun q fd => ?_, fun q hq => ?_, ?_⟩
  · have hsl : s.view.lists .sleeping = [] := h.sleepers
    rw [hb.view, View.sleepers, View.move_lists, hsl, if_neg]
    · rfl
    · rintro ⟨-, hp⟩
      exact hx (ProcView.place_eq_sleeping_iff.mp hp).1
  · rw [hb.pcb]
    exact hfd q fd
  · rw [hb.pcb] at hq ⊢
    by_cases hqp : q = p
    · rw [hqp, View.move_proc_self] at hq
      exact absurd hq hx
    · rw [View.move_proc_ne _ _ hqp] at hq ⊢
      exact h.free q hq
  · rw [hb.transfers]
    exact h.transfers

/-- Whatever `create` does, it leaves the kernel at rest. -/
theorem AtRest.create (h : AtRest s) {func : ℕ} {stack r : ℤ}
    (hs : s.create func stack = some (r, s')) : AtRest s' := by
  have hg := h.good
  have hfd : ∀ {heap : Heap} {q : PcbPtr} {x : Pcb}, (x.fdTable = fun _ => none) →
      ∀ a fd, ((s.withSlot heap q x).pcb a).fdTable fd = none := by
    intro heap q x hx a fd
    by_cases ha : a = q
    · rw [ha, withSlot_pcb_self]
      exact congrFun hx fd
    · rw [withSlot_pcb_ne _ _ _ ha]
      exact h.closed a fd
  cases create_cases hg hs with
  | failed _ heap _ => exact ⟨hg.setHeap heap, h.sleepers, h.closed, h.free, h.transfers⟩
  | recycled q rest heap x _ hl hb hx =>
    have hqm : q ∈ s.view.lists (.queue (.proc .stopped)) := by simp [hl]
    have hqi : q ≠ .idle := ((hg.inv.mem_iff _ _).mp hqm).1
    refine h.move ?_ hb (hg.inv.recycle hqi (state_of_mem hg.inv (.inr rfl) hqm)) (hfd hx)
    simp
  | created q rest heap x _ hl hpid hb hx =>
    have hqm : q ∈ s.view.lists (.queue (.proc .stopped)) := by simp [hl]
    have hqi : q ≠ .idle := ((hg.inv.mem_iff _ _).mp hqm).1
    refine h.move ?_ hb (hg.inv.spawn hqi (state_of_mem hg.inv (.inr rfl) hqm) hpid
      (slotOfPid_nextPid (hg.inv.table_of_pid hqi).1)) (hfd hx)
    simp

/-- The first process is created, or not, and the first process is dispatched. -/
theorem boot_atRest {image : Image} {mem : Memory} {root : ℕ}
    (hs : (boot image mem root : Option (KernelOf Q)) = some s) :
    ∃ s1, AtRest s1 ∧ Becomes s1 s1.view.dispatch s := by
  obtain ⟨s1, b, r, htable, -, htr, hr, hs⟩ := boot_stages hs
  have h2 := (htable.atRest htr).create hr
  obtain ⟨s3, hs3, hb3⟩ := (Becomes.refl h2.good.wf).then_reschedule h2.good.inv
  rw [hs] at hs3
  obtain rfl := Option.some.inj hs3
  exact ⟨r.2, h2, hb3⟩

theorem boot_ready {image : Image} {mem : Memory} {root : ℕ}
    (hs : (boot image mem root : Option (KernelOf Q)) = some s) : Ready s := by
  obtain ⟨s1, h, hb⟩ := boot_atRest hs
  have hd : Delta s1.view := by
    refine ⟨fun q hq => ?_, ?_⟩
    · rw [h.sleepers] at hq
      exact absurd hq List.not_mem_nil
    · rw [h.sleepers]
      show (0 : ℤ) ≤ maxTicks
      decide
  have hh : HeadPos s1.view := by
    intro q hq
    rw [h.sleepers] at hq
    simp at hq
  exact ⟨hb.wf, by rw [hb.view]; exact sound_dispatch h.good.inv hd hh, fun p fd => by
    rw [hb.pcb]
    exact h.closed p fd⟩

/-- After booting nobody waits for another process. -/
theorem boot_free {image : Image} {mem : Memory} {root : ℕ}
    (hs : (boot image mem root : Option (KernelOf Q)) = some s)
    {p : PcbPtr} (hp : (s.pcb p).currState = .blocked) : (s.pcb p).blockingProc = none := by
  obtain ⟨s1, h, hb⟩ := boot_atRest hs
  rw [hb.pcb] at hp ⊢
  rcases dispatch_proc h.good.inv p with heq | ⟨-, heq⟩
  · rw [heq] at hp ⊢
    exact h.free p hp
  · rw [heq] at hp
    exact absurd hp (by simp [Pcb.withView])

end Xeros.Model.KernelOf
