import Mathlib.Algebra.BigOperators.Group.Finset.Basic
import Xeros.Refinement.Upkeep

/-!
# Descriptors are accounted for

`Accounts` ties the driver's reference count to the descriptors that processes hold, and every
registered task to a descriptor of its process.  `Tidy` adds what it takes to keep this over whole
runs: stopped processes hold none.
-/

set_option autoImplicit false

namespace Xeros.Model

open Xeros.Foundations Xeros.Abstract Xeros.Interface

/-- The number of descriptors that a process has open. -/
def Pcb.openFds (x : Pcb) : ℕ := (Finset.univ.filter fun fd => x.fdTable fd ≠ none).card

/-- The number of descriptors that the processes of the table have open. -/
def Core.openFds (c : Core) : ℕ := ∑ i : Fin pcbTableSize, (c.pcb (.table i)).openFds

theorem Pcb.openFds_eq_zero {x : Pcb} : x.openFds = 0 ↔ ∀ fd, x.fdTable fd = none := by
  unfold openFds
  rw [Finset.card_eq_zero, Finset.filter_eq_empty_iff]
  simp

theorem Pcb.openFds_le (x : Pcb) : x.openFds ≤ 4 := by
  unfold openFds
  exact (Finset.card_le_univ _).trans (by simp)

/-- A free descriptor is taken. -/
theorem Pcb.openFds_set {x y : Pcb} {fd : Fin pcbNumFds} {e : DeviceId} (h : x.fdTable fd = none)
    (hy : y.fdTable = Function.update x.fdTable fd (some e)) : y.openFds = x.openFds + 1 := by
  unfold openFds
  have hset : (Finset.univ.filter fun k => y.fdTable k ≠ none) =
      insert fd (Finset.univ.filter fun k => x.fdTable k ≠ none) := by
    ext k
    rw [hy]
    by_cases hk : k = fd <;> simp [hk]
  rw [hset, Finset.card_insert_of_notMem (by simp [h])]

/-- A descriptor is given back. -/
theorem Pcb.openFds_clear {x y : Pcb} {fd : Fin pcbNumFds} (h : x.fdTable fd ≠ none)
    (hy : y.fdTable = Function.update x.fdTable fd none) : y.openFds + 1 = x.openFds := by
  unfold openFds
  have hset : (Finset.univ.filter fun k => x.fdTable k ≠ none) =
      insert fd (Finset.univ.filter fun k => y.fdTable k ≠ none) := by
    ext k
    rw [hy]
    by_cases hk : k = fd <;> simp [hk, h]
  rw [hset, Finset.card_insert_of_notMem (by simp [hy])]

theorem Core.openFds_congr {c c' : Core}
    (h : ∀ i, (c'.pcb (.table i)).fdTable = (c.pcb (.table i)).fdTable) : c'.openFds = c.openFds := by
  unfold openFds
  refine Finset.sum_congr rfl fun i _ => ?_
  unfold Pcb.openFds
  rw [h i]

/-- Only the descriptors of one process change. -/
theorem Core.openFds_change {c d : Core} {j : Fin pcbTableSize}
    (h : ∀ i, i ≠ j → (d.pcb (.table i)).fdTable = (c.pcb (.table i)).fdTable) :
    d.openFds + (c.pcb (.table j)).openFds = c.openFds + (d.pcb (.table j)).openFds := by
  unfold openFds
  have hrest : ∑ i ∈ Finset.univ.erase j, (d.pcb (.table i)).openFds =
      ∑ i ∈ Finset.univ.erase j, (c.pcb (.table i)).openFds := by
    refine Finset.sum_congr rfl fun i hi => ?_
    unfold Pcb.openFds
    rw [h i (Finset.ne_of_mem_erase hi)]
  rw [← Finset.add_sum_erase _ _ (Finset.mem_univ j), hrest,
    ← Finset.add_sum_erase _ (fun i => (c.pcb (.table i)).openFds) (Finset.mem_univ j)]
  omega

theorem Core.openFds_eq_zero {c : Core} :
    c.openFds = 0 ↔ ∀ i fd, (c.pcb (.table i)).fdTable fd = none := by
  unfold openFds
  rw [Finset.sum_eq_zero_iff]
  simp only [Finset.mem_univ, true_implies, Pcb.openFds_eq_zero]

theorem Core.openFds_le (c : Core) : c.openFds ≤ 128 := by
  unfold openFds
  refine (Finset.sum_le_card_nsmul _ _ 4 fun i _ => (c.pcb (.table i)).openFds_le).trans ?_
  rw [Finset.card_fin]
  decide

/-- Every task belongs to a slot of the table. -/
theorem taskOf_surjective : Function.Surjective taskOf :=
  Finite.injective_iff_surjective.mp taskOf_injective

namespace KernelOf

variable {Q : Type} {s s' s'' : KernelOf Q} {p : PcbPtr}

/-- The reference count is the number of open descriptors, and who has a registered task has the
device open. -/
structure Accounts (s : KernelOf Q) : Prop where
  idle : ∀ fd, (s.pcb .idle).fdTable fd = none
  count : s.kbd.gKbdRefcount = s.openFds
  waiting : ∀ i, (s.kbd.gKbdTaskList (taskOf i)).waitingOnRead = true →
    ∃ fd, (s.pcb (.table i)).fdTable fd ≠ none

/-- With no descriptor open, no task is registered. -/
theorem Accounts.quiet (h : Accounts s) (h0 : s.kbd.gKbdRefcount ≤ 0) (k : Fin kbdTaskListSize) :
    (s.kbd.gKbdTaskList k).waitingOnRead = false := by
  obtain ⟨i, rfl⟩ := taskOf_surjective k
  have hcount := h.count
  have hzero : s.openFds = 0 := by omega
  by_contra hw
  obtain ⟨fd, hfd⟩ := h.waiting i (by simpa using hw)
  exact hfd (Core.openFds_eq_zero.mp hzero i fd)

/-- Steps that leave descriptors and the count alone, and register nobody. -/
theorem Accounts.same (h : Accounts s) (hfd : ∀ p, (s'.pcb p).fdTable = (s.pcb p).fdTable)
    (hcount : s'.kbd.gKbdRefcount = s.kbd.gKbdRefcount)
    (hwait : ∀ k, (s'.kbd.gKbdTaskList k).waitingOnRead = true →
      (s.kbd.gKbdTaskList k).waitingOnRead = true) : Accounts s' := by
  refine ⟨fun fd => ?_, ?_, fun i hi => ?_⟩
  · rw [hfd]
    exact h.idle fd
  · rw [hcount, h.count, Core.openFds_congr fun i => hfd (.table i)]
  · rw [hfd]
    exact h.waiting i (hwait _ hi)

/-- A descriptor is closed, and the task of its process is given up. -/
theorem Accounts.closes {j : Fin pcbTableSize} {fd : Fin pcbNumFds} (h : Accounts s) (hs : Sane s)
    (h' : Closes (.table j) fd s s') : Accounts s' := by
  have hcount := h.count
  have hle := s.toCore.openFds_le
  have hopen := Core.openFds_change (c := s.toCore) (d := s'.toCore) (j := j) fun i hi => by
    rw [h'.pcb_ne (by simpa using hi)]
  have hclear := Pcb.openFds_clear (y := s'.pcb (.table j)) h'.wasOpen (by rw [h'.pcb_self])
  have hkbd := h'.kbd
  rw [kbdClose_eq h'.refcount, hs.taskIndex j] at hkbd
  refine ⟨fun fd' => ?_, ?_, fun i hi => ?_⟩
  · rw [h'.pcb_ne (by simp)]
    exact h.idle fd'
  · rw [hkbd]
    dsimp only
    rw [wrapInt_of_range (by omega) (by omega)]
    omega
  · rw [hkbd] at hi
    dsimp only at hi
    by_cases hij : i = j
    · rw [hij, Function.update_self] at hi
      exact absurd hi (by simp)
    · have hne : taskOf i ≠ taskOf j := fun he => hij (taskOf_injective he)
      rw [Function.update_of_ne hne] at hi
      rw [h'.pcb_ne (by simpa using hij)]
      exact h.waiting i hi

/-- The process has nothing open when there are no open descriptors. -/
theorem Accounts.none_open (h : Accounts s) (h0 : s.kbd.gKbdRefcount ≤ 0) (p : PcbPtr)
    (fd : Fin pcbNumFds) : (s.pcb p).fdTable fd = none := by
  have hcount := h.count
  cases p with
  | idle => exact h.idle fd
  | table i => exact Core.openFds_eq_zero.mp (by omega) i fd

theorem checkFd_val (x : Pcb) (fd : Fin pcbNumFds) :
    checkFd x fd.val = (x.fdTable fd).map fun e => (fd, e) := by
  have hlt : fd.val < 4 := fd.isLt
  unfold checkFd
  rw [dif_pos ⟨by omega, by omega⟩]
  rfl

/-- Closing all descriptors leaves none open. -/
theorem Accounts.closeFds (h : Accounts s) (hs : Sane s) (p : PcbPtr) :
    Accounts (s.closeFds p) ∧ Sane (s.closeFds p) ∧
      ∀ fd, ((s.closeFds p).pcb p).fdTable fd = none := by
  have hgen : ∀ (fds : List (Fin pcbNumFds)) (u : KernelOf Q), Accounts u → Sane u →
      Accounts (fds.foldl (fun u fd => (u.diClose p fd.val).2) u) ∧
      Sane (fds.foldl (fun u fd => (u.diClose p fd.val).2) u) ∧
      ∀ fd, fd ∈ fds ∨ (u.pcb p).fdTable fd = none →
        ((fds.foldl (fun u fd => (u.diClose p fd.val).2) u).pcb p).fdTable fd = none := by
    intro fds
    induction fds with
    | nil =>
      intro u hu hsu
      exact ⟨hu, hsu, fun fd hfd => hfd.resolve_left (by simp)⟩
    | cons fd fds ih =>
      intro u hu hsu
      rw [List.foldl_cons]
      rcases diClose_cases u p fd.val with ⟨heq, hwhy⟩ | ⟨i, e, hc, -, hcl⟩
      · -- there was nothing to close
        have hnone : (u.pcb p).fdTable fd = none := by
          rcases hwhy with hcheck | hcount
          · cases hfd : (u.pcb p).fdTable fd with
            | none => rfl
            | some e =>
              refine absurd ?_ (hcheck fd e)
              rw [checkFd_val, hfd]
              rfl
          · exact hu.none_open hcount p fd
        rw [heq]
        obtain ⟨h1, h2, h3⟩ := ih u hu hsu
        refine ⟨h1, h2, fun fd' hfd' => h3 fd' ?_⟩
        rcases hfd' with hmem | hn
        · rcases List.mem_cons.mp hmem with rfl | hmem
          · exact .inr hnone
          · exact .inl hmem
        · exact .inr hn
      · rw [checkFd_val] at hc
        obtain ⟨e', -, heq⟩ := Option.map_eq_some_iff.mp hc
        obtain rfl : fd = i := (Prod.mk.inj heq).1
        cases p with
        | idle => exact absurd (hu.idle fd) hcl.wasOpen
        | table j =>
          obtain ⟨h1, h2, h3⟩ := ih _ (hu.closes hsu hcl) (hsu.closes hcl)
          refine ⟨h1, h2, fun fd' hfd' => h3 fd' ?_⟩
          rw [hcl.pcb_self]
          dsimp only
          by_cases hf : fd' = fd
          · right
            rw [hf, Function.update_self]
          · rw [Function.update_of_ne hf]
            rcases hfd' with hmem | hn
            · exact .inl ((List.mem_cons.mp hmem).resolve_left hf)
            · exact .inr hn
  obtain ⟨h1, h2, h3⟩ := hgen (List.finRange pcbNumFds) s h hs
  exact ⟨h1, h2, fun fd => h3 fd (.inl (List.mem_finRange fd))⟩

/-- The kernel is orderly, descriptors are accounted for, and stopped processes hold none. -/
structure Tidy [ProcLists Q] (s : KernelOf Q) : Prop extends Accounts s where
  orderly : Orderly none s
  closed : ∀ p, (s.pcb p).currState = .stopped → ∀ fd, (s.pcb p).fdTable fd = none

/-- One more descriptor is opened. -/
theorem Accounts.opened {j : Fin pcbTableSize} {e : DeviceId} {fd : Fin pcbNumFds} {k : Keyboard}
    {flag : ℤ} (h : Accounts s) (hfd : (s.pcb (.table j)).fdTable fd = none)
    (hk : s.kbd.kbdOpen (s.pcb (.table j)).pid flag = some (0, k)) :
    Accounts ((s.setKbd k).setPcb (.table j) fun x =>
      { x with fdTable := Function.update x.fdTable fd (some e) }) := by
  have hcount := h.count
  have hle := s.toCore.openFds_le
  obtain ⟨u, hu⟩ : ∃ u, u = (s.setKbd k).setPcb (.table j) fun x =>
    { x with fdTable := Function.update x.fdTable fd (some e) } := ⟨_, rfl⟩
  rw [← hu]
  have hself : (u.pcb (.table j)).fdTable =
      Function.update (s.pcb (.table j)).fdTable fd (some e) := by
    rw [hu, setPcb_toCore, Core.setPcb_pcb_self]
    rfl
  have hother : ∀ p, p ≠ .table j → u.pcb p = s.pcb p := by
    intro p hp
    rw [hu, setPcb_toCore, Core.setPcb_pcb_ne _ _ hp]
    rfl
  have hkbd : u.kbd = k := by
    rw [hu]
    rfl
  have hchange := Core.openFds_change (c := s.toCore) (d := u.toCore) (j := j) fun i hi => by
    rw [hother _ (by simpa using hi)]
  have hset := Pcb.openFds_set hfd hself
  have hrefcount : k.gKbdRefcount = s.kbd.gKbdRefcount + 1 := by
    rcases kbdOpen_cases hk with ⟨hpos, -, heq⟩ | ⟨hzero, -, heq⟩
    · rw [heq]
      exact wrapInt_of_range (by omega) (by omega)
    · rw [heq]
      show (1 : ℤ) = s.kbd.gKbdRefcount + 1
      omega
  refine ⟨fun fd' => ?_, ?_, fun i hi => ?_⟩
  · rw [hother _ (by simp)]
    exact h.idle fd'
  · rw [hkbd, hrefcount]
    omega
  · rw [hkbd, (kbdOpen_tasks hk).1] at hi
    obtain ⟨fd', hfd'⟩ := h.waiting i hi
    by_cases hij : i = j
    · refine ⟨fd, ?_⟩
      rw [hij, hself, Function.update_self]
      simp
    · refine ⟨fd', ?_⟩
      rw [hother _ (by simpa using hij)]
      exact hfd'

theorem CharStep.accounts {c : UInt8} (h : CharStep s c s') (ha : Accounts s) : Accounts s' := by
  refine ha.same (fun p => (h.broadcast.sameData p).fdTable) ?_ fun k hk => ?_
  · cases h with
    | eof _ h =>
      rw [h.kbd]
      rfl
    | char _ h =>
      rw [h.kbd]
      rfl
  · rw [h.tasks, KbdTask.receive_waiting, Bool.and_eq_true] at hk
    exact hk.1

/-- Flushing the ring moves processes, and changes tasks and memory. -/
theorem Flushes.sameData (h : Flushes s s') (p : PcbPtr) : (s.pcb p).SameData (s'.pcb p) := by
  induction h with
  | refl => exact Pcb.SameData.refl _
  | tail _ hstep ih =>
    obtain ⟨-, -, u, hu, rfl⟩ := hstep
    exact ih.trans (hu.broadcast.sameData p)

theorem Flushes.accounts (h : Flushes s s') (ha : Accounts s) : Accounts s' := by
  induction h with
  | refl => exact ha
  | tail _ hstep ih =>
    obtain ⟨-, -, u, hu, rfl⟩ := hstep
    exact (hu.accounts ih).same (fun _ => rfl) rfl fun _ => id

/-- A read is registered by a process that has the device open. -/
theorem Accounts.startRead {i : Fin pcbTableSize} (h : Accounts s) (hs : Sane s) (buf : ℕ)
    (buflen : ℤ) {fd : Fin pcbNumFds} (hfd : (s.pcb (.table i)).fdTable fd ≠ none) :
    Accounts (s.startRead (.table i) buf buflen) := by
  refine ⟨h.idle, h.count, fun j hj => ?_⟩
  by_cases hij : j = i
  · rw [hij]
    exact ⟨fd, hfd⟩
  · have hreg : (s.startRead (.table i) buf buflen).kbd.gKbdTaskList =
        Function.update s.kbd.gKbdTaskList (taskOf i) ⟨some (.table i), buf, buflen, 0, true⟩ := by
      rw [← hs.taskIndex i]
      rfl
    rw [hreg, Function.update_of_ne fun he => hij (taskOf_injective he)] at hj
    exact h.waiting j hj

theorem checkFd_ne_none {x : Pcb} {fd : ℤ} (h : checkFd x fd ≠ none) :
    ∃ i, x.fdTable i ≠ none := by
  unfold checkFd at h
  split_ifs at h with hfd
  · dsimp only at h
    refine ⟨⟨fd.toNat, by show _ < 4; omega⟩, fun hn => h ?_⟩
    rw [hn]
    rfl
  · exact absurd rfl h

theorem ClosesSome.accounts (h' : ClosesSome p s s') (h : Accounts s) (hs : Sane s) :
    Accounts s' ∧ Sane s' := by
  induction h' with
  | refl => exact ⟨h, hs⟩
  | tail _ hstep ih =>
    obtain ⟨i, hc⟩ := hstep
    refine ⟨?_, ih.2.closes hc⟩
    cases p with
    | idle => exact absurd (ih.1.idle i) hc.wasOpen
    | table j => exact ih.1.closes ih.2 hc

theorem Accounts.calm (h : Accounts s) (h' : Calm s s') : Accounts s' :=
  h.same (fun p => (h'.pcb p).fdTable) (by rw [h'.kbd]) fun k => by rw [h'.kbd]; exact id

theorem Accounts.setRet (h : Accounts s) (r : ℤ) : Accounts (s.setRet r) :=
  h.calm (calm_setRet s r)

theorem Accounts.handles {R : PcbPtr → Prop} (h : Accounts s) (h' : Handles R s s') : Accounts s' :=
  h.same (fun p => (h'.kept.owner p).fdTable) (by rw [h'.kept.kbd]) fun k => by
    rw [h'.kept.kbd]
    exact id

/-! ## A whole turn -/

variable [ProcLists Q]

/-- Every request but `create` keeps the accounts. -/
theorem DeviceStep.accounts {req : SyscallRequest} (hs : Sane s) (h : Accounts s)
    (hcur : req ≠ .timerInt → req ≠ .keyboardInt → s.currproc ≠ .idle) (hreq : req ≠ .create)
    (h' : DeviceStep s req s') : Accounts s' := by
  cases h' with
  | kept _ _ h' => exact h.handles h'
  | signalled p _ hp h' => exact h.handles h'
  | create r u h' => exact absurd rfl hreq
  | ended _ heap u v w _ hu hv hw hss =>
    have hheap : Accounts (s.setHeap heap) := h.same (fun _ => rfl) rfl fun _ => id
    obtain ⟨hv', hsv⟩ := hv.accounts (hheap.calm hu.toCalm) ((hs.setHeap heap).quiet hu)
    have hc : v.currproc = s.currproc := hv.fdsOnly.currproc.trans hu.currproc
    rw [← hc] at hw
    exact hv'.calm (ended_calm hsv hw hss).1
  | opened e fd k hfd hk =>
    cases hc : s.currproc with
    | idle => exact absurd hc (hcur (by simp) (by simp))
    | table j =>
      rw [hc] at hfd hk
      exact (h.opened hfd hk).setRet _
  | closed i u r h' =>
    cases hc : s.currproc with
    | idle => exact absurd hc (hcur (by simp) (by simp))
    | table j =>
      rw [hc] at h'
      exact (h.closes hs h').setRet _
  | ioctl e f r =>
    refine Accounts.setRet ?_ r
    exact h.same (fun _ => rfl) rfl fun _ => id
  | read i u hi hd hu hdone hr =>
    obtain ⟨fd, hfd⟩ := checkFd_ne_none hd.isOpen
    rw [hi] at hfd
    exact (hu.accounts (h.startRead hs _ _ hfd)).setRet _
  | blocked i u _ hi hd hu hdone hr hss =>
    obtain ⟨fd, hfd⟩ := checkFd_ne_none hd.isOpen
    rw [hi] at hfd
    have hsu := (hs.startRead (i := i) _ _).flushes hu
    have hcur : u.currproc = .table i := hu.currproc.trans hi
    obtain ⟨-, hkbd, -, -, hdata, -⟩ := blockedRead hsu (by rw [hcur]; simp) hss
    exact (hu.accounts (h.startRead hs _ _ hfd)).same (fun p => (hdata p).fdTable) (by rw [hkbd])
      fun k => by rw [hkbd]; exact id
  | key c flag _ h' =>
    cases h' with
    | ignored hc heq =>
      rw [heq]
      exact h.same (fun _ => rfl) rfl fun _ => id
    | typed hc hr hstep =>
      refine hstep.accounts ?_
      exact h.same (fun _ => rfl) rfl fun _ => id
    | stored hc hr hroom heq =>
      rw [heq]
      exact h.same (fun _ => rfl) rfl fun _ => id

/-- Only the running process, and a slot that is filled, change their descriptors. -/
theorem DeviceStep.fdTable_other {req : SyscallRequest} (hs : Sane s) (h' : DeviceStep s req s')
    (hreq : req ≠ .create) {p : PcbPtr} (hp : p ≠ s.currproc) :
    (s'.pcb p).fdTable = (s.pcb p).fdTable := by
  cases h' with
  | kept _ _ h' => exact (h'.kept.owner p).fdTable
  | signalled _ _ _ h' => exact (h'.kept.owner p).fdTable
  | create r u h' => exact absurd rfl hreq
  | ended _ heap u v w _ hu hv hw hss =>
    have hc : v.currproc = s.currproc := hv.fdsOnly.currproc.trans hu.currproc
    have hsv := ((hs.setHeap heap).quiet hu).closesSome hv
    rw [← hc] at hw
    rw [((ended_calm hsv hw hss).1.pcb p).fdTable, hv.fdsOnly.other p hp]
    exact (hu.pcb p).fdTable
  | opened e fd k hfd hk =>
    rw [((calm_setRet _ _).pcb p).fdTable, setPcb_toCore, Core.setPcb_pcb_ne _ _ hp]
    rfl
  | closed i u r h' => rw [((calm_setRet _ _).pcb p).fdTable, h'.pcb_ne hp]
  | ioctl e f r =>
    rw [((calm_setRet _ _).pcb p).fdTable]
    rfl
  | read i u hi hd hu hdone hr =>
    rw [((calm_setRet _ _).pcb p).fdTable, (hu.sameData p).fdTable]
    rfl
  | blocked i u _ hi hd hu hdone hr hss =>
    have hsu := (hs.startRead (i := i) _ _).flushes hu
    have hcur : u.currproc = .table i := hu.currproc.trans hi
    obtain ⟨-, -, -, -, hdata, -⟩ := blockedRead hsu (by rw [hcur]; simp) hss
    rw [(hdata p).fdTable, (hu.sameData p).fdTable]
    rfl
  | key c flag _ h' =>
    cases h' with
    | ignored hc heq =>
      rw [heq]
      rfl
    | typed hc hr hstep =>
      rw [(hstep.broadcast.sameData p).fdTable]
      rfl
    | stored hc hr hroom heq =>
      rw [heq]
      rfl

variable [CheckedProcLists Q]

/-- Every turn keeps the kernel tidy. -/
theorem Tidy.step {t : Trap} {req : SyscallRequest} (hs : Sane s) (h : Tidy s)
    (hcur : req ≠ .timerInt → req ≠ .keyboardInt → s.currproc ≠ .idle)
    (hdis : s.dispatchRequest t req = some s') (hdev : DeviceStep s req s') : Tidy s' := by
  have hrun : (s.pcb s.currproc).currState = .running := hs.running
  cases dispatchRequest_upkeep hs.running h.orderly hdis with
  | moves hreq hm =>
    refine ⟨hdev.accounts hs h.toAccounts hcur hreq, hm.orderly h.orderly, fun p hp fd => ?_⟩
    have hstop := hm.stopped p hp
    have hpc : p ≠ s.currproc := by
      rintro rfl
      rw [hrun] at hstop
      simp at hstop
    rw [hdev.fdTable_other hs hreq hpc]
    exact h.closed p hstop fd
  | fills hreq hf hkbd =>
    have hfd : ∀ p, (s'.pcb p).fdTable = (s.pcb p).fdTable := by
      intro p
      rcases hf.slot p with ⟨-, hsame⟩ | ⟨hstop, hnone⟩
      · exact hsame
      · rw [hnone]
        funext fd
        exact (h.closed p hstop fd).symm
    refine ⟨h.toAccounts.same hfd (by rw [hkbd]) (fun k => by rw [hkbd]; exact id), hf.orderly,
      fun p hp fd => ?_⟩
    rcases hf.slot p with ⟨hstate, -⟩ | ⟨-, hnone⟩
    · rw [hfd p]
      exact h.closed p (hstate ▸ hp) fd
    · rw [hnone]
  | ends hreq he =>
    obtain ⟨heap, u, w, hu, hm, hw, hss⟩ := he.stages
    have hci : s.currproc ≠ .idle := by
      refine hcur ?_ ?_ <;> rcases hreq with rfl | rfl <;> simp
    have hheap : Accounts (s.setHeap heap) := h.toAccounts.same (fun _ => rfl) rfl fun _ => id
    obtain ⟨hacc, hsane, hnone⟩ := (hheap.calm hu.toCalm).closeFds ((hs.setHeap heap).quiet hu)
      s.currproc
    have hmv := hm.trans (closeFds_moves u s.currproc)
    have hov := hmv.orderly h.orderly
    have hc : (u.closeFds s.currproc).currproc = s.currproc :=
      (closeFds_closes u s.currproc).fdsOnly.currproc.trans hu.currproc
    obtain ⟨hother, -, -, -⟩ := addPcbToQueue_checked hw
    have how : Orderly none w := addPcbToQueue_orderly hw hci hov.idle hov.pid
      (fun q _ hb => hov.named q (by simp) hb) (by simp)
    have hcalm : Calm (u.closeFds s.currproc) s' := by
      rw [← hc] at hw
      exact (ended_calm (v := u.closeFds s.currproc) hsane (by rw [hc] at hw ⊢; exact hw) hss).1
    refine ⟨hacc.calm hcalm, (reschedule_moves hss).orderly how, fun p hp fd => ?_⟩
    rw [(hcalm.pcb p).fdTable]
    have hpw := (reschedule_moves (a := none) hss).stopped p hp
    by_cases hpc : p = s.currproc
    · rw [hpc]
      exact hnone fd
    · rw [hother p hpc] at hpw
      rw [(closeFds_closes u s.currproc).fdsOnly.other p hpc, (hu.pcb p).fdTable]
      exact h.closed p (hmv.stopped p hpw) fd

end KernelOf

end Xeros.Model
