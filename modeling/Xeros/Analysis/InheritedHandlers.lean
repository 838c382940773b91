import Xeros.Analysis.HeapAccounts
import Xeros.Analysis.Pids
import Xeros.Refinement.Leftovers

/-!
# The signal handlers of a new process

`get_next_available_pcb` means to clear the signal table of a new process.  The length it gives to
`memset` is the size of a size, so that only the handler of signal 0 is cleared; for every other
signal the new process has the word for a handler that lay in free memory.
-/

set_option autoImplicit false

namespace Xeros.Analysis

open Xeros.Foundations Xeros.Model Xeros.Abstract Xeros.Interface Xeros.Refinement KernelOf

variable {Q : Type} [ProcLists Q] {s : KernelOf Q} {i : Fin pcbTableSize}

omit [ProcLists Q] in
theorem setRet_signalTable (s : KernelOf Q) (r : ℤ) (p : PcbPtr) :
    ((s.setRet r).pcb p).signalTable = (s.pcb p).signalTable := by
  unfold setRet
  rw [setPcb_toCore, Core.setPcb_pcb]
  split_ifs with hp
  · rw [hp]
  · rfl

/-- A create that returns a pid has got a stack and a table for the process. -/
theorem dispatchSyscallCreate_allocates {x : ℤ × KernelOf Q} (h : Sane s)
    (ho : KernelOf.Orderly none s) (hs : s.dispatchSyscallCreate = some x)
    (hpid : PidOf ((setRetOf x).pcb s.currproc).ret i) :
    ∃ (func b : ℕ) (stack : ℤ), stack < 2147483648 ∧
      Allocates s.toHeap func (stackSize stack)
        (some (b, ((setRetOf x).pcb (.table i)).signalTable)) (setRetOf x).toHeap := by
  obtain ⟨x, u⟩ := x
  rw [setRetOf_mk] at hpid ⊢
  have hret : u.currproc = s.currproc → ((u.setRet x).pcb s.currproc).ret = x := by
    intro hc
    unfold setRet
    rw [hc, setPcb_toCore, Core.setPcb_pcb_self]
  have hrefused : u.currproc = s.currproc → ¬ x < 1 := by
    intro hc hx
    rw [hret hc] at hpid
    exact not_pidOf hx i hpid
  unfold dispatchSyscallCreate at hs
  dsimp only at hs
  obtain ⟨result, hres, hs⟩ := Option.bind_eq_some_iff.mp hs
  split_ifs at hs with hne
  · obtain ⟨rfl, rfl⟩ := Prod.mk.inj (Option.some.inj hs)
    exact absurd (by rw [verifyUsrptr_refused hres hne]; decide) (hrefused rfl)
  · cases create_creation hs with
    | failed x heap hr _ =>
      refine absurd ?_ (hrefused rfl)
      rcases hr with rfl | rfl | rfl <;> decide
    | recycled q k heap table hh hq _ => exact absurd (by decide) (hrefused rfl)
    | created q k heap table b sp hh hq hnext hheap =>
      obtain ⟨j, rfl⟩ := PcbPtr.exists_table (ho.head q hh).2
      obtain ⟨h1, hslot⟩ := h.pids j
      have hpj := pidOf_nextPid h1 hnext
      rw [hslot] at hpj
      rw [hret rfl] at hpid
      obtain rfl : i = j := hpid.2.symm.trans hpj.2
      refine ⟨s.arg 0, b, toInt (s.arg 1), (wrapInt_range (s.arg 1)).2, ?_⟩
      rw [setRet_signalTable, withSlot_pcb_self]
      exact hheap

section Runs

variable (r : Run Links) (hmax : r.image.maxaddr = 4194303) (hword : r.image.freemem < 4294967296)
  (hroom : roundToParagraph r.image.freemem + 16 ≤ holeStart)

include hmax hword hroom

/-- In every run in which no device is opened and every turn is contained, a process that is created
in step `n` has no handler for signal 0, and for each other signal the handler that the free memory
of its table held when its creator called: what earlier processes left there. -/
theorem handlers_inherited {n : ℕ} (hn : n < r.len) (hd : r.Deviceless (n + 1))
    (hc : ∀ k < n + 1, Contained r k) {i : Fin pcbTableSize} (hcr : CreatesIn r i n) :
    ∃ F table, FreeList (r.state n).toHeap F ∧
      ((r.state (n + 1)).pcb (.table i)).signalTable = table ∧
      (∀ x, table ≤ x → x < table + 4 * signalTableSize → Covers F x) ∧
      (r.state (n + 1)).handlerOf (.table i) 0 = 0 ∧
      ∀ sig, 0 < sig → sig < signalTableSize →
        (r.state (n + 1)).handlerOf (.table i) sig = load32 (r.input n).mem (table + 4 * sig) := by
  obtain ⟨s, req, heff⟩ := r.effect hn
  obtain ⟨⟨F, hM⟩, -⟩ := run_accounts r hmax hword hroom hn.le (hd.mono n.le_succ)
    fun k hk => hc k (by omega)
  have hM' := (hM.rewrite (hc n (by omega)).user).1
  rw [← atTrap_toHeap heff.trap] at hM'
  have hsame := atTrap_sameDevices heff.trap
  have hsane : Sane s := (r.sane hn.le).sameDevices hsame
  have horderly := (hsame.tidy (r.tidy hn.le)).orderly
  have hreq := heff.request
  rw [hcr.1] at hreq
  obtain rfl := Option.some.inj hreq
  obtain ⟨x, hx, hnext⟩ := Option.map_eq_some_iff.mp heff.handled
  have hpid := hcr.2
  rw [← heff.currproc, ← hnext] at hpid
  obtain ⟨func, b, stack, hstack, halloc⟩ :=
    dispatchSyscallCreate_allocates hsane horderly hx hpid
  rw [hnext] at halloc
  obtain ⟨hmin, hsize⟩ := stackSize_bounds hstack
  obtain ⟨hzero, hfree, hkept⟩ := halloc.table_words hM' hmin hsize
  refine ⟨F, _, hM.list, rfl, hfree, hzero, fun sig h0 hsig => ?_⟩
  rw [← atTrap_mem heff.trap]
  exact hkept sig h0 hsig

end Runs

/-- The first process that the root process creates. -/
theorem handlers_inherited_first : ∃ (r : Run Links) (table : ℕ), r.len = 1 ∧
    ((r.state 1).pcb (.table 1)).signalTable = table ∧
    (r.state 1).handlerOf (.table 1) 31 = load32 (r.input 0).mem (table + 124) := by
  obtain ⟨r, himage, hlen, hcheck, hin, htest⟩ := exists_run_on (Q := Links) smallPc 40300
    (fun s t => KernelOf.Deviceless t ∧ OnOwnStack s ∧ t.request = some .create)
    [.call [2, 40400, 8192] []]
    (fun n s => decide ((n = 0 → s.currproc = .table 0) ∧
      (n = 1 → (s.pcb (.table 0)).ret = 34))) (by decide +kernel)
  have hlen1 : r.len = 1 := hlen
  obtain ⟨hmax, hword, hroom⟩ := smallPc_memory himage
  obtain ⟨hdev, hstack, hcreate⟩ := hcheck 0 (by omega)
  have hcur := (of_decide_eq_true (htest 0 (by decide))).1 rfl
  have hret := (of_decide_eq_true (htest 1 (by decide))).2 rfl
  have hcr : CreatesIn r 1 0 := by
    refine ⟨hcreate, ?_⟩
    rw [hcur, hret]
    decide
  have hacc := (run_accounts r hmax hword hroom (Nat.zero_le _)
    (fun k hk => absurd hk (Nat.not_lt_zero k)) fun k hk => absurd hk (Nat.not_lt_zero k)).1
  have hc : ∀ k < 0 + 1, Contained r k := by
    intro k hk
    obtain rfl : k = 0 := by omega
    exact call_contained r (by omega) (hin 0 _ rfl) (by decide) hstack hacc (.inl hcreate)
  have hd : r.Deviceless (0 + 1) := by
    intro k hk
    obtain rfl : k = 0 := by omega
    exact hdev
  obtain ⟨F, table, -, htable, -, -, hkept⟩ :=
    handlers_inherited r hmax hword hroom (by omega) hd hc hcr
  exact ⟨r, table, hlen1, htable, hkept 31 (by decide) (by decide)⟩

end Xeros.Analysis
