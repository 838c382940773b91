import Xeros.Analysis.DataRuns
import Xeros.Analysis.MemoryCalls
import Xeros.Refinement.BootAccounts

/-!
# The heap over a run

No memory is protected, so a process can destroy the headers of the allocator.  While no process
does, and no device is opened, the kernel's accounts hold: what is not free is a block of boot or of
a process that has not stopped, in every state of every run.
-/

set_option autoImplicit false

namespace Xeros.Analysis

open Xeros.Foundations Xeros.Model Xeros.Abstract Xeros.Interface Xeros.Refinement KernelOf

/-- The byte at `a` is outside the heap, or in the data of a block that somebody owns: a stack or a
signal table, or what boot took. -/
def MayWrite (s : Kernel) (a : ℕ) : Prop := Writable s.toHeap s.liveBlocks a

/-- In the turn `k` neither the process nor the kernel, on the process's behalf, writes to anything
else.  Creating and ending processes is the kernel's own business.  The kernel's variables, which
lie outside the heap, are not written either: no run has such a store. -/
structure Contained (r : Run Links) (k : ℕ) : Prop where
  user : ∀ a < 4294967296, load8 (r.input k).mem a ≠ load8 (r.state k).mem a →
    MayWrite (r.state k) a
  kernel : ∀ req, (r.input k).request = some req → Balanced req → ∀ a < 4294967296,
    load8 (r.state (k + 1)).mem a ≠ load8 (r.input k).mem a → MayWrite (r.state k) a

/-! ## One turn -/

theorem atTrap_mem {s s' : Kernel} {t : Trap} (hs : s.atTrap t = some s') : s'.mem = t.mem := by
  unfold atTrap at hs
  obtain ⟨u, -, rfl⟩ := Option.map_eq_some_iff.mp hs
  rfl

theorem atTrap_toHeap {u s : Kernel} {t : Trap} (hs : u.atTrap t = some s) :
    s.toHeap = { u.toHeap with mem := t.mem } := by
  have hsame := atTrap_sameDevices hs
  show (⟨s.image, s.mem, s.gFreeList⟩ : Heap) = ⟨u.image, t.mem, u.gFreeList⟩
  rw [hsame.image, hsame.gFreeList, atTrap_mem hs]

/-- A trap whose process wrote nothing it should not leaves the blocks where they are. -/
theorem trap_accounts {u s : Kernel} {t : Trap} (h : Deliverable u) (hs : u.atTrap t = some s)
    (hw : ∀ a < 4294967296, load8 t.mem a ≠ load8 u.mem a → MayWrite u a) (hacc : Accounted u) :
    Accounted s ∧ SameBlocks u s := by
  obtain ⟨F, hM⟩ := hacc
  have hsame := atTrap_sameDevices hs
  obtain ⟨args, hself, hother⟩ := atTrap_pcb h hs
  have hdata : ∀ p, (s.pcb p).memoryRegion = (u.pcb p).memoryRegion ∧
      (s.pcb p).signalTable = (u.pcb p).signalTable := by
    intro p
    by_cases hp : p = u.currproc
    · rw [hp, hself]
      unfold Pcb.atTrap Pcb.delivered
      split_ifs <;> exact ⟨rfl, rfl⟩
    · rw [hother p hp]
      exact ⟨rfl, rfl⟩
  have howners : SameOwners u s := by
    refine ⟨hsame.image, ?_, fun i => ?_⟩
    · unfold bootAllocations
      rw [hsame.gDeviceTable, (hdata .idle).1]
    · refine Pcb.allocations_eq ?_ fun _ => hdata (.table i)
      rw [hsame.state]
  have hM' := (hM.rewrite hw).1
  rw [← atTrap_toHeap hs] at hM'
  exact ⟨(howners.accounted hM hM').1, howners.blocks hM hM'⟩

/-- One turn keeps the accounts. -/
theorem turn_accounts (r : Run Links) {k : ℕ} (hk : k < r.len) (hd : r.Deviceless (k + 1))
    (hc : Contained r k) (hacc : Accounted (r.state k)) :
    Accounted (r.state (k + 1)) ∧ KeepsBlocks (r.state k) (r.state (k + 1)) := by
  obtain ⟨s, req, heff⟩ := r.effect hk
  obtain ⟨hacc', hblocks⟩ := trap_accounts
    ((r.sane hk.le).deliverable (r.idleUnsignalled hk.le)) heff.trap hc.user hacc
  have hsame := atTrap_sameDevices heff.trap
  have hready := (atTrap_view (r.ready hk.le (hd.mono k.le_succ)) heff.trap).1
  have hsteady : Steady s :=
    ⟨hready, (r.sane hk.le).sameDevices hsame, (hsame.tidy (r.tidy hk.le)).orderly⟩
  have hdev : SyscallRequest.Deviceless req := hd k (by omega) req heff.request
  have hcur : req ≠ .timerInt → s.currproc ≠ .idle := by
    intro ht
    rw [heff.currproc]
    exact (r.allows k hk).1 (reason_of_request heff.request hdev ht)
  obtain ⟨hacc2, hkeep⟩ := dispatchRequest_accounts hsteady hacc' hdev hcur heff.handled <| by
    intro hreq a ha hne
    rw [atTrap_mem heff.trap] at hne
    have hmay := hc.kernel req heff.request hreq a ha hne
    unfold MayWrite at hmay
    rw [hblocks.live]
    unfold Writable memstart at hmay ⊢
    rwa [hsame.image]
  refine ⟨hacc2, hkeep.image.trans hblocks.image, hkeep.boot.trans hblocks.boot,
    fun i hi hi' => ?_⟩
  rw [← hsame.state] at hi
  exact (hkeep.table i hi hi').trans (hblocks.table i)

/-! ## Runs -/

/-- Dispatching the next process moves no block. -/
theorem reschedule_accounts {u s : Kernel} (h : AtRest u) (hacc : Accounted u)
    (hs : u.reschedule = some s) : Accounted s ∧ SameBlocks u s := by
  obtain ⟨s', hs', hb⟩ := (Becomes.refl h.good.wf).then_reschedule h.good.inv
  rw [hs] at hs'
  obtain rfl := Option.some.inj hs'
  have hstate : ∀ i, (s.pcb (.table i)).currState = .stopped ↔
      (u.pcb (.table i)).currState = .stopped := by
    intro i
    have hnew : (s.pcb (.table i)).currState = (u.view.dispatch.proc (.table i)).state := by
      rw [hb.pcb]
      rfl
    rw [hnew]
    rcases dispatch_proc h.good.inv (.table i) with hsame | ⟨hready | hidle, hrun⟩
    · rw [hsame]
      exact Iff.rfl
    · have hready : (u.pcb (.table i)).currState = .ready := hready
      rw [hrun, hready]
      simp
    · exact absurd hidle (by simp)
  have howners : SameOwners u s := by
    refine ⟨congrArg Heap.image hb.toHeap, ?_, fun i => ?_⟩
    · unfold bootAllocations
      rw [hb.gDeviceTable, hb.pcb]
      rfl
    · refine Pcb.allocations_eq (hstate i) fun _ => ?_
      rw [hb.pcb]
      exact ⟨rfl, rfl⟩
  obtain ⟨F, hM⟩ := hacc
  have hM' : Managed s.toHeap F u.liveBlocks := by
    rw [hb.toHeap]
    exact hM
  exact ⟨(howners.accounted hM hM').1, howners.blocks hM hM'⟩

/-- The root process is created and dispatched. -/
theorem start_accounts {image : Image} {mem : Memory} {root : ℕ} {s : Kernel}
    (hmax : image.maxaddr = 4194303) (hword : image.freemem < 4294967296)
    (hroom : roundToParagraph image.freemem + 16 ≤ holeStart) (hs : boot image mem root = some s) :
    ∃ s0 : Kernel, initproc image mem = some s0 ∧ Accounted s0 ∧ s0.liveBlocks = s0.bootBlocks ∧
      Accounted s ∧ s.image = s0.image ∧ s.bootBlocks = s0.bootBlocks := by
  rw [boot_eq_initproc] at hs
  obtain ⟨s0, hs0, hs⟩ := Option.bind_eq_some_iff.mp hs
  obtain ⟨⟨r, u⟩, hu, hs⟩ := Option.bind_eq_some_iff.mp hs
  obtain ⟨b, htable, htr, -, F, hM⟩ := initproc_accounts hmax hword hroom hs0
  have hstop : ∀ i, (s0.pcb (.table i)).currState = .stopped := by
    intro i
    rw [htable.table]
    rfl
  have hlive : s0.liveBlocks = s0.bootBlocks := by
    have hnone : holdings s0.blocksOf = [] :=
      holdings_eq_nil.mpr fun i => blocksOf_stopped (hstop i)
    unfold liveBlocks
    rw [hnone, List.append_nil]
  obtain ⟨hacc, hkeep⟩ := (create_creation hu).accounts htable.orderly (by decide) hM
  obtain ⟨hacc', hblocks⟩ := reschedule_accounts ((htable.atRest htr).create hu) hacc hs
  exact ⟨s0, hs0, ⟨F, hM⟩, hlive, hacc', hblocks.image.trans hkeep.image,
    hblocks.boot.trans hkeep.boot⟩

section Runs

variable (r : Run Links) (hmax : r.image.maxaddr = 4194303) (hword : r.image.freemem < 4294967296)
  (hroom : roundToParagraph r.image.freemem + 16 ≤ holeStart)

include hmax hword hroom

/-- The accounts hold all the time, and the blocks of boot are never given up. -/
theorem run_accounts {n : ℕ} (hn : n ≤ r.len) (hd : r.Deviceless n)
    (hc : ∀ k < n, Contained r k) : Accounted (r.state n) ∧ ∃ s0 : Kernel,
      initproc r.image r.mem = some s0 ∧ Accounted s0 ∧ (r.state n).image = s0.image ∧
      s0.liveBlocks = (r.state n).bootBlocks := by
  induction n with
  | zero =>
    obtain ⟨s0, hs0, hacc0, hlive, hacc, himage, hboot⟩ :=
      start_accounts hmax hword hroom r.start
    exact ⟨hacc, s0, hs0, hacc0, himage, hlive.trans hboot.symm⟩
  | succ n ih =>
    obtain ⟨hacc, s0, hs0, hacc0, himage, hlive⟩ := ih (by omega) (hd.mono n.le_succ) fun k hk =>
      hc k (by omega)
    obtain ⟨hacc', hkeep⟩ := turn_accounts r hn hd (hc n n.lt_succ_self) hacc
    exact ⟨hacc', s0, hs0, hacc0, hkeep.image.trans himage, hlive.trans hkeep.boot.symm⟩

/-- A process that goes on keeps its blocks. -/
theorem run_blocks {m n : ℕ} (hmn : m ≤ n) (hn : n ≤ r.len) (hd : r.Deviceless n)
    (hc : ∀ k < n, Contained r k) : (r.state n).image = (r.state m).image ∧
      (r.state n).bootBlocks = (r.state m).bootBlocks ∧
      ∀ i, (∀ k, m ≤ k → k ≤ n → ((r.state k).pcb (.table i)).currState ≠ .stopped) →
        (r.state n).blocksOf i = (r.state m).blocksOf i := by
  induction n, hmn using Nat.le_induction with
  | base => exact ⟨rfl, rfl, fun _ _ => rfl⟩
  | succ n hmn ih =>
    have hd' := hd.mono n.le_succ
    have hc' : ∀ k < n, Contained r k := fun k hk => hc k (by omega)
    obtain ⟨himage, hboot, htable⟩ := ih (by omega) hd' hc'
    obtain ⟨hacc, -⟩ := run_accounts r hmax hword hroom (by omega) hd' hc'
    obtain ⟨-, hkeep⟩ := turn_accounts r hn hd (hc n n.lt_succ_self) hacc
    refine ⟨hkeep.image.trans himage, hkeep.boot.trans hboot, fun i hlive => ?_⟩
    have hlast := hkeep.table i (hlive n hmn n.le_succ) (hlive (n + 1) (by omega) le_rfl)
    exact hlast.trans (htable i fun k hk hkn => hlive k hk (by omega))

/-- In every run on this machine in which no device is opened and every turn is contained, at every
time: the blocks of boot and those of the processes that have not stopped are disjoint, with the
free list they fill the two regions exactly, and each of them can be freed.  When every process has
stopped, the free list is the one that `initproc` left. -/
theorem heap_accounted {n : ℕ} (hn : n ≤ r.len) (hd : r.Deviceless n)
    (hc : ∀ k < n, Contained r k) : ∃ F, FreeList (r.state n).toHeap F ∧
      (r.state n).liveBlocks.Pairwise Block.Disjoint ∧
      (∀ l ∈ (r.state n).liveBlocks, ∀ f ∈ F, l.Disjoint f) ∧
      (∀ x, InRegions (r.state n).toHeap x ↔ Covers F x ∨ Covers (r.state n).liveBlocks x) ∧
      (∀ l ∈ (r.state n).liveBlocks, ∃ h, (r.state n).toHeap.kfree (l.addr + 16) = some h) ∧
      ((∀ i, ((r.state n).pcb (.table i)).currState = .stopped) →
        ∃ s0 : Kernel, initproc r.image r.mem = some s0 ∧ FreeList s0.toHeap F) := by
  obtain ⟨⟨F, hM⟩, s0, hs0, ⟨F0, hM0⟩, himage, hlive⟩ := run_accounts r hmax hword hroom hn hd hc
  refine ⟨F, hM.list, hM.apart, hM.free, hM.tiles, fun l hl => ?_, fun hstop => ?_⟩
  · obtain ⟨-, -, h', -, -, -, hk, -⟩ := hM.kfree hl
    exact ⟨h', hk⟩
  · have hnone : holdings (r.state n).blocksOf = [] :=
      holdings_eq_nil.mpr fun i => blocksOf_stopped (hstop i)
    have hsame : (r.state n).liveBlocks = s0.liveBlocks := by
      rw [hlive]
      unfold liveBlocks
      rw [hnone, List.append_nil]
    have hF : F = F0 := managed_unique hM0 hM himage fun b => by rw [hsame]
    exact ⟨s0, hs0, hF ▸ hM0.list⟩

end Runs

/-! ## A run whose turns are contained -/

theorem load8_storeWords_of_ne {l : List ℕ} {m : Memory} {a c : ℕ} (hc : c < 4294967296)
    (hfit : a + 4 * l.length ≤ 4294967296) (hout : c < a ∨ a + 4 * l.length ≤ c) :
    load8 (storeWords m a l) c = load8 m c := by
  induction l generalizing m a with
  | nil => rfl
  | cons w l ih =>
    rw [List.length_cons] at hfit hout
    unfold storeWords
    rw [ih (by omega) (by omega), load8_store32_of_ne]
    intro i hi
    omega

/-- The running process has no signals, and room below and above its stack pointer. -/
abbrev OnOwnStack (s : Kernel) : Prop :=
  (s.pcb s.currproc).signalsFired = 0 ∧ 256 ≤ (s.pcb s.currproc).esp ∧
    ∃ l ∈ s.liveBlocks, l.addr + 16 ≤ (s.pcb s.currproc).esp - 256 ∧
      (s.pcb s.currproc).esp + 32 ≤ l.limit

/-- A system call writes its arguments there, and the kernel its result. -/
theorem call_mayWrite {s : Kernel} {request : List ℕ} (hacc : Accounted s) (hs : OnOwnStack s)
    (hlen : request.length ≤ 50) {a : ℕ} (ha : a < 4294967296)
    (hne : load8 ((Act.call request []).trap s).mem a ≠ load8 s.mem a) : MayWrite s a := by
  obtain ⟨hno, hlo, l, hl, hbelow, habove⟩ := hs
  obtain ⟨F, hM⟩ := hacc
  have hlim := hM.live_limit hl
  obtain ⟨sp, hsp⟩ : ∃ sp, sp = (s.pcb s.currproc).esp := ⟨_, rfl⟩
  rw [← hsp] at hlo hbelow habove
  have hmem : ((Act.call request []).trap s).mem =
      storeWords (store32 s.mem (sp + 28) (toWord (s.pcb s.currproc).ret)) (sp - 256 + 44)
        request := by
    unfold Act.trap
    rw [enterUser_plain (by simp [hno]), hsp]
    rfl
  right
  right
  right
  refine ⟨l, hl, ?_⟩
  by_contra hout
  apply hne
  rw [hmem, load8_storeWords_of_ne ha (by omega) (by omega), load8_store32_of_ne]
  intro i hi
  omega

/-- Yielding writes no memory. -/
theorem yield_mem {s s' : Kernel} {t : Trap} (hs : s.dispatchRequest t .yield = some s') :
    s'.mem = s.mem := by
  obtain ⟨u, hu, hs⟩ := Option.bind_eq_some_iff.mp hs
  obtain ⟨-, k, rfl⟩ := addPcbToQueue_eq hu
  rw [(reschedule_heap hs).1]
  rfl

/-- The root process creates another one and yields; both stop. -/
def lifetimesScript : List Act :=
  [.call [2, 40400, 8192] [], .call [3] [], .call [4] [], .call [4] []]

/-- Such a call is contained when the kernel writes nothing for the process. -/
theorem call_contained (r : Run Links) {k : ℕ} (hk : k < r.len) {request : List ℕ}
    (hin : r.input k = (Act.call request []).trap (r.state k)) (hlen : request.length ≤ 50)
    (hstack : OnOwnStack (r.state k)) (hacc : Accounted (r.state k))
    (hreq : (r.input k).request = some .create ∨ (r.input k).request = some .yield ∨
      (r.input k).request = some .stop) : Contained r k := by
  constructor
  · intro a ha hne
    rw [hin] at hne
    exact call_mayWrite hacc hstack hlen ha hne
  · intro req hr hb a ha hne
    exfalso
    rw [hr] at hreq
    rcases hreq with hc | hy | hs
    · exact hb.1 (Option.some.inj hc)
    · obtain ⟨s, req', heff⟩ := r.effect hk
      rw [heff.request] at hr
      have hyield : req' = .yield := (Option.some.inj hr).trans (Option.some.inj hy)
      have hdis := heff.handled
      rw [hyield] at hdis
      rw [yield_mem hdis, atTrap_mem heff.trap] at hne
      exact hne rfl
    · exact hb.2.1 (Option.some.inj hs)

/-- A run in which the root process creates another one and yields, and both stop. -/
structure Lifetimes (r : Run Links) : Prop where
  len : r.len = 4
  maxaddr : r.image.maxaddr = 4194303
  freemem : r.image.freemem < 4294967296
  room : roundToParagraph r.image.freemem + 16 ≤ holeStart
  deviceless : r.Deviceless 4
  contained : ∀ k < 4, Contained r k
  start : ∀ i, i ≠ 0 → ((r.state 0).pcb (.table i)).currState = .stopped
  root : ∀ k ≤ 3, ((r.state k).pcb (.table 0)).currState ≠ .stopped
  others : ∀ i, i ≠ 0 → ((r.state 3).pcb (.table i)).currState = .stopped
  all : ∀ i, ((r.state 4).pcb (.table i)).currState = .stopped

/-- The small machine has room for the heap below and above the hole. -/
theorem smallPc_memory {r : Run Links} (himage : r.image = smallPc) :
    r.image.maxaddr = 4194303 ∧ r.image.freemem < 4294967296 ∧
      roundToParagraph r.image.freemem + 16 ≤ holeStart := by
  rw [himage]
  refine ⟨rfl, ?_, ?_⟩
  · decide
  · decide

theorem exists_lifetimes : ∃ r : Run Links, Lifetimes r := by
  obtain ⟨r, himage, hlen, hcheck, hin, htest⟩ := exists_run_on (Q := Links) smallPc 40300
    (fun s t => KernelOf.Deviceless t ∧ OnOwnStack s ∧ (t.request = some .create ∨
      t.request = some .yield ∨ t.request = some .stop)) lifetimesScript
    (fun n s => decide ((n ≤ 3 → (s.pcb (.table 0)).currState ≠ .stopped) ∧
      ((n = 0 ∨ n = 3) → ∀ i, i ≠ 0 → (s.pcb (.table i)).currState = .stopped) ∧
      (n = 4 → ∀ i, (s.pcb (.table i)).currState = .stopped))) (by decide +kernel)
  have hlen4 : r.len = 4 := hlen
  have hd : r.Deviceless 4 := fun k hk => (hcheck k (by omega)).1
  obtain ⟨hmax, hword, hroom⟩ := smallPc_memory himage
  have hacts : ∀ k < 4, ∃ request : List ℕ, request.length ≤ 50 ∧
      r.input k = (Act.call request []).trap (r.state k) := by
    intro k hk
    interval_cases k
    · exact ⟨[2, 40400, 8192], by decide, hin 0 _ rfl⟩
    · exact ⟨[3], by decide, hin 1 _ rfl⟩
    · exact ⟨[4], by decide, hin 2 _ rfl⟩
    · exact ⟨[4], by decide, hin 3 _ rfl⟩
  have hcontained : ∀ n ≤ 4, ∀ k < n, Contained r k := by
    intro n hn
    induction n with
    | zero => exact fun k hk => absurd hk (Nat.not_lt_zero k)
    | succ n ih =>
      intro k hk
      have hbefore := ih (by omega)
      by_cases hkn : k < n
      · exact hbefore k hkn
      obtain rfl : k = n := by omega
      obtain ⟨request, hrlen, hreq⟩ := hacts k (by omega)
      obtain ⟨-, hstack, hcall⟩ := hcheck k (by omega)
      have hacc := (run_accounts r hmax hword hroom (by omega) (hd.mono (by omega)) hbefore).1
      exact call_contained r (by omega) hreq hrlen hstack hacc hcall
  exact ⟨r, hlen4, hmax, hword, hroom, hd, hcontained 4 le_rfl,
    (of_decide_eq_true (htest 0 (by decide))).2.1 (.inl rfl),
    fun k hk => (of_decide_eq_true (htest k (by rw [← hlen]; omega))).1 hk,
    (of_decide_eq_true (htest 3 (by decide))).2.1 (.inr rfl),
    (of_decide_eq_true (htest 4 (by decide))).2.2 rfl⟩

/-- At its end the free list is the one that `initproc` left. -/
theorem heap_accounted_end : ∃ (r : Run Links) (s0 : Kernel) (F : List Block),
    initproc r.image r.mem = some s0 ∧ FreeList s0.toHeap F ∧
      FreeList (r.state 4).toHeap F := by
  obtain ⟨r, h⟩ := exists_lifetimes
  obtain ⟨F, hF, -, -, -, -, hend⟩ := heap_accounted r h.maxaddr h.freemem h.room
    (n := 4) h.len.ge h.deviceless h.contained
  obtain ⟨s0, hs0, hF0⟩ := hend h.all
  exact ⟨r, s0, F, hs0, hF0, hF⟩

/-! ## Free memory -/

section Restored

variable (r : Run Links) (hmax : r.image.maxaddr = 4194303) (hword : r.image.freemem < 4294967296)
  (hroom : roundToParagraph r.image.freemem + 16 ≤ holeStart)

include hmax hword hroom

/-- In such a run free memory is a function of the processes alone: when the processes that have not
stopped at `n` are those that had not at `m`, and none of them ended in between, the free list at `n`
is the one at `m`, whatever was created, ended or refused meanwhile. -/
theorem free_list_restored {m n : ℕ} (hmn : m ≤ n) (hn : n ≤ r.len) (hd : r.Deviceless n)
    (hc : ∀ k < n, Contained r k)
    (hstay : ∀ i, ((r.state m).pcb (.table i)).currState ≠ .stopped → ∀ k, m ≤ k → k ≤ n →
      ((r.state k).pcb (.table i)).currState ≠ .stopped)
    (hgone : ∀ i, ((r.state m).pcb (.table i)).currState = .stopped →
      ((r.state n).pcb (.table i)).currState = .stopped) :
    ∃ F, FreeList (r.state m).toHeap F ∧ FreeList (r.state n).toHeap F := by
  obtain ⟨⟨F, hM⟩, -⟩ := run_accounts r hmax hword hroom (hmn.trans hn) (hd.mono hmn)
    fun k hk => hc k (by omega)
  obtain ⟨⟨F', hM'⟩, -⟩ := run_accounts r hmax hword hroom hn hd hc
  obtain ⟨himage, hboot, htable⟩ := run_blocks r hmax hword hroom hmn hn hd hc
  have hblocks : ∀ i, (r.state n).blocksOf i = (r.state m).blocksOf i := by
    intro i
    by_cases hi : ((r.state m).pcb (.table i)).currState = .stopped
    · rw [blocksOf_stopped hi, blocksOf_stopped (hgone i hi)]
    · exact htable i (hstay i hi)
  have hlive : (r.state n).liveBlocks = (r.state m).liveBlocks := by
    unfold liveBlocks
    rw [hboot, holdings_congr hblocks]
  have hF : F' = F := managed_unique hM hM' himage fun b => by rw [hlive]
  exact ⟨F, hM.list, hF ▸ hM'.list⟩

end Restored

/-- The process that was created and ended has left nothing behind. -/
theorem free_list_restored_child : ∃ (r : Run Links) (F : List Block),
    FreeList (r.state 0).toHeap F ∧ FreeList (r.state 3).toHeap F := by
  obtain ⟨r, h⟩ := exists_lifetimes
  have hlen := h.len
  refine ⟨r, free_list_restored r h.maxaddr h.freemem h.room (m := 0) (n := 3) (by omega)
    (by omega) (h.deviceless.mono (by omega)) (fun k hk => h.contained k (by omega))
    (fun i hi k _ hk => ?_) fun i hi => ?_⟩
  · have hi0 : i = 0 := by
      by_contra hi0
      exact hi (h.start i hi0)
    rw [hi0]
    exact h.root k hk
  · by_cases hi0 : i = 0
    · rw [hi0] at hi
      exact absurd hi (h.root 0 (by omega))
    · exact h.others i hi0

end Xeros.Analysis
