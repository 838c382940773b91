import Xeros.Analysis.DataRuns

/-!
# Process ids

A slot of the process table gives every process it takes a new pid, 32 above the last one, until the
pids of 31 bits are used up.  So a pid stands for one process, unless its slot took `2 ^ 26`
processes since.
-/

set_option autoImplicit false

namespace Xeros.Analysis

open Xeros.Foundations Xeros.Model Xeros.Abstract Xeros.Interface KernelOf

/-- The number of pids that a slot has. -/
abbrev pidsPerSlot : ℕ := 67108864

/-- The pid of a slot when `c` processes were created in it, after one with pid `pid`. -/
def pidAfter (pid : ℤ) (c : ℕ) : ℤ := (pid - 1 + 32 * c) % 2147483648 + 1

theorem pidAfter_zero {pid : ℤ} (h1 : 1 ≤ pid) (hlt : pid < 2147483648) : pidAfter pid 0 = pid := by
  unfold pidAfter
  omega

theorem pidAfter_add (pid : ℤ) (c d : ℕ) : pidAfter (pidAfter pid c) d = pidAfter pid (c + d) := by
  unfold pidAfter
  push_cast
  omega

theorem pidAfter_eq_self_iff {pid : ℤ} (h1 : 1 ≤ pid) (hlt : pid < 2147483648) (c : ℕ) :
    pidAfter pid c = pid ↔ pidsPerSlot ∣ c := by
  unfold pidAfter pidsPerSlot
  omega

/-- A slot never gets the pid back that it has. -/
theorem nextPid_ne {pid : ℤ} (h : 1 ≤ pid) : nextPid pid ≠ pid := by
  unfold nextPid
  have hsize : (pcbTableSize : ℤ) = 32 := rfl
  rw [hsize]
  dsimp only
  have hwrap : wrapInt (pid + 32) ≠ pid := by
    unfold wrapInt
    omega
  split_ifs with hlt
  · intro htmod
    have hsmall : pid < 32 := by
      rw [← htmod]
      exact Int.tmod_lt_of_pos pid (by decide)
    unfold wrapInt at hlt
    omega
  · exact hwrap

/-- `nextPid` on the pids of a slot, in 32 bits. -/
theorem nextPid_of_pos {pid : ℤ} (h1 : 1 ≤ pid) (hlt : pid < 2147483648) :
    nextPid pid = if pid < 2147483616 then pid + 32 else pid % 32 := by
  have hsize : (pcbTableSize : ℤ) = 32 := rfl
  unfold nextPid
  rw [hsize]
  dsimp only
  unfold wrapInt
  rw [Int.tmod_eq_emod_of_nonneg (by omega)]
  split_ifs <;> omega

/-- The next pid, where the kernel accepts it, is 32 above the last one, in 31 bits. -/
theorem nextPid_eq {pid : ℤ} (h1 : 1 ≤ pid) (hlt : pid < 2147483648) (hnext : 1 ≤ nextPid pid) :
    nextPid pid = pidAfter pid 1 := by
  rw [nextPid_of_pos h1 hlt] at hnext ⊢
  unfold pidAfter
  split_ifs at hnext ⊢ <;> omega

theorem nextPid_lt {pid : ℤ} (h1 : 1 ≤ pid) (hlt : pid < 2147483648) :
    nextPid pid < 2147483648 := by
  rw [nextPid_of_pos h1 hlt]
  split_ifs <;> omega

/-! ## One step -/

/-- `pid` is a pid of slot `i`. -/
def PidOf (pid : ℤ) (i : Fin pcbTableSize) : Prop := 1 ≤ pid ∧ slotOfPid pid = i

instance (pid : ℤ) (i : Fin pcbTableSize) : Decidable (PidOf pid i) :=
  inferInstanceAs (Decidable (_ ∧ _))

variable {Q : Type} [ProcLists Q]

/-- In step `k` of the run, `syscreate` returns the pid of a process in slot `i`. -/
def CreatesIn (r : Run Q) (i : Fin pcbTableSize) (k : ℕ) : Prop :=
  (r.input k).request = some .create ∧
    PidOf ((r.state (k + 1)).pcb (r.state k).currproc).ret i

instance (r : Run Q) (i : Fin pcbTableSize) : DecidablePred (CreatesIn r i) := fun _ =>
  inferInstanceAs (Decidable (_ ∧ _))

variable {s s' : KernelOf Q}

theorem not_pidOf {pid : ℤ} (h : pid < 1) (i : Fin pcbTableSize) : ¬ PidOf pid i := by
  intro hp
  exact absurd hp.1 (by omega)

theorem pidOf_nextPid {pid : ℤ} (h1 : 1 ≤ pid) (hnext : 1 ≤ nextPid pid) :
    PidOf (nextPid pid) (slotOfPid pid) := ⟨hnext, slotOfPid_nextPid h1⟩

omit [ProcLists Q] in
theorem verifyUsrptr_refused {h : Heap} {a : ℕ} {len x : ℤ} (hx : h.verifyUsrptr a len = some x)
    (hne : x ≠ ok) : x = einval := by
  unfold Heap.verifyUsrptr at hx
  obtain ⟨_, -, hx⟩ := Option.bind_eq_some_iff.mp hx
  dsimp only at hx
  split_ifs at hx
  · exact (Option.some.inj hx).symm
  · exact (Option.some.inj hx).symm
  · exact absurd (Option.some.inj hx).symm hne

/-- `syscreate` changes the pid of the slot whose pid it returns, and no other one. -/
theorem dispatchSyscallCreate_pid {x : ℤ × KernelOf Q} (h : Sane s) (ho : KernelOf.Orderly none s)
    (hs : s.dispatchSyscallCreate = some x) (i : Fin pcbTableSize) :
    (PidOf ((setRetOf x).pcb s.currproc).ret i ∧ 1 ≤ nextPid (s.pcb (.table i)).pid ∧
        ((setRetOf x).pcb (.table i)).pid = nextPid (s.pcb (.table i)).pid) ∨
      (¬ PidOf ((setRetOf x).pcb s.currproc).ret i ∧
        ((setRetOf x).pcb (.table i)).pid = (s.pcb (.table i)).pid) := by
  obtain ⟨x, u⟩ := x
  rw [setRetOf_mk]
  have hpid : ∀ p, ((u.setRet x).pcb p).pid = (u.pcb p).pid := by
    intro p
    unfold setRet
    rw [setPcb_toCore, Core.setPcb_pcb]
    split_ifs with hp
    · rw [hp]
    · rfl
  have hret : u.currproc = s.currproc → ((u.setRet x).pcb s.currproc).ret = x := by
    intro hc
    unfold setRet
    rw [hc, setPcb_toCore, Core.setPcb_pcb_self]
  rw [hpid]
  have hkept : u.currproc = s.currproc → x < 1 → u.pcb = s.pcb →
      ¬ PidOf ((u.setRet x).pcb s.currproc).ret i ∧
        (u.pcb (.table i)).pid = (s.pcb (.table i)).pid := by
    intro hc hx hu
    rw [hret hc, hu]
    exact ⟨not_pidOf hx i, rfl⟩
  unfold dispatchSyscallCreate at hs
  dsimp only at hs
  obtain ⟨result, hres, hs⟩ := Option.bind_eq_some_iff.mp hs
  split_ifs at hs with hne
  · obtain ⟨rfl, rfl⟩ := Prod.mk.inj (Option.some.inj hs)
    exact .inr (hkept rfl (by rw [verifyUsrptr_refused hres hne]; decide) rfl)
  · cases create_creation hs with
    | failed x heap hr _ =>
      refine .inr (hkept rfl ?_ rfl)
      rcases hr with rfl | rfl | rfl <;> decide
    | recycled q k heap table hh hq _ =>
      right
      rw [hret rfl]
      refine ⟨not_pidOf (by decide) i, ?_⟩
      by_cases hiq : PcbPtr.table i = q
      · rw [hiq, withSlot_pcb_self]
      · rw [withSlot_pcb_ne _ _ _ hiq]
        rfl
    | created q k heap table b sp hh hq hnext _ =>
      rw [hret rfl]
      obtain ⟨j, rfl⟩ : ∃ j, q = .table j := by
        cases hj : q with
        | idle => exact absurd hj (ho.head q hh).2
        | table j => exact ⟨j, rfl⟩
      obtain ⟨h1, hslot⟩ := h.pids j
      have hpj := pidOf_nextPid h1 hnext
      rw [hslot] at hpj
      by_cases hij : i = j
      · left
        subst hij
        rw [withSlot_pcb_self]
        exact ⟨hpj, hnext, rfl⟩
      · right
        refine ⟨fun hpi => hij (hpi.2.symm.trans hpj.2), ?_⟩
        have hne : PcbPtr.table i ≠ .table j := fun heq => hij (PcbPtr.table.inj heq)
        rw [withSlot_pcb_ne _ _ _ hne]
        rfl

variable [LawfulProcLists Q] [CheckedProcLists Q]

/-- A step changes the pid of a slot if and only if it creates a process there. -/
theorem pid_step (r : Run Q) {k : ℕ} (hk : k < r.len) (i : Fin pcbTableSize) :
    (CreatesIn r i k ∧ 1 ≤ nextPid ((r.state k).pcb (.table i)).pid ∧
        ((r.state (k + 1)).pcb (.table i)).pid = nextPid ((r.state k).pcb (.table i)).pid) ∨
      (¬ CreatesIn r i k ∧
        ((r.state (k + 1)).pcb (.table i)).pid = ((r.state k).pcb (.table i)).pid) := by
  obtain ⟨s, req, heff⟩ := r.effect hk
  obtain ⟨s', req', hs', -, hsame, hsane, -⟩ := r.device hk
  rw [heff.trap] at hs'
  obtain rfl := Option.some.inj hs'
  have hpid : (s.pcb (.table i)).pid = ((r.state k).pcb (.table i)).pid := hsame.pid _
  by_cases hreq : req = .create
  · have ho := (hsame.tidy (r.tidy hk.le)).orderly
    have hdis := heff.handled
    unfold dispatchRequest at hdis
    rw [hreq] at hdis
    obtain ⟨x, hx, heq⟩ := Option.map_eq_some_iff.mp hdis
    have hcreate : (r.input k).request = some .create := by rw [heff.request, hreq]
    have hstep := dispatchSyscallCreate_pid hsane ho hx i
    rw [heq, hpid, heff.currproc] at hstep
    rcases hstep with ⟨hp, hstep⟩ | ⟨hp, hstep⟩
    · exact .inl ⟨⟨hcreate, hp⟩, hstep⟩
    · exact .inr ⟨fun hc => hp hc.2, hstep⟩
  · right
    constructor
    · rintro ⟨hc, -⟩
      rw [heff.request] at hc
      exact hreq (Option.some.inj hc)
    · rw [← hpid]
      cases heff.data (.table i) with
      | same _ h => exact h.pid
      | charged _ _ h => exact h.pid
      | marked sig _ _ h => exact h.pid
      | returned _ _ h => exact h.pid
      | filled hc => exact absurd hc hreq
      | ended f _ _ _ h => exact h.pid
      | descriptors f _ _ h => exact h.pid

/-- What a step leaves in the slot it creates a process in. -/
theorem created_pcb (r : Run Q) {k : ℕ} (hk : k < r.len) {i : Fin pcbTableSize}
    (hc : CreatesIn r i k) : ∃ (pid : ℤ) (table b sp : ℕ),
      (r.state (k + 1)).pcb (.table i) =
        { freshPcb table with pid := pid, memoryRegion := b, esp := sp, currState := .ready } := by
  obtain ⟨s, req, heff⟩ := r.effect hk
  have h1 := ((r.sane hk.le).pids i).1
  have hpid : (s.pcb (.table i)).pid = ((r.state k).pcb (.table i)).pid := by
    obtain ⟨s', req', hs', -, hsame, -⟩ := r.device hk
    rw [heff.trap] at hs'
    obtain rfl := Option.some.inj hs'
    exact hsame.pid _
  have hnew : ((r.state (k + 1)).pcb (.table i)).pid ≠ (s.pcb (.table i)).pid := by
    rcases pid_step r hk i with ⟨-, hnext, h⟩ | ⟨hno, -⟩
    · rw [h, hpid]
      exact nextPid_ne h1
    · exact absurd hc hno
  cases heff.data (.table i) with
  | same _ h => exact absurd h.pid hnew
  | charged _ _ h => exact absurd h.pid hnew
  | marked sig _ _ h => exact absurd h.pid hnew
  | returned _ _ h => exact absurd h.pid hnew
  | ended f _ _ _ h => exact absurd h.pid hnew
  | descriptors f _ _ h => exact absurd h.pid hnew
  | filled _ _ _ h =>
    generalize (r.state (k + 1)).pcb (.table i) = y at h hnew ⊢
    cases h with
    | free table => exact absurd rfl hnew
    | created table b sp _ => exact ⟨_, table, b, sp, rfl⟩

/-! ## Runs -/

omit [CheckedProcLists Q] in
/-- The pids after booting, when the first process is in slot 0, if there was memory for it. -/
theorem boot_pid {image : Image} {mem : Memory} {root : ℕ}
    (hs : (boot image mem root : Option (KernelOf Q)) = some s) (i : Fin pcbTableSize) :
    (s.pcb (.table i)).pid = i.val + 1 ∨ i = 0 ∧ (s.pcb (.table i)).pid = 33 := by
  obtain ⟨s1, b, ⟨x, s2⟩, htable, -, htr, hx, hs⟩ := boot_stages hs
  have hrest := (htable.atRest htr).create hx
  obtain ⟨s3, hs3, hb3⟩ := (Becomes.refl hrest.good.wf).then_reschedule hrest.good.inv
  rw [hs] at hs3
  obtain rfl := Option.some.inj hs3
  have hlast : (s.pcb (.table i)).pid = (s2.pcb (.table i)).pid := by
    rw [hb3.pcb]
    rcases dispatch_proc hrest.good.inv (.table i) with heq | ⟨-, heq⟩ <;> rw [heq] <;> rfl
  have hfirst : (s1.pcb (.table i)).pid = i.val + 1 := by
    rw [htable.table]
    rfl
  have hhead : ∀ q, ProcLists.head s1.queues (.proc .stopped) = some q → q = .table 0 := by
    intro q hq
    rw [LawfulProcLists.head htable.wf, htable.stopped] at hq
    exact (Option.some.inj hq).symm
  have hother : ∀ (k : Q) (heap : Heap) (y : Pcb), i ≠ 0 →
      (((s1.setQueues k).withSlot heap (.table 0) y).pcb (.table i)).pid = i.val + 1 := by
    intro k heap y hi
    rw [withSlot_pcb_ne _ _ _ (by simpa using hi)]
    exact hfirst
  rw [hlast]
  cases create_creation hx with
  | failed _ heap _ _ => exact .inl hfirst
  | recycled q k heap table hh _ _ =>
    obtain rfl := hhead q hh
    left
    by_cases hi : i = 0
    · rw [← hi, withSlot_pcb_self]
      exact hfirst
    · exact hother k heap _ hi
  | created q k heap table b sp hh _ _ _ =>
    obtain rfl := hhead q hh
    by_cases hi : i = 0
    · right
      refine ⟨hi, ?_⟩
      rw [← hi, withSlot_pcb_self]
      dsimp only
      rw [hfirst, hi]
      rfl
    · exact .inl (hother k heap _ hi)

/-- Pids are numbers of 31 bits. -/
theorem pid_lt (r : Run Q) {n : ℕ} (hn : n ≤ r.len) (i : Fin pcbTableSize) :
    ((r.state n).pcb (.table i)).pid < 2147483648 := by
  induction n with
  | zero =>
    have hi : i.val < 32 := i.isLt
    rcases boot_pid r.start i with h | ⟨-, h⟩ <;> omega
  | succ n ih =>
    have hlt := ih (by omega)
    have h1 := ((r.sane (n := n) (by omega)).pids i).1
    rcases pid_step r hn i with ⟨-, -, h⟩ | ⟨-, h⟩
    · rw [h]
      exact nextPid_lt h1 hlt
    · rw [h]
      exact hlt

/-- The number of processes that the steps from `m` on, before `n`, create in slot `i`. -/
def creations (r : Run Q) (i : Fin pcbTableSize) (m n : ℕ) : ℕ :=
  Nat.count (fun k => CreatesIn r i (m + k)) (n - m)

omit [LawfulProcLists Q] [CheckedProcLists Q] in
theorem creations_self (r : Run Q) (i : Fin pcbTableSize) (m : ℕ) : creations r i m m = 0 := by
  unfold creations
  rw [Nat.sub_self]
  rfl

omit [LawfulProcLists Q] [CheckedProcLists Q] in
theorem creations_succ (r : Run Q) (i : Fin pcbTableSize) {m n : ℕ} (hmn : m ≤ n) :
    creations r i m (n + 1) = creations r i m n + if CreatesIn r i n then 1 else 0 := by
  unfold creations
  rw [Nat.sub_add_comm hmn, Nat.count_succ]
  rw [Nat.add_sub_cancel' hmn]

theorem slot_pid (r : Run Links) {m n : ℕ} (hmn : m ≤ n) (hn : n ≤ r.len) (i : Fin pcbTableSize) :
    ((r.state n).pcb (.table i)).pid =
      pidAfter ((r.state m).pcb (.table i)).pid (creations r i m n) := by
  have h1 := ((r.sane (hmn.trans hn)).pids i).1
  have hlt := pid_lt r (hmn.trans hn) i
  induction n, hmn using Nat.le_induction with
  | base => rw [creations_self, pidAfter_zero h1 hlt]
  | succ n hmn ih =>
    have hpos := ((r.sane (n := n) (by omega)).pids i).1
    have hsmall := pid_lt r (n := n) (by omega) i
    rw [creations_succ r i hmn, ← pidAfter_add, ← ih (by omega)]
    rcases pid_step r hn i with ⟨hc, hnext, h⟩ | ⟨hc, h⟩
    · rw [if_pos hc, h]
      exact nextPid_eq hpos hsmall hnext
    · rw [if_neg hc, h, pidAfter_zero hpos hsmall]

theorem slot_pid_eq_iff (r : Run Links) {m n : ℕ} (hmn : m ≤ n) (hn : n ≤ r.len)
    (i : Fin pcbTableSize) :
    ((r.state n).pcb (.table i)).pid = ((r.state m).pcb (.table i)).pid ↔
      pidsPerSlot ∣ creations r i m n := by
  rw [slot_pid r hmn hn i]
  exact pidAfter_eq_self_iff ((r.sane (hmn.trans hn)).pids i).1 (pid_lt r (hmn.trans hn) i) _

/-- In every run, with devices or without, the pid of a slot counts the processes created in it:
32 for each, in 31 bits.  So it comes back exactly after every `pidsPerSlot` processes. -/
theorem pid_counts_creations (r : Run Links) {m n : ℕ} (hmn : m ≤ n) (hn : n ≤ r.len)
    (i : Fin pcbTableSize) :
    ((r.state n).pcb (.table i)).pid =
        pidAfter ((r.state m).pcb (.table i)).pid (creations r i m n) ∧
      (((r.state n).pcb (.table i)).pid = ((r.state m).pcb (.table i)).pid ↔
        pidsPerSlot ∣ creations r i m n) := by
  constructor
  · exact slot_pid r hmn hn i
  · exact slot_pid_eq_iff r hmn hn i

/-- The root creates a process in slot 1. -/
theorem pid_counts_creations_first : ∃ r : Run Links, r.len = 1 ∧
    ((r.state 0).pcb (.table 1)).pid = 2 ∧ ((r.state 1).pcb (.table 1)).pid = 34 ∧
      pidAfter 2 (creations r 1 0 1) = 34 := by
  obtain ⟨r, hlen, -, -, htest⟩ := exists_run (Q := Links) smallPc 40300 (fun _ _ => True)
    [.call [2, 40400, 8192] []]
    (fun n s => decide ((n = 0 → (s.pcb (.table 1)).pid = 2) ∧
      (n = 1 → (s.pcb (.table 1)).pid = 34))) (by decide +kernel)
  have h0 := (of_decide_eq_true (htest 0 (by decide))).1 rfl
  have h1 := (of_decide_eq_true (htest 1 (by decide))).2 rfl
  have hlen1 : r.len = 1 := hlen
  have hpid := (pid_counts_creations r (m := 0) (n := 1) (by omega) (by omega) 1).1
  rw [h0, h1] at hpid
  exact ⟨r, hlen1, h0, h1, hpid.symm⟩

/-! ## What a pid stands for -/

theorem pidToProc_eq_some_iff {s : Kernel} {pid : ℤ} {p : PcbPtr} :
    s.pidToProc pid = some p ↔ 1 ≤ pid ∧ p = .table (slotOfPid pid) ∧ (s.pcb p).pid = pid ∧
      (s.pcb p).currState ≠ .stopped := by
  unfold Core.pidToProc
  dsimp only
  constructor
  · intro h
    split_ifs at h with h1 h2
    obtain rfl := Option.some.inj h
    exact ⟨h1, rfl, h2⟩
  · rintro ⟨h1, rfl, h2⟩
    rw [if_pos h1, if_pos h2]

theorem creations_mono (r : Run Links) (i : Fin pcbTableSize) {m k n : ℕ} (hmk : m ≤ k)
    (hkn : k ≤ n) : creations r i m k ≤ creations r i m n := by
  unfold creations
  exact Nat.count_monotone _ (by omega)

/-- A process that has stopped stays stopped while no process is created in its slot. -/
theorem stopped_stays (r : Run Links) {k : ℕ} (hk : k < r.len) (hd : r.Deviceless (k + 1))
    {i : Fin pcbTableSize} (hst : ((r.state k).pcb (.table i)).currState = .stopped)
    (hno : ¬ CreatesIn r i k) : ((r.state (k + 1)).pcb (.table i)).currState = .stopped := by
  obtain ⟨s, req, e, -, hreq, hready, hview, hh, he, hv⟩ := r.event hk hd
  have hcur : s.view.currproc = (r.state k).currproc := by
    rw [hview]
    rfl
  have hne : PcbPtr.table i ≠ (r.state k).currproc := by
    intro hc
    have hrun := (r.ready hk.le (hd.mono k.le_succ)).running
    rw [hc, hrun] at hst
    exact absurd hst (by simp)
  have hproc : s.view.proc (.table i) = ((r.state k).pcb (.table i)).view := by
    rw [hview]
    exact View.setRet_proc_ne _ _ hne
  have hstop : (s.view.proc (.table i)).state = .stopped := by
    rw [hproc]
    exact hst
  have hnext : ∀ p, ((r.state (k + 1)).pcb p).view = (e.apply s.view).proc p := by
    intro p
    rw [← hv]
    rfl
  rcases Event.stopped_step hready.sound he (by simp) hstop with hs | ⟨pid, rfl⟩
  · exact (congrArg ProcView.state (hnext _)).trans hs
  · exfalso
    obtain ⟨-, -, h1, hslot⟩ := he
    have hret : ((r.state (k + 1)).pcb (r.state k).currproc).ret = pid := by
      rw [← hcur]
      refine (congrArg ProcView.ret (hnext _)).trans ?_
      exact congrArg ProcView.ret (View.setRet_proc_self _ _ _)
    refine hno ⟨?_, ?_⟩
    · rw [hreq]
      cases hh
      rfl
    · rw [hret]
      refine ⟨h1, hslot.trans ?_⟩
      rw [hproc]
      exact ((r.sane hk.le).pids i).2

/-- In every run with no device open, a pid that stands for a process at two times stands for the
same process all the time between them, unless `pidsPerSlot` processes were created in its slot:
nobody else has it, and the process does not end and come back. -/
theorem pid_names_one_process (r : Run Links) {m n : ℕ} (hmn : m ≤ n) (hn : n ≤ r.len)
    (hd : r.Deviceless n) {pid : ℤ} {p q : PcbPtr} (hm : (r.state m).pidToProc pid = some p)
    (hq : (r.state n).pidToProc pid = some q)
    (hfew : creations r (slotOfPid pid) m n < pidsPerSlot) :
    q = p ∧ ∀ k, m ≤ k → k ≤ n → (r.state k).pidToProc pid = some p := by
  obtain ⟨h1, rfl, hpidm, -⟩ := pidToProc_eq_some_iff.mp hm
  obtain ⟨-, rfl, hpidn, hlive⟩ := pidToProc_eq_some_iff.mp hq
  have hdvd := (slot_pid_eq_iff r hmn hn (slotOfPid pid)).mp (by rw [hpidn, hpidm])
  have hnone := Nat.eq_zero_of_dvd_of_lt hdvd hfew
  refine ⟨rfl, fun k hmk hkn => pidToProc_eq_some_iff.mpr ⟨h1, rfl, ?_, fun hst => ?_⟩⟩
  · have hk : creations r (slotOfPid pid) m k = 0 := by
      have hle := creations_mono r (slotOfPid pid) hmk hkn
      omega
    have hback := (slot_pid_eq_iff r hmk (hkn.trans hn) (slotOfPid pid)).mpr (by
      rw [hk]
      exact dvd_zero _)
    rw [hback, hpidm]
  · -- it would still be stopped at step `n`
    refine hlive ?_
    clear hq hlive hpidn hdvd hfew
    induction n, hkn using Nat.le_induction with
    | base => exact hst
    | succ n hkn ih =>
      rw [creations_succ r _ (hmk.trans hkn)] at hnone
      have hno : ¬ CreatesIn r (slotOfPid pid) n := by
        intro hc
        rw [if_pos hc] at hnone
        omega
      refine stopped_stays r hn hd ?_ hno
      exact ih (by omega) (by omega) (hd.mono n.le_succ) (by omega)

/-- The root is process 33 while it creates another process and asks for its pid. -/
theorem pid_names_one_process_root : ∃ r : Run Links, r.len = 2 ∧
    ∀ k ≤ 2, (r.state k).pidToProc 33 = some (.table 0) := by
  obtain ⟨r, hlen, hcheck, -, htest⟩ := exists_run (Q := Links) smallPc 40300
    (fun _ t => KernelOf.Deviceless t) [.call [2, 40400, 8192] [], .call [5] []]
    (fun n s => decide ((n = 0 → s.pidToProc 33 = some (.table 0)) ∧
      (n = 2 → s.pidToProc 33 = some (.table 0)))) (by decide +kernel)
  have h0 := (of_decide_eq_true (htest 0 (by decide))).1 rfl
  have h2 := (of_decide_eq_true (htest 2 (by decide))).2 rfl
  have hlen2 : r.len = 2 := hlen
  have hd : r.Deviceless 2 := fun k hk => hcheck k (by omega)
  have hfew : creations r (slotOfPid 33) 0 2 < pidsPerSlot := by
    have hle : creations r (slotOfPid 33) 0 2 ≤ 2 := Nat.count_le _
    have hbig : pidsPerSlot = 67108864 := rfl
    omega
  have hall := (pid_names_one_process r (m := 0) (n := 2) (by omega) (by omega) hd h0 h2 hfew).2
  exact ⟨r, hlen2, fun k hk => hall k (Nat.zero_le k) hk⟩

end Xeros.Analysis
