import Xeros.Refinement.AccountSteps

/-!
# The requests that the kernel survives

A failed assertion stops the kernel for good, and so does a loop that does not end.  Here are the
handlers that never do either, and for `create` exactly when it does.
-/

set_option autoImplicit false

namespace Xeros.Model

open Xeros.Foundations Xeros.Abstract Xeros.Interface Xeros.Refinement

/-! ## Checking a pointer -/

/-- A length that `verify_usrptr` asserts not to be given. -/
def Unchecked (len : ℕ) : Prop := ¬ (0 < toInt len ∧ toInt len < kernelStack)

instance (len : ℕ) : Decidable (Unchecked len) := inferInstanceAs (Decidable (¬ _))

/-- `verify_usrptr` returns for the lengths that it accepts. -/
theorem verifyUsrptr_total (h : Heap) (a : ℕ) (len : ℤ) (h0 : 0 < len) (h1 : len < kernelStack) :
    ∃ r, h.verifyUsrptr a len = some r := by
  unfold Heap.verifyUsrptr
  rw [cAssert_pos ⟨h0, h1⟩]
  dsimp only [Option.bind_eq_bind, Option.bind_some]
  split_ifs
  · exact ⟨_, rfl⟩
  · exact ⟨_, rfl⟩
  · exact ⟨_, rfl⟩

theorem verifyUsrptr_unchecked (h : Heap) (a : ℕ) {len : ℕ} (hl : Unchecked len) :
    h.verifyUsrptr a (toInt len) = none := by
  unfold Heap.verifyUsrptr
  rw [cAssert_eq_none.mpr hl]
  rfl

/-! ## Scheduling -/

theorem bind_total {α β : Type} {x : Option α} {f : α → Option β} {a : α} (hx : x = some a)
    (hf : ∃ b, f a = some b) : ∃ b, (x >>= f) = some b := by
  obtain ⟨b, hb⟩ := hf
  exact ⟨b, Option.bind_eq_some_iff.mpr ⟨a, hx, hb⟩⟩

namespace KernelOf

variable {Q : Type} [ProcLists Q] [LawfulProcLists Q] {s : KernelOf Q}
  {run : Option PcbPtr}

theorem yield_total (h : Good (some s.currproc) s) :
    ∃ s', (s.addPcbToQueue s.currproc .ready >>= fun u => u.reschedule) = some s' := by
  obtain ⟨u, hu, hb⟩ := preempt_spec h
  obtain ⟨s', hs', -⟩ := hb.then_reschedule h.inv.preempt
  exact bind_total hu ⟨s', hs'⟩

theorem timerHandler_total (h : Ready s) : ∃ s', s.timerHandler = some s' := by
  obtain ⟨s1, hs1⟩ : ∃ s1, s1 = s.setPcb s.currproc
    fun x => { x with cpuTime := wrapInt (x.cpuTime + 1) } := ⟨_, rfl⟩
  have hview : s1.view = s.view := by
    rw [hs1, view_setPcb]
    exact View.set_eq_self (by simp only [view_proc, Pcb.view])
  have hwf : LawfulProcLists.WellFormed s1.queues := by
    rw [hs1]
    exact h.wf
  have hg : Good (some s.currproc) s1 := ⟨hwf, by rw [hview]; exact h.sound.inv⟩
  obtain ⟨s2, hs2, hb⟩ := tick_spec hg (by rw [hview]; exact h.sound.delta)
    (by rw [hview]; exact h.sound.head)
  have ht := Abstract.tick_spec h.sound.inv h.sound.delta h.sound.head
  rw [hview] at hb
  have hc : s2.currproc = s.currproc := hb.currproc.trans ht.currproc
  unfold timerHandler
  rw [← hs1]
  exact bind_total hs2 (yield_total (hb.good (by rw [hc]; exact ht.inv)))

theorem sleep_total (h : Ready s) (hcur : s.currproc ≠ .idle) :
    ∃ s', s.dispatchSyscallSleep = some s' := by
  unfold dispatchSyscallSleep
  dsimp only
  split_ifs with h0
  · exact ⟨s, rfl⟩
  · obtain ⟨u, hu, hb⟩ := sleep_spec h.good h.sound.delta (Nat.pos_of_ne_zero h0)
      (load32_lt _ _)
    obtain ⟨s', hs', -⟩ := hb.then_reschedule (sleep_inv h.sound.inv hcur)
    exact bind_total hu ⟨s', hs'⟩

theorem kill_total (h : Ready s) : ∃ r, s.dispatchSyscallKill = some r := by
  unfold dispatchSyscallKill
  dsimp only
  cases hp : s.pidToProc (toInt (s.arg 0)) with
  | none => exact ⟨_, rfl⟩
  | some p =>
    obtain ⟨hpi, -, -⟩ := (pidToProc_eq_some_iff h.sound.inv).mp hp
    obtain ⟨r, s', hs', -⟩ := setProcSignal_spec h.good h.sound.delta hpi (toInt (s.arg 1))
    exact ⟨_, hs'⟩

theorem wait_total (h : Ready s) (hcur : s.currproc ≠ .idle) :
    ∃ s', s.dispatchSyscallWait = some s' := by
  unfold dispatchSyscallWait
  dsimp only
  cases ho : s.pidToProc (toInt (s.arg 0)) with
  | none => exact ⟨_, rfl⟩
  | some o =>
    obtain ⟨hoi, -, hos⟩ := (pidToProc_eq_some_iff h.sound.inv).mp ho
    have hb := becomes_setPcb h.wf s.currproc fun x => { x with state := .blocked }
    obtain ⟨u, hu, hbu⟩ := addProcToBlockingQueue_spec (p := s.currproc) hb.wf
      (fun i => not_mem_currproc h i) o .waiting
    have hblock : s.blockCurrent.addProcToBlockingQueue s.blockCurrent.currproc o .waiting =
        some u := hu
    have hb2 := hb.trans hbu
    rw [hb.view] at hb2
    have hc : u.currproc = s.currproc := hb2.currproc
    have hb3 := becomes_block h hcur (o := o) (.inr (.inr rfl) : owned .waiting) hb2
      ⟨.blocked, (s.pcb s.currproc).ret, by
        unfold View.enqueue View.set
        simp [Pcb.view]⟩ 0
    have hblk : (u.pcb s.currproc).currState = .blocked := by
      rw [hb2.pcb]
      simp [Pcb.withView, View.enqueue]
    have hself : (u.setPcb s.currproc fun x => { x with currState := .blocked }) = u := by
      refine setPcb_eq_self ?_
      rw [← hblk]
    rw [hself] at hb3
    obtain ⟨s', hs', -⟩ := hb3.then_reschedule
      (h.sound.inv.block hcur hoi hos (.inr (.inr rfl) : owned .waiting) 0)
    refine bind_total hblock ⟨s', ?_⟩
    unfold setRet
    rw [hc]
    exact hs'

/-! ## Messages -/

omit [LawfulProcLists Q] in
theorem finishMsg_ok_total (u : KernelOf Q) : ∃ s', finishMsg (syspidOk, u) = some s' := by
  have hne : syspidOk ≠ blockerr := by decide
  unfold finishMsg
  rw [if_neg hne]
  exact ⟨_, rfl⟩

/-- The running process has joined a queue, and the next one is dispatched. -/
theorem finishMsg_blocks_total (h : Ready s) (hcur : s.currproc ≠ .idle) {o : PcbPtr}
    (ho : o ≠ .idle ∧ (s.pcb o).currState ≠ .stopped) {q : BlockingQueue} (hq : owned q)
    {u : KernelOf Q} (hb : Becomes s (s.view.enqueue s.currproc o q) u) :
    ∃ s', finishMsg (blockerr, u) = some s' := by
  have hc : u.currproc = s.currproc := hb.currproc
  have hb2 := becomes_block h hcur (o := o) hq (hb.then_setRet rfl blockerr)
    ⟨.running, blockerr, by
      have hrun := h.running
      unfold View.enqueue View.set View.setRet View.set
      simp [Pcb.view, hrun]⟩ syspidDne
  obtain ⟨s', hs', -⟩ := hb2.then_reschedule (h.sound.inv.block hcur ho.1 ho.2 hq syspidDne)
  refine ⟨s', ?_⟩
  unfold finishMsg
  rw [if_pos rfl, ← hs']
  unfold blockCurrent setRet
  simp only [setPcb_toCore, Core.setPcb_currproc, hc]

theorem send_total (h : Ready s) (hcur : s.currproc ≠ .idle) {dst : PcbPtr} {buffer len : ℕ}
    (hd : s.pidToProc (toInt (s.arg 0)) = some dst) (hbuf : buffer ≠ 0 ∧ 0 < len) :
    ∃ s', (s.send s.currproc dst buffer len >>= finishMsg) = some s' := by
  obtain ⟨hdi, -, hds⟩ := (pidToProc_eq_some_iff h.sound.inv).mp hd
  by_cases hany : (s.pcb dst).blockingQueueName = .receiveAny
  · have hblk := blocked_of_queue h.sound.inv hdi hds (by rw [hany]; simp)
    obtain ⟨u, hu⟩ : ∃ u, s.send s.currproc dst buffer len = some (syspidOk, u) :=
      (send_any h.good hdi hblk hany hbuf).imp fun _ hu => hu.1
    exact bind_total hu (finishMsg_ok_total u)
  by_cases hrecv : (s.pcb dst).blockingQueueName = .receiver ∧
      (s.pcb dst).blockingProc = some s.currproc
  · have hblk := blocked_of_queue h.sound.inv hdi hds (by rw [hrecv.1]; simp)
    obtain ⟨u, hu, -⟩ := send_receiver h.good hdi hblk hrecv.1 hrecv.2 hbuf
    exact bind_total hu (finishMsg_ok_total u)
  · obtain ⟨u, hu, hb⟩ := send_blocks h.good (fun i => not_mem_currproc h i) hany
      (not_and_or.mp hrecv) hbuf
    exact bind_total hu
      (finishMsg_blocks_total h hcur ⟨hdi, hds⟩ (.inl rfl : owned .sender) hb)

theorem recv_total (h : Ready s) (hcur : s.currproc ≠ .idle) {src : PcbPtr} {buffer len : ℕ}
    {pid : ℤ} (hp : s.pidToProc pid = some src) (hbuf : buffer ≠ 0 ∧ 0 < len) :
    ∃ s', (s.recv src s.currproc buffer len >>= finishMsg) = some s' := by
  obtain ⟨hsi, -, hss⟩ := (pidToProc_eq_some_iff h.sound.inv).mp hp
  by_cases hsend : (s.pcb src).blockingQueueName = .sender ∧
      (s.pcb src).blockingProc = some s.currproc
  · have hblk := blocked_of_queue h.sound.inv hsi hss (by rw [hsend.1]; simp)
    obtain ⟨u, hu, -⟩ := recv_sender h.good hsi hblk hsend.1 hsend.2 hbuf
    exact bind_total hu (finishMsg_ok_total u)
  · obtain ⟨u, hu, hb⟩ := recv_blocks h.good (fun i => not_mem_currproc h i)
      (not_and_or.mp hsend) hbuf
    exact bind_total hu
      (finishMsg_blocks_total h hcur ⟨hsi, hss⟩ (.inr (.inl rfl) : owned .receiver) hb)

theorem recvAny_total (h : Ready s) (hcur : s.currproc ≠ .idle) {buffer len : ℕ}
    (hbuf : buffer ≠ 0 ∧ 0 < len) :
    ∃ s', (s.recvAny s.currproc buffer len >>= finishMsg) = some s' := by
  cases hl : s.view.lists (.queue (.blocking s.currproc .sender)) with
  | nil =>
    have hrun := h.running
    have hfree : (s.pcb s.currproc).blockingProc = none :=
      ((h.sound.inv.consistent _ hcur).free (.inr hrun)).2
    have hb := becomes_setPcb h.wf s.currproc fun x =>
      { x with state := .blocked, queue := .receiveAny, ret := syspidDne }
    have hset : s.view.set s.currproc (fun x =>
        { x with state := .blocked, queue := .receiveAny, ret := syspidDne }) =
        s.view.blockAlone .receiveAny syspidDne := by
      rw [View.blockAlone_eq (rfl : s.currproc = s.view.currproc) (not_mem_currproc h)
        (by simp [owned]) (by simp)]
      unfold View.set
      simp only [view_proc, Pcb.view, hfree]
    rw [hset] at hb
    obtain ⟨s', hs', -⟩ := hb.then_reschedule (h.sound.inv.blockAlone hcur (.inl rfl) syspidDne)
    refine bind_total (recvAny_blocks h.good hl hbuf) ⟨s', ?_⟩
    unfold finishMsg blockCurrent setRet
    rw [if_pos rfl, ← hs']
    simp only [setPcb_toCore, Core.setPcb_currproc, setPcb_setPcb]
    rfl
  | cons src rest =>
    obtain ⟨u, hu, -⟩ := recvAny_sender h.good hl hbuf
    exact bind_total hu (finishMsg_ok_total u)

/-! ## The ends of processes -/

theorem exit_total (h : Ready s) (hcur : s.currproc ≠ .idle) {F : List Block}
    (hM : Managed s.toHeap F s.liveBlocks) :
    ∃ s', (s.cleanupProc s.currproc >>= fun u => u.reschedule) = some s' := by
  obtain ⟨i, hi⟩ := PcbPtr.exists_table hcur
  have hlive : (s.pcb (.table i)).currState ≠ .stopped := by
    rw [← hi, h.running]
    simp
  obtain ⟨-, h1, h2, hk1, hk2, -⟩ := frees_total hM hlive
  rw [← hi] at hk1 hk2
  have hfree1 : s.kfree (s.pcb s.currproc).memoryRegion = some (s.setHeap h1) := by
    unfold kfree
    rw [hk1]
    rfl
  have hfree2 : (s.setHeap h1).kfree ((s.setHeap h1).pcb s.currproc).signalTable =
      some ((s.setHeap h1).setHeap h2) := by
    unfold kfree
    rw [Option.map_eq_some_iff]
    exact ⟨h2, hk2, rfl⟩
  obtain ⟨u, hu, hb⟩ := cleanupProc_spec h.good hcur hfree1 hfree2
  obtain ⟨s', hs', -⟩ := hb.then_reschedule (terminate_spec h.sound.inv hcur).inv
  exact bind_total hu ⟨s', hs'⟩

/-! ## Creating processes -/

/-- The pid after which the pids of the last slot wrap around to 0. -/
abbrev lastPid : ℤ := 2147483616

/-- There is memory for the stack and for the signal table of a new process. -/
def HasRoom (h : Heap) (stack : ℤ) : Prop :=
  ∃ b h1 t h2, h.kmalloc (toWord (stackSize stack)) = some (b, h1) ∧ b ≠ 0 ∧
    h1.kmalloc (signalTableSize * 4) = some (t, h2) ∧ t ≠ 0

omit [ProcLists Q] [LawfulProcLists Q] in
theorem nextPid_pos_iff {pid : ℤ} (h1 : 1 ≤ pid) (hlt : pid < 2147483648) :
    1 ≤ nextPid pid ↔ pid ≠ lastPid := by
  have htmod : pid.tmod pcbTableSize = pid % 32 := Int.tmod_eq_emod_of_nonneg (by omega)
  have htable : ((pcbTableSize : ℕ) : ℤ) = 32 := rfl
  unfold nextPid
  dsimp only
  rw [htmod, htable]
  have hlast : lastPid = 2147483616 := rfl
  rw [hlast]
  unfold wrapInt
  split_ifs <;> omega

/-- The assertion on the new pid, and nothing else, makes `create` fail. -/
theorem create_none_iff (h : Good run s) {F L : List Block} (hM : Managed s.toHeap F L)
    {func : ℕ} (hf : func ≠ 0) (stack : ℤ)
    (hpid : ∀ i, (s.pcb (.table i)).pid < 2147483648) :
    s.create func stack = none ↔ HasRoom s.toHeap stack ∧
      ∃ p, ProcLists.head s.queues (.proc .stopped) = some p ∧ (s.pcb p).pid = lastPid := by
  have hhead := LawfulProcLists.head h.wf (.proc .stopped)
  rcases hM.kmalloc_total (toWord (stackSize stack)) with hk | ⟨l, F1, heap1, hk, -, hM1, -⟩
  · rw [create_noStack hf hk]
    refine ⟨fun hn => absurd hn (by simp), ?_⟩
    rintro ⟨⟨b, h1, t, h2, hb, hb0, -⟩, -⟩
    rw [hk] at hb
    exact absurd (Prod.mk.inj (Option.some.inj hb)).1.symm hb0
  have hb0 : l.addr + 16 ≠ 0 := by omega
  obtain ⟨-, heap3, hfree, -, -⟩ := hM1.kfree_total
  cases hl : s.view.lists (.queue (.proc .stopped)) with
  | nil =>
    rw [create_full h hf hb0 hk hl, hfree]
    refine ⟨fun hn => absurd hn (by simp), ?_⟩
    rintro ⟨-, p, hp, -⟩
    rw [hhead] at hp
    have hnil : LawfulProcLists.lists s.queues (.queue (.proc .stopped)) = [] := hl
    rw [hnil] at hp
    exact absurd hp (by simp)
  | cons p rest =>
    have hp : ProcLists.head s.queues (.proc .stopped) = some p := by
      rw [hhead]
      exact congrArg List.head? hl
    have hpi : p ≠ .idle := ((h.inv.mem_iff (.queue (.proc .stopped)) p).mp (by simp [hl])).1
    obtain ⟨i, rfl⟩ := PcbPtr.exists_table hpi
    have hnext := nextPid_pos_iff (h.inv.table_of_pid hpi).1 (hpid i)
    rcases hM1.kmalloc_total (signalTableSize * 4) with hk2 | ⟨l2, F2, heap2, hk2, -, -, -⟩
    · obtain ⟨s', x, hs', -⟩ := create_noTable h hf hb0 hk hl hk2 hfree
      rw [hs']
      refine ⟨fun hn => absurd hn (by simp), ?_⟩
      rintro ⟨⟨b, h1, t, h2, hb, -, ht, ht0⟩, -⟩
      rw [hk] at hb
      obtain ⟨-, rfl⟩ := Prod.mk.inj (Option.some.inj hb)
      rw [hk2] at ht
      exact absurd (Prod.mk.inj (Option.some.inj ht)).1.symm ht0
    have ht0 : l2.addr + 16 ≠ 0 := by omega
    by_cases hlast : (s.pcb (.table i)).pid = lastPid
    · have hno : ¬ 1 ≤ nextPid (s.pcb (.table i)).pid := fun hn => (hnext.mp hn) hlast
      rw [create_stack hf hb0 hk, getNextAvailablePcb_badPid (h.setHeap heap1) hl hk2 ht0 hno]
      exact ⟨fun _ => ⟨⟨_, _, _, _, hk, hb0, hk2, ht0⟩, _, hp, hlast⟩, fun _ => rfl⟩
    · obtain ⟨s', x, hs', -⟩ := create_found h hf hb0 hk hl hk2 ht0 (hnext.mpr hlast)
      rw [hs']
      refine ⟨fun hn => absurd hn (by simp), ?_⟩
      rintro ⟨-, q, hq, hql⟩
      rw [hp] at hq
      obtain rfl := Option.some.inj hq
      exact absurd hql hlast

end KernelOf

end Xeros.Model
