import Xeros.Analysis.Pids

/-!
# CPU time

The tick that interrupts a process is charged to it, and so is a system call 0, which the dispatcher
takes for a tick.  So `cpuTime` counts the timer interrupts that came while the process ran, and those
it forged, from its creation on, as an `int` does.
-/

set_option autoImplicit false

namespace Xeros.Analysis

open Xeros.Foundations Xeros.Model Xeros.Abstract Xeros.Interface KernelOf

/-! ## Counting steps -/

section Counting

variable (p : ℕ → Prop) [DecidablePred p]

/-- The number of steps from `m` on, before `n`, that satisfy `p`. -/
def stepsBetween (m n : ℕ) : ℕ := Nat.count (fun k => p (m + k)) (n - m)

theorem stepsBetween_self (m : ℕ) : stepsBetween p m m = 0 := by
  unfold stepsBetween
  rw [Nat.sub_self]
  rfl

theorem stepsBetween_succ {m n : ℕ} (hmn : m ≤ n) :
    stepsBetween p m (n + 1) = stepsBetween p m n + if p n then 1 else 0 := by
  unfold stepsBetween
  rw [Nat.sub_add_comm hmn, Nat.count_succ]
  rw [Nat.add_sub_cancel' hmn]

end Counting

variable {Q : Type} [ProcLists Q]

/-- In step `k`, the timer interrupts the process in slot `i`. -/
def TicksAt (r : Run Q) (i : Fin pcbTableSize) (k : ℕ) : Prop :=
  (r.state k).currproc = .table i ∧ (r.input k).reason = .timer

instance (r : Run Q) (i : Fin pcbTableSize) : DecidablePred (TicksAt r i) := fun _ =>
  inferInstanceAs (Decidable (_ ∧ _))

/-- In step `k`, the process in slot `i` makes the system call 0, the number of `TIMER_INT`. -/
def ForgesTick (r : Run Q) (i : Fin pcbTableSize) (k : ℕ) : Prop :=
  (r.state k).currproc = .table i ∧ (r.input k).reason = .syscall ∧
    (r.input k).request = some .timerInt

instance (r : Run Q) (i : Fin pcbTableSize) : DecidablePred (ForgesTick r i) := fun _ =>
  inferInstanceAs (Decidable (_ ∧ _ ∧ _))

/-- `timer_handler` runs after a timer interrupt, and after a system call 0. -/
theorem timerInt_iff (t : Trap) : t.request = some .timerInt ↔
    t.reason = .timer ∨ t.reason = .syscall ∧ t.request = some .timerInt := by
  cases hr : t.reason with
  | syscall => simp
  | timer =>
    unfold Trap.request Trap.reqId
    rw [hr]
    simp [SyscallRequest.ofId]
  | keyboard =>
    unfold Trap.request Trap.reqId
    rw [hr]
    simp [SyscallRequest.ofId]

variable [LawfulProcLists Q] [CheckedProcLists Q]

/-- A step charges a tick to a live process if and only if the timer interrupts it, or it forges the
tick. -/
theorem cpuTime_step (r : Run Q) {k : ℕ} (hk : k < r.len) {i : Fin pcbTableSize}
    (hlive : ((r.state k).pcb (.table i)).currState ≠ .stopped) :
    ((r.state (k + 1)).pcb (.table i)).cpuTime =
      if TicksAt r i k ∨ ForgesTick r i k then wrapInt (((r.state k).pcb (.table i)).cpuTime + 1)
      else ((r.state k).pcb (.table i)).cpuTime := by
  obtain ⟨s, req, heff⟩ := r.effect hk
  have htime : (s.pcb (.table i)).cpuTime = ((r.state k).pcb (.table i)).cpuTime :=
    heff.cpuTime (.table i)
  have hticks : TicksAt r i k ∨ ForgesTick r i k ↔ req = .timerInt ∧ PcbPtr.table i = s.currproc := by
    unfold TicksAt ForgesTick
    rw [← and_or_left, ← timerInt_iff, heff.request, heff.currproc, Option.some_inj, and_comm,
      eq_comm (b := PcbPtr.table i)]
  rw [← htime]
  cases heff.data (.table i) with
  | same hno h =>
    rw [if_neg fun ht => hno (.inl ⟨.inl (hticks.mp ht).1, (hticks.mp ht).2⟩), h.cpuTime]
  | charged hreq hp h =>
    rw [if_pos (hticks.mpr ⟨hreq, hp⟩), h.cpuTime]
  | marked sig hreq _ h =>
    rw [if_neg fun ht => absurd ((hticks.mp ht).1.symm.trans hreq) (by simp), h.cpuTime]
  | returned hreq _ h =>
    rw [if_neg fun ht => absurd ((hticks.mp ht).1.symm.trans hreq) (by simp), h.cpuTime]
  | filled _ _ hst _ =>
    rw [heff.currState] at hst
    exact absurd hst hlive
  | ended f hreq _ _ h =>
    rw [if_neg fun ht => ?_, h.cpuTime]
    · rfl
    · rw [(hticks.mp ht).1] at hreq
      simp at hreq
  | descriptors f hreq _ h =>
    rw [if_neg fun ht => ?_, h.cpuTime]
    · rfl
    · rw [(hticks.mp ht).1] at hreq
      simp at hreq

theorem wrapInt_wrapInt_add (x y : ℤ) : wrapInt (wrapInt x + y) = wrapInt (x + y) := by
  unfold wrapInt
  omega

/-- In every run, the CPU time of a process is the number of timer interrupts that came while it ran,
and of system calls 0 that it made, since it was created, as an `int` holds it. -/
theorem cpu_time_counts_ticks (r : Run Links) {c n : ℕ} (hcn : c < n) (hn : n ≤ r.len)
    (i : Fin pcbTableSize) (hc : CreatesIn r i c)
    (hlive : ∀ j, c < j → j < n → ((r.state j).pcb (.table i)).currState ≠ .stopped) :
    ((r.state n).pcb (.table i)).cpuTime =
      wrapInt (stepsBetween (TicksAt r i) (c + 1) n + stepsBetween (ForgesTick r i) (c + 1) n) := by
  induction n, hcn using Nat.le_induction with
  | base =>
    obtain ⟨pid, table, b, sp, heq⟩ := created_pcb r hn hc
    rw [heq, stepsBetween_self, stepsBetween_self]
    rfl
  | succ n hcn ih =>
    have hbefore := ih (by omega) fun j hj hjn => hlive j hj (by omega)
    have hcn' : c + 1 ≤ n := hcn
    have hnever : ¬ (TicksAt r i n ∧ ForgesTick r i n) := by
      rintro ⟨⟨-, htimer⟩, -, hsyscall, -⟩
      rw [htimer] at hsyscall
      simp at hsyscall
    rw [cpuTime_step r hn (hlive n hcn n.lt_succ_self), stepsBetween_succ _ hcn',
      stepsBetween_succ _ hcn', hbefore]
    by_cases ht : TicksAt r i n
    · have hf : ¬ ForgesTick r i n := fun hf => hnever ⟨ht, hf⟩
      rw [if_pos (.inl ht), if_pos ht, if_neg hf, wrapInt_wrapInt_add]
      push_cast
      rw [add_right_comm]
      rfl
    · by_cases hf : ForgesTick r i n
      · rw [if_pos (.inr hf), if_neg ht, if_pos hf, wrapInt_wrapInt_add]
        push_cast
        rw [add_assoc, add_zero]
      · rw [if_neg (not_or.mpr ⟨ht, hf⟩), if_neg ht, if_neg hf]
        rfl

/-- The root creates a process in slot 1.  Of the three timer interrupts that follow, one strikes
while that process runs, and then it makes the system call 0. -/
theorem cpu_time_counts_ticks_two : ∃ r : Run Links, r.len = 5 ∧
    ((r.state 5).pcb (.table 1)).cpuTime = 2 ∧
    wrapInt (stepsBetween (TicksAt r 1) 1 5 + stepsBetween (ForgesTick r 1) 1 5) = 2 := by
  obtain ⟨r, hlen, -, hin, htest⟩ := exists_run (Q := Links) smallPc 40300 (fun _ _ => True)
    [.call [2, 40400, 8192] [], .tick, .tick, .tick, .call [0] []]
    (fun n s => decide ((n = 0 → s.currproc = .table 0 ∧
        ((Act.call [2, 40400, 8192] []).trap s).request = some .create) ∧
      (n = 1 → PidOf (s.pcb (.table 0)).ret 1) ∧
      (1 ≤ n → (s.pcb (.table 1)).currState ≠ .stopped) ∧
      (n = 5 → (s.pcb (.table 1)).cpuTime = 2))) (by decide +kernel)
  obtain ⟨hcur, hcreate⟩ := (of_decide_eq_true (htest 0 (by decide))).1 rfl
  have hpid := (of_decide_eq_true (htest 1 (by decide))).2.1 rfl
  have htime := (of_decide_eq_true (htest 5 (by decide))).2.2.2 rfl
  have hlen5 : r.len = 5 := hlen
  rw [← hin 0 (Act.call [2, 40400, 8192] []) rfl] at hcreate
  rw [← hcur] at hpid
  have hall := cpu_time_counts_ticks r (c := 0) (n := 5) (by omega) (by omega) 1 ⟨hcreate, hpid⟩
    (fun j h0 h5 => (of_decide_eq_true (htest j h5.le)).2.2.1 h0)
  refine ⟨r, hlen5, htime, ?_⟩
  rw [← hall]
  exact htime

end Xeros.Analysis
