import Xeros.Analysis.DataRuns
import Xeros.Analysis.FirstCome

/-!
# Saved registers

While a process does not run, nobody touches its stack pointer, and while it is ready nobody touches
its return code, although that field is also a countdown and the result of calls.  So a process that
was interrupted, or that yielded, resumes with the registers it had.
-/

set_option autoImplicit false

namespace Xeros.Analysis

open Xeros.Foundations Xeros.Model Xeros.Abstract Xeros.Interface KernelOf

variable {s s' : Kernel} {v w : View} {e : Event} {req : SyscallRequest} {p : PcbPtr}

/-- The running process gives up the processor and is ready, or runs again. -/
theorem gives_up_proc (h : Sound v) (he : e = .yield ∨ e = .timer) :
    (e.apply v).proc v.currproc = { v.proc v.currproc with state := .ready } ∨
      (e.apply v).proc v.currproc = { v.proc v.currproc with state := .running } := by
  have hpreempt : ∀ w : View, Inv (some w.currproc) w → w.currproc = v.currproc →
      w.proc v.currproc = v.proc v.currproc →
      w.preempt.dispatch.proc v.currproc = { v.proc v.currproc with state := .ready } ∨
        w.preempt.dispatch.proc v.currproc = { v.proc v.currproc with state := .running } := by
    intro w hw hc hsame
    have hready : w.preempt.proc v.currproc = { v.proc v.currproc with state := .ready } := by
      rw [← hc, View.preempt, View.move_proc_self, hc, hsame]
    rcases dispatch_proc hw.preempt v.currproc with heq | ⟨-, heq⟩
    · left
      rw [heq, hready]
    · right
      rw [heq, hready]
  rcases he with rfl | rfl
  · exact hpreempt v h.inv rfl rfl
  · have ht := tick_spec h.inv h.delta h.head
    refine hpreempt v.tick ?_ ht.currproc (ht.other _ (not_sleeper_current h.inv))
    rw [ht.currproc]
    exact ht.inv

/-- A process that is ready keeps its return code, and is ready or runs after a step. -/
theorem ready_ret (r : Run Links) {k : ℕ} (hk : k < r.len) (hd : r.Deviceless (k + 1))
    (hp : ReadyAt (r.state k).view p) :
    ((r.state (k + 1)).pcb p).view = ((r.state k).pcb p).view ∨
      ((r.state (k + 1)).pcb p).view = { ((r.state k).pcb p).view with state := .running } := by
  obtain ⟨s, req, e, -, -, hready, hview, -, he, hv⟩ := r.event hk hd
  have hrun := (r.ready hk.le (hd.mono k.le_succ)).running
  have hpc : p ≠ (r.state k).currproc := by
    intro hpc
    have hst : ((r.state k).pcb p).currState = .ready := hp.2
    rw [hpc, hrun] at hst
    exact absurd hst (by simp)
  have hproc : s.view.proc p = ((r.state k).pcb p).view := by
    rw [hview]
    exact View.setRet_proc_ne _ _ hpc
  have hnext : ((r.state (k + 1)).pcb p).view = (e.apply s.view).proc p := by
    rw [← hv]
    rfl
  rw [hnext, ← hproc]
  apply Event.ready_step hready.sound he
  rw [hproc]
  exact hp.2

/-- A process that lives keeps its stack pointer while it does not run. -/
theorem waiting_esp (r : Run Links) {k : ℕ} (hk : k < r.len) {i : Fin pcbTableSize}
    (hcur : (r.state k).currproc ≠ .table i)
    (hlive : ((r.state k).pcb (.table i)).currState ≠ .stopped) :
    ((r.state (k + 1)).pcb (.table i)).esp = ((r.state k).pcb (.table i)).esp := by
  obtain ⟨s, req, heff⟩ := r.effect hk
  have hpc : PcbPtr.table i ≠ s.currproc := by
    rw [heff.currproc]
    exact hcur.symm
  have hsame := heff.other _ hpc
  cases heff.data (.table i) with
  | same _ h => rw [h.esp, hsame]
  | charged _ hp => exact absurd hp hpc
  | marked sig _ _ h => rw [h.esp, hsame]
  | returned _ hp => exact absurd hp hpc
  | filled _ _ hst _ =>
    rw [hsame] at hst
    exact absurd hst hlive
  | ended f _ hp => exact absurd hp hpc
  | descriptors f _ hp => exact absurd hp hpc

/-- The trap saves the stack pointer of the process it interrupts. -/
theorem trapped_esp (r : Run Links) {k : ℕ} (hk : k < r.len) {i : Fin pcbTableSize}
    (hcur : (r.state k).currproc = .table i) (hreq : (r.input k).request ≠ some .sigreturn) :
    ((r.state (k + 1)).pcb (.table i)).esp = (r.input k).esp := by
  obtain ⟨s, req, heff⟩ := r.effect hk
  obtain ⟨args, hself⟩ := heff.current
  have hpc : s.currproc = .table i := heff.currproc.trans hcur
  have hesp : (s.pcb (.table i)).esp = (r.input k).esp := by
    rw [← hpc, hself]
    rfl
  rw [heff.request] at hreq
  rw [← hesp]
  cases heff.data (.table i) with
  | same _ h => exact h.esp
  | charged _ _ h => exact h.esp
  | marked sig _ _ h => exact h.esp
  | returned hr => exact absurd (congrArg some hr) hreq
  | filled _ hp => exact absurd hpc.symm hp
  | ended f _ _ _ h => exact h.esp
  | descriptors f _ _ h => exact h.esp

/-! ## Runs -/

/-- A process that lives keeps the stack pointer that its trap saved until it runs again. -/
theorem yielded_esp (r : Run Links) {k n : ℕ} (hkn : k < n) (hn : n ≤ r.len) {i : Fin pcbTableSize}
    (hcur : (r.state k).currproc = .table i)
    (haway : ∀ j, k < j → j < n → (r.state j).currproc ≠ .table i)
    (hlive : ∀ j, k < j → j < n → ((r.state j).pcb (.table i)).currState ≠ .stopped)
    (hreq : (r.input k).request ≠ some .sigreturn) :
    ((r.state n).pcb (.table i)).esp = (r.input k).esp := by
  induction n, hkn using Nat.le_induction with
  | base => exact trapped_esp r hn hcur hreq
  | succ n hkn ih =>
    have hstep := waiting_esp r hn (haway n hkn n.lt_succ_self) (hlive n hkn n.lt_succ_self)
    rw [hstep]
    exact ih (by omega) (fun j hj hjn => haway j hj (by omega))
      fun j hj hjn => hlive j hj (by omega)

/-- A process that gives up the processor keeps its return code until it runs again. -/
theorem yielded_ret (r : Run Links) {k n : ℕ} (hkn : k < n) (hn : n ≤ r.len) (hd : r.Deviceless n)
    {i : Fin pcbTableSize} (hcur : (r.state k).currproc = .table i)
    (haway : ∀ j, k < j → j < n → (r.state j).currproc ≠ .table i)
    (hreq : (r.input k).request = some .timerInt ∨ (r.input k).request = some .yield) :
    ((r.state n).pcb (.table i)).ret = Trap.eax (r.input k) ∧
      (((r.state n).pcb (.table i)).currState = .ready ∨
        ((r.state n).pcb (.table i)).currState = .running) := by
  induction n, hkn using Nat.le_induction with
  | base =>
    obtain ⟨s, req, e, -, hr, hready, hview, hh, he, hv⟩ := r.event hn hd
    have he' : e = .yield ∨ e = .timer := by
      rw [hr, Option.some_inj, Option.some_inj] at hreq
      cases hh with
      | yield => exact .inl rfl
      | timer => exact .inr rfl
      | immediate _ x hx => rcases hreq with rfl | rfl <;> exact absurd hx id
      | _ => simp at hreq
    have hpc : s.currproc = .table i := (congrArg View.currproc hview).trans hcur
    have hret : (s.view.proc (.table i)).ret = Trap.eax (r.input k) := by
      rw [hview, hcur, View.setRet_proc_self]
    have hproc := gives_up_proc hready.sound he'
    have hc : s.view.currproc = .table i := hpc
    rw [hc, ← hv] at hproc
    rcases hproc with h | h
    · exact ⟨(congrArg ProcView.ret h).trans hret, .inl (congrArg ProcView.state h)⟩
    · exact ⟨(congrArg ProcView.ret h).trans hret, .inr (congrArg ProcView.state h)⟩
  | succ n hkn ih =>
    obtain ⟨hret, hst⟩ := ih (by omega) (hd.mono n.le_succ) fun j hj hjn => haway j hj (by omega)
    have hready : ReadyAt (r.state n).view (.table i) := by
      refine ⟨by simp, ?_⟩
      rcases hst with hst | hst
      · exact hst
      · have hinv := run_inv r (by omega) (hd.mono n.le_succ)
        exact absurd (Option.some.inj ((hinv.running (.table i)).mp hst)) (haway n hkn n.lt_succ_self)
    rcases ready_ret r (by omega) hd hready with h | h
    · exact ⟨(congrArg ProcView.ret h).trans hret, .inl ((congrArg ProcView.state h).trans hready.2)⟩
    · exact ⟨(congrArg ProcView.ret h).trans hret, .inr (congrArg ProcView.state h)⟩

/-- In every run, with devices or without, a process that entered the kernel and has not ended is
resumed with the stack pointer it had, unless it was `syssigreturn`; and with no device open, when
the timer interrupted it, or it yielded, with the `eax` it had in its context.  No signal must be
there to deliver: it would be resumed in `sigtramp`. -/
theorem registers_resumed (r : Run Links) {k n : ℕ} (hkn : k < n) (hn : n ≤ r.len)
    (i : Fin pcbTableSize) (hcur : (r.state k).currproc = .table i)
    (haway : ∀ j, k < j → j < n → (r.state j).currproc ≠ .table i)
    (hlive : ∀ j, k < j → j < n → ((r.state j).pcb (.table i)).currState ≠ .stopped)
    (hback : (r.state n).currproc = .table i)
    (hquiet : ((r.state n).pcb (.table i)).signalsFired = 0 ∨
      ((r.state n).pcb (.table i)).signalsEnabled = false) :
    ∃ u, (r.state n).enterUser (r.state n).currproc = some u ∧
      ((r.input k).request ≠ some .sigreturn → (u.pcb (.table i)).esp = (r.input k).esp) ∧
      (r.Deviceless n → (r.input k).request = some .timerInt ∨ (r.input k).request = some .yield →
        load32 u.mem ((r.input k).esp + 28) = load32 (r.input k).mem ((r.input k).esp + 28)) := by
  have hno : ¬ (((r.state n).pcb (.table i)).signalsFired ≠ 0 ∧
      ((r.state n).pcb (.table i)).signalsEnabled = true) := by
    rintro ⟨hfired, henabled⟩
    rcases hquiet with h0 | hoff
    · exact hfired h0
    · rw [hoff] at henabled
      simp at henabled
  have hesp : (r.input k).request ≠ some .sigreturn →
      ((r.state n).pcb (.table i)).esp = (r.input k).esp :=
    fun hreq => yielded_esp r hkn hn hcur haway hlive hreq
  rw [hback, enterUser_plain hno]
  refine ⟨_, rfl, hesp, fun hd hreq => ?_⟩
  have hret := (yielded_ret r hkn hn hd hcur haway hreq).1
  have hreq' : (r.input k).request ≠ some .sigreturn := by
    rcases hreq with hreq | hreq <;> rw [hreq] <;> simp
  show load32 (store32 (r.state n).mem (((r.state n).pcb (.table i)).esp + 28) _) _ = _
  rw [hesp hreq', hret, load32_store32_same]
  unfold Trap.eax
  rw [toWord_toInt (load32_lt _ _), Nat.mod_eq_of_lt (load32_lt _ _)]

/-- The root of `rendezvousScript` yields in step 1 and runs again in step 3. -/
theorem registers_resumed_yield : ∃ (r : Run Links) (u : Kernel), r.len = 4 ∧
    (r.state 3).enterUser (.table 0) = some u ∧ (u.pcb (.table 0)).esp = (r.input 1).esp ∧
      load32 u.mem ((r.input 1).esp + 28) = load32 (r.input 1).mem ((r.input 1).esp + 28) := by
  obtain ⟨r, hlen, hcheck, hin, htest⟩ := exists_run (Q := Links) smallPc 40300
    (fun _ t => KernelOf.Deviceless t) rendezvousScript
    (fun n s => decide ((n = 1 → s.currproc = .table 0 ∧
        ((Act.call [3] []).trap s).request = some .yield) ∧
      (n = 2 → s.currproc = .table 1 ∧ (s.pcb (.table 0)).currState = .ready) ∧
      (n = 3 → s.currproc = .table 0 ∧ (s.pcb (.table 0)).signalsFired = 0))) (by decide +kernel)
  obtain ⟨hcur, hyield⟩ := (of_decide_eq_true (htest 1 (by decide))).1 rfl
  obtain ⟨hcur2, hready2⟩ := (of_decide_eq_true (htest 2 (by decide))).2.1 rfl
  obtain ⟨hcur3, hfired⟩ := (of_decide_eq_true (htest 3 (by decide))).2.2 rfl
  have hlen4 : r.len = 4 := hlen
  have hd : r.Deviceless 3 := fun k hk => hcheck k (by omega)
  rw [← hin 1 (Act.call [3] []) rfl] at hyield
  have hbetween : ∀ j, 1 < j → j < 3 → j = 2 := by
    intro j h1 h3
    omega
  obtain ⟨u, hu, hesp, heax⟩ := registers_resumed r (k := 1) (n := 3) (by omega) (by omega) 0 hcur
    (fun j h1 h3 => by rw [hbetween j h1 h3, hcur2]; decide)
    (fun j h1 h3 => by rw [hbetween j h1 h3, hready2]; decide) hcur3 (.inl hfired)
  rw [hcur3] at hu
  refine ⟨r, u, hlen4, hu, hesp ?_, heax hd (.inr hyield)⟩
  rw [hyield]
  decide

end Xeros.Analysis
