import Xeros.Analysis.OpenCounts
import Xeros.Refinement.ProcessData

/-!
# Control blocks over whole runs

In every run each step is a trap, which changes the control block of the running process only, and
a `DataStep` of every process.
-/

set_option autoImplicit false

namespace Xeros.Model.KernelOf

open Xeros.Foundations Xeros.Abstract Xeros.Interface

variable {Q : Type} [ProcLists Q] {s s' : KernelOf Q} {p : PcbPtr}

/-- The idle process has no signals pending. -/
def IdleUnsignalled (s : KernelOf Q) : Prop := (s.pcb .idle).signalsFired = 0

omit [ProcLists Q] in
theorem Sane.deliverable (h : Sane s) (hi : IdleUnsignalled s) : Deliverable s :=
  ⟨fun _ hc => h.finds hc, fun hc => by rw [hc]; exact hi⟩

omit [ProcLists Q] in
theorem pidToProc_table {pid : ℤ} (h : s.pidToProc pid = some p) :
    p = .table (slotOfPid pid) ∧ (s.pcb p).pid = pid ∧ (s.pcb p).currState ≠ .stopped := by
  unfold Core.pidToProc at h
  dsimp only at h
  split_ifs at h with h1 h2
  obtain rfl := Option.some.inj h
  exact ⟨rfl, h2⟩

omit [ProcLists Q] in
/-- Nobody can signal the idle process. -/
theorem IdleUnsignalled.step {req : SyscallRequest} (h : IdleUnsignalled s)
    (hd : DataStep s req s' .idle) : IdleUnsignalled s' := by
  unfold IdleUnsignalled at h ⊢
  cases hd with
  | same _ hs => rw [hs.signalsFired, h]
  | charged _ _ hs => rw [hs.signalsFired, h]
  | marked sig _ hm =>
    have htable := (pidToProc_table hm.1).1
    exact absurd htable (by simp)
  | returned _ _ hs => rw [hs.signalsFired, h]
  | filled _ _ _ hs =>
    generalize s'.pcb .idle = y at hs ⊢
    cases hs <;> rfl
  | ended f _ _ _ hs =>
    rw [hs.signalsFired]
    exact h
  | descriptors f _ _ hs =>
    rw [hs.signalsFired]
    exact h

theorem boot_idleUnsignalled [LawfulProcLists Q] {image : Image} {mem : Memory} {root : ℕ}
    (hs : (boot image mem root : Option (KernelOf Q)) = some s) : IdleUnsignalled s := by
  obtain ⟨s1, b, ⟨r, s2⟩, htable, -, htr, hr, hs⟩ := boot_stages hs
  have h1 : (s1.pcb .idle).signalsFired = 0 := by
    rw [htable.idle]
    rfl
  have hfill : ∀ (q : PcbPtr) (k : Q) (heap : Heap) (x : Pcb), x.signalsFired = 0 →
      (((s1.setQueues k).withSlot heap q x).pcb .idle).signalsFired = 0 := by
    intro q k heap x hx
    by_cases hq : PcbPtr.idle = q
    · rw [hq, withSlot_pcb_self]
      exact hx
    · rw [withSlot_pcb_ne _ _ _ hq]
      exact h1
  have h2 : (s2.pcb .idle).signalsFired = 0 := by
    cases create_creation hr with
    | failed _ heap _ _ => exact h1
    | recycled q k heap table => exact hfill q k heap _ rfl
    | created q k heap table b sp => exact hfill q k heap _ rfl
  have hrest := (htable.atRest htr).create hr
  obtain ⟨s3, hs3, hb3⟩ := (Becomes.refl hrest.good.wf).then_reschedule hrest.good.inv
  rw [hs] at hs3
  obtain rfl := Option.some.inj hs3
  unfold IdleUnsignalled
  rw [hb3.pcb]
  exact h2

namespace Run

variable [LawfulProcLists Q] [CheckedProcLists Q] (r : Run Q) {n : ℕ}

/-- The handler of a step finds the kernel in order, and the data of processes as the trap has
changed them. -/
theorem handler_data (hn : n < r.len) (hidle : IdleUnsignalled (r.state n)) :
    ∃ s req, (r.state n).atTrap (r.input n) = some s ∧ (r.input n).request = some req ∧
      s.dispatchRequest (r.input n) req = some (r.state (n + 1)) ∧
      s.currproc = (r.state n).currproc ∧
      (∃ args, s.pcb s.currproc = ((r.state n).pcb s.currproc).atTrap (r.input n) args) ∧
      (∀ p, p ≠ s.currproc → s.pcb p = (r.state n).pcb p) ∧
      ∀ p, DataStep s req (r.state (n + 1)) p := by
  obtain ⟨s, req, hs, hreq, hsame, hsane, -, hdis, -⟩ := r.device hn
  have ho := (hsame.tidy (r.tidy hn.le)).orderly
  have hcur : req ≠ .timerInt → req ≠ .keyboardInt → s.currproc ≠ .idle := by
    intro ht hk
    rw [hsame.currproc]
    exact (r.allows n hn).1 (syscall_of_request hreq ht hk)
  obtain ⟨args, hself, hother⟩ := atTrap_pcb ((r.sane hn.le).deliverable hidle) hs
  rw [← hsame.currproc] at hself hother
  exact ⟨s, req, hs, hreq, hdis, hsame.currproc, ⟨args, hself⟩, hother,
    dispatchRequest_data hsane ho hcur hdis⟩

theorem idleUnsignalled (hn : n ≤ r.len) : IdleUnsignalled (r.state n) := by
  induction n with
  | zero => exact boot_idleUnsignalled r.start
  | succ n ih =>
    have hidle := ih (by omega)
    obtain ⟨s, req, -, -, -, -, ⟨args, hself⟩, hother, hdata⟩ := r.handler_data hn hidle
    refine IdleUnsignalled.step ?_ (hdata .idle)
    unfold IdleUnsignalled at hidle ⊢
    by_cases hc : PcbPtr.idle = s.currproc
    · rw [hc, hself, ← hc]
      show ((r.state n).pcb .idle).delivered.signalsFired = 0
      unfold Pcb.delivered
      rw [if_neg (fun h => h.1 hidle)]
      exact hidle
    · rw [hother _ hc]
      exact hidle

/-- What step `n` of a run does to control blocks: the trap changes the running process, and the
handler does a `DataStep` of every process. -/
structure Effect (r : Run Q) (n : ℕ) (s : KernelOf Q) (req : SyscallRequest) : Prop where
  trap : (r.state n).atTrap (r.input n) = some s
  request : (r.input n).request = some req
  handled : s.dispatchRequest (r.input n) req = some (r.state (n + 1))
  currproc : s.currproc = (r.state n).currproc
  current : ∃ args, s.pcb s.currproc = ((r.state n).pcb s.currproc).atTrap (r.input n) args
  other : ∀ p, p ≠ s.currproc → s.pcb p = (r.state n).pcb p
  data : ∀ p, DataStep s req (r.state (n + 1)) p

theorem effect (hn : n < r.len) : ∃ s req, r.Effect n s req := by
  obtain ⟨s, req, hs, hreq, hdis, hcur, hself, hother, hdata⟩ :=
    r.handler_data hn (r.idleUnsignalled hn.le)
  exact ⟨s, req, hs, hreq, hdis, hcur, hself, hother, hdata⟩

variable {r} {req : SyscallRequest}

omit [LawfulProcLists Q] [CheckedProcLists Q] in
/-- The trap leaves the time of a process alone. -/
theorem Effect.cpuTime (h : r.Effect n s req) (p : PcbPtr) :
    (s.pcb p).cpuTime = ((r.state n).pcb p).cpuTime := by
  by_cases hp : p = s.currproc
  · obtain ⟨args, hself⟩ := h.current
    rw [hp, hself, Pcb.atTrap_cpuTime]
  · rw [h.other p hp]

omit [LawfulProcLists Q] [CheckedProcLists Q] in
theorem Effect.currState (h : r.Effect n s req) (p : PcbPtr) :
    (s.pcb p).currState = ((r.state n).pcb p).currState := by
  by_cases hp : p = s.currproc
  · obtain ⟨args, hself⟩ := h.current
    rw [hp, hself, Pcb.atTrap_currState]
  · rw [h.other p hp]

end Run

end Xeros.Model.KernelOf
