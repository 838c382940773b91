import Xeros.Model.Stubs
import Xeros.Foundations.Execution

/-!
# Results of system calls and preemption

The variable `request_reg` is shared, so a process that is preempted between its store to it and its
load of it can return the result of another process.  As long as nobody touches `request_reg` in that
window, every function returns what the kernel answered to its call.
-/

set_option autoImplicit false

namespace Xeros.Analysis

open Xeros.Foundations Xeros.Model.Stubs

variable {P : Type} {s s' : System P} {p q : P}

/-- Nobody is in one of the functions, and the kernel runs. -/
structure Initial (s : System P) : Prop where
  outside : ∀ p, (s.proc p).code = [] ∧ (s.proc p).inKernel = false
  running : s.running = none
  returned : s.returned = []

/-- The next instruction of the process writes to `request_reg`. -/
def WritesRequestReg (x : Process) : Prop :=
  x.code.head? = some .popRequestReg ∨ x.code.head? = some .movlEaxRequestReg

instance (x : Process) : Decidable (WritesRequestReg x) := inferInstanceAs (Decidable (_ ∨ _))

/-- The process has stored its result in `request_reg` and not yet loaded it again. -/
def InWindow (x : Process) : Prop := x.code = [.returnRequestReg]

/-- The move lets a process write to `request_reg` in the window of another one. -/
def Clobbers (s : System P) (m : Move P) : Prop :=
  m = .exec ∧ ∃ p q, s.running = some p ∧ WritesRequestReg (s.proc p) ∧ q ≠ p ∧ InWindow (s.proc q)

/-- All calls that have returned gave the answer of the kernel. -/
def AnswersReturned (s : System P) : Prop := ∀ c ∈ s.returned, c.value = c.answer

/-- Where a process is in its function. -/
inductive Stage (requestReg : ℕ) (x : Process) : Prop where
  | outside (hcode : x.code = []) (hk : x.inKernel = false)
  | pushing (is : List ℕ) (n : ℕ) (hk : x.inKernel = false)
      (hcode : x.code = is.map Instr.push ++ .int50 :: (List.replicate n .popRequestReg ++
        [.movlEaxRequestReg, .returnRequestReg]))
  | popping (n : ℕ) (heax : x.inKernel = false → x.eax = x.answer)
      (hcode : x.code = List.replicate n .popRequestReg ++ [.movlEaxRequestReg, .returnRequestReg])
  | stored (hcode : InWindow x) (hk : x.inKernel = false) (hreg : requestReg = x.answer)

/-- Everyone is at some place of a function, and the calls so far returned their answers. -/
structure Orderly (s : System P) : Prop where
  stage : ∀ p, Stage s.requestReg (s.proc p)
  awake : ∀ p, s.running = some p → (s.proc p).inKernel = false
  returned : AnswersReturned s

theorem Initial.orderly (h : Initial s) : Orderly s := by
  refine ⟨fun p => .outside (h.outside p).1 (h.outside p).2, fun p hp => ?_, fun c hc => ?_⟩
  · rw [h.running] at hp
    exact absurd hp (by simp)
  · rw [h.returned] at hc
    exact absurd hc List.not_mem_nil

/-- All functions push, enter the kernel, pop, and hand over the result. -/
theorem stub_code (stub : Stub) : ∃ (is : List ℕ) (n : ℕ), stub.code = is.map Instr.push ++
    .int50 :: (List.replicate n .popRequestReg ++ [.movlEaxRequestReg, .returnRequestReg]) := by
  cases stub with
  | syscall0 => exact ⟨[0], 1, rfl⟩
  | syscall1 => exact ⟨[1, 0], 2, rfl⟩
  | syscall2 => exact ⟨[2, 1, 0], 3, rfl⟩
  | syscall3 => exact ⟨[3, 2, 1, 0], 4, rfl⟩

/-- A process outside its window does not care about `request_reg`. -/
theorem Stage.of_not_window {r r' : ℕ} {x : Process} (h : Stage r x) (hw : ¬ InWindow x) :
    Stage r' x := by
  cases h with
  | outside hcode hk => exact .outside hcode hk
  | pushing is n hk hcode => exact .pushing is n hk hcode
  | popping n heax hcode => exact .popping n heax hcode
  | stored hcode hk hreg => exact absurd hcode hw

variable [DecidableEq P]

/-- The process `p` changes, and perhaps `request_reg`. -/
theorem Orderly.update (h : Orderly s) {x : Process} {r : ℕ} {run : Option P}
    (hx : Stage r x) (hothers : ∀ q, q ≠ p → Stage r (s.proc q))
    (hrun : ∀ q, run = some q → (Function.update s.proc p x q).inKernel = false) :
    Orderly { s with proc := Function.update s.proc p x, requestReg := r, running := run } := by
  refine ⟨fun q => ?_, hrun, h.returned⟩
  show Stage r (Function.update s.proc p x q)
  by_cases hq : q = p
  · rw [hq, Function.update_self]
    exact hx
  · rw [Function.update_of_ne hq]
    exact hothers q hq

/-- The running process `p` changes and keeps running. -/
theorem Orderly.proceed (h : Orderly s) (hp : s.running = some p) {x : Process} {r : ℕ}
    (hx : Stage r x) (hothers : ∀ q, q ≠ p → Stage r (s.proc q)) (hk : x.inKernel = false) :
    Orderly { s with proc := Function.update s.proc p x, requestReg := r } := by
  refine h.update hx hothers ?_
  intro q hq
  rw [hp] at hq
  rw [← Option.some.inj hq, Function.update_self]
  exact hk

/-- An instruction of the running process keeps the order, if it does not write in a window. -/
theorem Orderly.exec (h : Orderly s) (hp : s.running = some p) (hs : s.exec p = some s')
    (hsafe : WritesRequestReg (s.proc p) → ∀ q, q ≠ p → ¬ InWindow (s.proc q)) : Orderly s' := by
  have hk := h.awake p hp
  have hothers : ∀ q, q ≠ p → Stage s.requestReg (s.proc q) := fun q _ => h.stage q
  have hwrite : WritesRequestReg (s.proc p) → ∀ r q, q ≠ p → Stage r (s.proc q) :=
    fun hw r q hq => (h.stage q).of_not_window (hsafe hw q hq)
  unfold System.exec at hs
  dsimp only at hs
  cases h.stage p with
  | outside hcode _ =>
    rw [hcode] at hs
    exact absurd hs (by simp)
  | pushing is n _ hcode =>
    rw [hcode] at hs
    cases is with
    | cons i is =>
      obtain rfl := Option.some.inj hs
      exact h.proceed hp (.pushing is n hk rfl) hothers hk
    | nil =>
      -- the process enters the kernel
      obtain rfl := Option.some.inj hs
      refine h.update (.popping n ?_ rfl) hothers ?_
      · exact fun hf => absurd hf (by simp)
      · exact fun q hq => absurd hq (by simp)
  | popping n heax hcode =>
    rw [hcode] at hs
    cases n with
    | succ n =>
      obtain rfl := Option.some.inj hs
      have hw : WritesRequestReg (s.proc p) := .inl (by rw [hcode]; rfl)
      exact h.proceed hp (.popping n heax rfl) (hwrite hw _) hk
    | zero =>
      -- the result goes to the shared variable
      obtain rfl := Option.some.inj hs
      have hw : WritesRequestReg (s.proc p) := .inr (by rw [hcode]; rfl)
      exact h.proceed hp (.stored rfl hk (heax hk)) (hwrite hw _) hk
  | stored hcode _ hreg =>
    rw [show (s.proc p).code = _ from hcode] at hs
    obtain rfl := Option.some.inj hs
    have hx := h.proceed (x := { s.proc p with code := [], eax := s.requestReg }) hp
      (.outside rfl hk) hothers hk
    refine ⟨hx.stage, hx.awake, ?_⟩
    intro c hc
    rcases List.mem_append.mp hc with hc | hc
    · exact h.returned c hc
    · rw [List.mem_singleton.mp hc]
      exact hreg

/-- Every move that does not write in a window keeps the order. -/
theorem Orderly.step (h : Orderly s) {m : Move P} (hs : s.step m = some s')
    (hsafe : ¬ Clobbers s m) : Orderly s' := by
  have hothers : ∀ p q, q ≠ p → Stage s.requestReg (s.proc q) := fun _ q _ => h.stage q
  cases m with
  | compute stack eax =>
    obtain ⟨p, hp, hs⟩ := Option.bind_eq_some_iff.mp hs
    split_ifs at hs with hcode
    obtain rfl := Option.some.inj hs
    exact h.proceed hp (.outside hcode (h.awake p hp)) (hothers p) (h.awake p hp)
  | call stub params =>
    obtain ⟨p, hp, hs⟩ := Option.bind_eq_some_iff.mp hs
    split_ifs at hs with hcode
    obtain rfl := Option.some.inj hs
    obtain ⟨is, n, hstub⟩ := stub_code stub
    exact h.proceed hp (.pushing is n (h.awake p hp) hstub) (hothers p) (h.awake p hp)
  | exec =>
    obtain ⟨p, hp, hs⟩ := Option.bind_eq_some_iff.mp hs
    refine h.exec hp hs fun hw q hq hwin => hsafe ?_
    exact ⟨rfl, p, q, hp, hw, hq, hwin⟩
  | timer =>
    obtain ⟨p, -, rfl⟩ := Option.map_eq_some_iff.mp hs
    exact ⟨h.stage, fun q hq => absurd hq (by simp), h.returned⟩
  | answer p result =>
    unfold System.step at hs
    dsimp only at hs
    split_ifs at hs with hk
    obtain rfl := Option.some.inj hs
    refine h.update ?_ (hothers p) ?_
    · -- only a process that waits for its answer is in the kernel
      cases h.stage p with
      | outside _ hf => rw [hk.2] at hf; exact absurd hf (by simp)
      | pushing _ _ hf _ => rw [hk.2] at hf; exact absurd hf (by simp)
      | popping n _ hcode => exact .popping n (fun _ => rfl) hcode
      | stored _ hf _ => rw [hk.2] at hf; exact absurd hf (by simp)
    · intro q hq
      rw [hk.1] at hq
      exact absurd hq (by simp)
  | dispatch p =>
    unfold System.step at hs
    dsimp only at hs
    split_ifs at hs with hk
    obtain rfl := Option.some.inj hs
    refine ⟨h.stage, ?_, h.returned⟩
    intro q hq
    rw [← Option.some.inj hq]
    exact hk.2

/-- In every run in which nobody writes to `request_reg` in the window of another process, every
function returns the answer of the kernel to its own call. -/
theorem answers_returned (e : Execution (System.step (P := P)) fun _ _ => True)
    (h0 : Initial (e.state 0)) {n : ℕ} (hn : n ≤ e.len)
    (hsafe : ∀ k < n, ¬ Clobbers (e.state k) (e.input k)) : AnswersReturned (e.state n) := by
  have horder : Orderly (e.state n) := by
    refine e.invariant (I := fun k => Orderly (e.state k)) (Nat.zero_le n) hn h0.orderly ?_
    intro k _ hk _ hstep h
    exact h.step hstep (hsafe k hk)
  exact horder.returned

/-- Two processes outside the functions. -/
def twoProcesses : System Bool :=
  ⟨fun _ => ⟨[], fun _ => 0, [], 0, false, 0⟩, 0, none, []⟩

theorem twoProcesses_initial : Initial twoProcesses :=
  ⟨fun _ => ⟨rfl, rfl⟩, rfl, rfl⟩

/-- A call that is interrupted in its window, by a process that makes no call. -/
def harmlessScript : List (System Bool → Move Bool) :=
  [.dispatch false, .call .syscall0 fun _ => 5, .exec, .exec, .answer false 7, .dispatch false,
    .exec, .exec, .timer, .dispatch true, .compute [] 9, .timer, .dispatch false, .exec].map
    fun m _ => m

theorem answers_returned_harmless : ∃ e : Execution (System.step (P := Bool)) fun _ _ => True,
    e.len = 14 ∧ (e.state 14).returned = [⟨false, 7, 7⟩] ∧ AnswersReturned (e.state 14) := by
  have hrun : checkRun (System.step (P := Bool)) (fun _ _ => True)
      (fun n s => decide ((s.proc true).code = [] ∧ (n = 14 → s.returned = [⟨false, 7, 7⟩])))
      0 twoProcesses harmlessScript = true := by decide +kernel
  obtain ⟨e, h0, hlen, -, htest⟩ := exists_execution .timer hrun
  have hlen14 : e.len = 14 := hlen
  have htest' : ∀ n ≤ 14, ((e.state n).proc true).code = [] ∧
      (n = 14 → (e.state n).returned = [⟨false, 7, 7⟩]) := by
    intro n hn
    have ht := of_decide_eq_true (htest n hn)
    rwa [Nat.zero_add] at ht
  refine ⟨e, hlen14, (htest' 14 (le_refl _)).2 rfl,
    answers_returned e (h0 ▸ twoProcesses_initial) (n := 14) (by omega) ?_⟩
  rintro k hk ⟨-, p, q, -, hw, hq, hwin⟩
  have hcode := (htest' k (by omega)).1
  cases p with
  | true =>
    unfold WritesRequestReg at hw
    rw [hcode] at hw
    simp at hw
  | false =>
    rw [Bool.eq_true_of_not_eq_false hq] at hwin
    rw [show _ = _ from hwin] at hcode
    simp at hcode

/-- The first process is preempted in its window, and the second one makes a call. -/
def preemptedScript : List (System Bool → Move Bool) :=
  [.dispatch false, .call .syscall0 fun _ => 5, .exec, .exec, .answer false 7, .dispatch false,
    .exec, .exec, .timer, .dispatch true, .call .syscall0 fun _ => 5, .exec, .exec,
    .answer true 9, .dispatch true, .exec, .exec, .exec, .timer, .dispatch false, .exec].map
    fun m _ => m

/-- The first process returns the result of the second one. -/
theorem answers_mixed_up : ∃ e : Execution (System.step (P := Bool)) fun _ _ => True,
    Initial (e.state 0) ∧ (e.state 21).returned = [⟨true, 9, 9⟩, ⟨false, 7, 9⟩] ∧ e.len = 21 ∧
      ¬ AnswersReturned (e.state 21) := by
  have hrun : checkRun (System.step (P := Bool)) (fun _ _ => True)
      (fun n s => decide (n = 21 → s.returned = [⟨true, 9, 9⟩, ⟨false, 7, 9⟩]))
      0 twoProcesses preemptedScript = true := by decide +kernel
  obtain ⟨e, h0, hlen, -, htest⟩ := exists_execution .timer hrun
  have hret : (e.state 21).returned = [⟨true, 9, 9⟩, ⟨false, 7, 9⟩] :=
    of_decide_eq_true (htest 21 (le_refl 21)) rfl
  refine ⟨e, h0 ▸ twoProcesses_initial, hret, hlen, ?_⟩
  intro h
  have hval := h ⟨false, 7, 9⟩ (by rw [hret]; simp)
  exact absurd hval (by decide)

end Xeros.Analysis
