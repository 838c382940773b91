import Xeros.Foundations.Execution
import Xeros.Refinement.Boot

/-!
# Runs of the kernel

A `Run` starts from a booted kernel and takes one turn of the dispatcher after the other.  While no
request is about the keyboard device, every state of it is `Ready`, and every turn is one `Event`.
-/

set_option autoImplicit false

namespace Xeros.Model

open Xeros.Foundations Xeros.Abstract Xeros.Interface

/-- The arguments of the system call that the trap `t` makes. -/
def Trap.arg (t : Trap) (i : ℕ) : ℕ := load32 t.mem ((t.esp + 48) % 4294967296 + 4 * i)

/-- The trap is a timer interrupt, or a system call that passes for one. -/
def Trap.IsTick (t : Trap) : Prop := t.request = some .timerInt

instance : DecidablePred Trap.IsTick := fun t => inferInstanceAs (Decidable (t.request = _))

namespace KernelOf

/-- The arguments as the handler reads them. -/
theorem atTrap_arg {Q : Type} [ProcLists Q] {s s1 : KernelOf Q} {t : Trap}
    (hs : s.atTrap t = some s1) (hr : t.reason = .syscall) (i : ℕ) : s1.arg i = t.arg i := by
  unfold atTrap at hs
  obtain ⟨u, -, rfl⟩ := Option.map_eq_some_iff.mp hs
  unfold Core.arg Core.argOf Trap.arg leaveUser
  simp [hr]

/-- A run of the kernel from power-on. -/
structure Run (Q : Type) [ProcLists Q] extends Execution (dispatchStep (Q := Q)) Enabled where
  image : Image
  mem : Memory
  root : ℕ
  start : boot image mem root = some (state 0)

namespace Run

variable {Q : Type} [ProcLists Q] [LawfulProcLists Q] (r : Run Q) {n : ℕ}

/-- Up to step `n`, no request is about the keyboard device: nobody calls `sysopen`, not even to be
refused, so that the keyboard stays masked, and no system call has the number of its interrupt. -/
def Deviceless (n : ℕ) : Prop := ∀ k < n, KernelOf.Deviceless (r.input k)

omit [LawfulProcLists Q] in
theorem Deviceless.mono {r : Run Q} {m n : ℕ} (h : r.Deviceless n) (hmn : m ≤ n) :
    r.Deviceless m := fun k hk => h k (by omega)

/-- With no device open, the kernel stays in order. -/
theorem ready (hn : n ≤ r.len) (hd : r.Deviceless n) : Ready (r.state n) := by
  refine r.invariant (I := fun k => Ready (r.state k)) (Nat.zero_le n) hn (boot_ready r.start) ?_
  intro k _ hk hallowed hstep hready
  exact step_ready hready hallowed (hd k hk) hstep

/-- The kernel as the handler of step `n` finds it. -/
theorem turn (hn : n < r.len) (hd : r.Deviceless (n + 1)) :
    ∃ s req, (r.state n).atTrap (r.input n) = some s ∧ (r.input n).request = some req ∧ Ready s ∧
      s.view = (r.state n).view.setRet (r.state n).currproc (Trap.eax (r.input n)) ∧
      s.dispatchRequest (r.input n) req = some (r.state (n + 1)) ∧
      Turn s req (r.state (n + 1)) := by
  have hready := r.ready hn.le (hd.mono n.le_succ)
  obtain ⟨s, req, hs, hreq, hdis⟩ := dispatchStep_eq_some (r.next n hn)
  obtain ⟨s', req', hs', hreq', hready', hview, hturn⟩ :=
    step_turn hready (r.allows n hn) (hd n n.lt_succ_self) (r.next n hn)
  rw [hs] at hs'
  obtain rfl := Option.some.inj hs'
  rw [hreq] at hreq'
  obtain rfl := Option.some.inj hreq'
  exact ⟨s, req, hs, hreq, hready', hview, hdis, hturn⟩

/-- The event of step `n`, on the view that its handler finds. -/
theorem event (hn : n < r.len) (hd : r.Deviceless (n + 1)) :
    ∃ s req e, (r.state n).atTrap (r.input n) = some s ∧ (r.input n).request = some req ∧ Ready s ∧
      s.view = (r.state n).view.setRet (r.state n).currproc (Trap.eax (r.input n)) ∧
      Handled s req e ∧ e.Enabled s.view ∧ (r.state (n + 1)).view = e.apply s.view := by
  obtain ⟨s, req, hs, hreq, hready, hview, -, -, e, hh, he, hv⟩ := r.turn hn hd
  exact ⟨s, req, e, hs, hreq, hready, hview, hh, he, hv⟩

end Run

/-! ## Runs from scripts -/

instance {Q : Type} (s : KernelOf Q) (t : Trap) : Decidable (s.Enabled t) :=
  inferInstanceAs (Decidable ((_ → _) ∧ (_ → _)))

instance (t : Trap) : Decidable (KernelOf.Deviceless t) :=
  inferInstanceAs (Decidable (∀ req, t.request = some req → req ≠ .keyboardInt ∧ req ≠ .sysopen))

/-- Store words one after the other. -/
def storeWords (m : Memory) (a : ℕ) : List ℕ → Memory
  | [] => m
  | w :: l => storeWords (store32 m a w) (a + 4) l

/-- What a process does in user mode: it stores words, pushes a request number and arguments, and
enters the kernel. -/
structure Act where
  reason : CtswReason
  request : List ℕ
  stores : List (ℕ × List ℕ)
  control : ℕ
  data : ℕ

/-- A system call. -/
def Act.call (request : List ℕ) (stores : List (ℕ × List ℕ)) : Act :=
  ⟨.syscall, request, stores, 0, 0⟩

/-- A timer interrupt. -/
def Act.tick : Act := ⟨.timer, [], [], 0, 0⟩

/-- A keyboard interrupt with the scancode `data`. -/
def Act.key (data : ℕ) : Act := ⟨.keyboard, [], [], 1, data⟩

/-- The trap that an act of the running process leads to. -/
def Act.trap {Q : Type} (a : Act) (s : KernelOf Q) : Trap :=
  let s := (s.enterUser s.currproc).getD s
  let sp := (s.pcb s.currproc).esp - 256
  { mem := a.stores.foldl (fun m w => storeWords m w.1 w.2) (storeWords s.mem (sp + 44) a.request)
    esp := sp
    reason := a.reason
    control := a.control
    data := a.data }

/-- A machine with 4 MB of memory and a small kernel at its bottom. -/
def smallPc : Image where
  freemem := 131072
  maxaddr := 4194303
  sysstop := 40000
  sigtramp := 40100
  idleproc := 40200
  kprintfArgs := 131040
  doprntString := 130900

/-- Boot, let the processes act as the script says, and test the states on the way. -/
def perform {Q : Type} [ProcLists Q] (image : Image) (root : ℕ) (check : KernelOf Q → Trap → Prop)
    [∀ s t, Decidable (check s t)] (script : List Act) (test : ℕ → KernelOf Q → Bool) : Bool :=
  match boot image (fun _ => 0) root with
  | none => false
  | some s => checkRun dispatchStep (fun s t => s.Enabled t ∧ check s t) test 0 s
      (script.map Act.trap)

/-- A script that can be performed on a machine is a run on it, which passes the tests. -/
theorem exists_run_on {Q : Type} [ProcLists Q] (image : Image) (root : ℕ)
    (check : KernelOf Q → Trap → Prop) [∀ s t, Decidable (check s t)] (script : List Act)
    (test : ℕ → KernelOf Q → Bool) (h : perform image root check script test = true) :
    ∃ r : Run Q, r.image = image ∧ r.len = script.length ∧
      (∀ n < r.len, check (r.state n) (r.input n)) ∧
      (∀ n a, script[n]? = some a → r.input n = a.trap (r.state n)) ∧
      ∀ n ≤ script.length, test n (r.state n) = true := by
  unfold perform at h
  cases hboot : (boot image (fun _ => 0) root : Option (KernelOf Q)) with
  | none =>
    rw [hboot] at h
    exact absurd h (by simp)
  | some s0 =>
    rw [hboot] at h
    obtain ⟨e, he0, hlen, hin, htest⟩ := exists_execution ⟨fun _ => 0, 0, .timer, 0, 0⟩ h
    rw [List.length_map] at hlen
    refine ⟨⟨e.mono fun _ _ hc => hc.1, image, fun _ => 0, root, ?_⟩, rfl, hlen, ?_, ?_, ?_⟩
    · rw [hboot]
      exact congrArg some he0.symm
    · exact fun n hn => (e.allows n hn).2
    · intro n a ha
      refine hin n a.trap ?_
      rw [List.getElem?_map, ha]
      rfl
    · intro n hn
      have ht := htest n (by rw [List.length_map]; exact hn)
      rwa [Nat.zero_add] at ht

/-- A script that can be performed is a run, which passes the tests. -/
theorem exists_run {Q : Type} [ProcLists Q] (image : Image) (root : ℕ)
    (check : KernelOf Q → Trap → Prop) [∀ s t, Decidable (check s t)] (script : List Act)
    (test : ℕ → KernelOf Q → Bool) (h : perform image root check script test = true) :
    ∃ r : Run Q, r.len = script.length ∧ (∀ n < r.len, check (r.state n) (r.input n)) ∧
      (∀ n a, script[n]? = some a → r.input n = a.trap (r.state n)) ∧
      ∀ n ≤ script.length, test n (r.state n) = true := by
  obtain ⟨r, -, hr⟩ := exists_run_on image root check script test h
  exact ⟨r, hr⟩

end KernelOf

end Xeros.Model
