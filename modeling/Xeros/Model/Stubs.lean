import Mathlib.Data.List.Basic
import Mathlib.Logic.Function.Basic
import Mathlib.Tactic

/-!
# The user side of a system call (syscall.c)

The functions `syscall0` to `syscall3` push a request and its arguments, enter the kernel, and take
the result out of `eax` by way of the static variable `request_reg`, which all processes share.  An
interrupt can come between any two of their instructions.
-/

set_option autoImplicit false

namespace Xeros.Model.Stubs

/-- The instructions of the functions; `push i` pushes the parameter `i`, and the parameter `0` is
the request. -/
inductive Instr where
  | push (i : ℕ)
  | int50
  | popRequestReg
  | movlEaxRequestReg
  /-- `return (int)request_reg;` -/
  | returnRequestReg
  deriving DecidableEq

/-- The functions. -/
inductive Stub where
  | syscall0
  | syscall1
  | syscall2
  | syscall3

open Instr in
/-- What the functions do. -/
def Stub.code : Stub → List Instr
  | .syscall0 => [push 0, int50, popRequestReg, movlEaxRequestReg, returnRequestReg]
  | .syscall1 =>
    [push 1, push 0, int50, popRequestReg, popRequestReg, movlEaxRequestReg, returnRequestReg]
  | .syscall2 =>
    [push 2, push 1, push 0, int50, popRequestReg, popRequestReg, popRequestReg,
      movlEaxRequestReg, returnRequestReg]
  | .syscall3 =>
    [push 3, push 2, push 1, push 0, int50, popRequestReg, popRequestReg, popRequestReg,
      popRequestReg, movlEaxRequestReg, returnRequestReg]

/-- A process: the rest of the function it is in, that function's parameters, its stack and its
register, which interrupts save and restore.  `answer` is a history variable: the result that the
kernel gave to its last call. -/
structure Process where
  code : List Instr
  params : ℕ → ℕ
  stack : List ℕ
  eax : ℕ
  inKernel : Bool
  answer : ℕ

/-- A call that has returned. -/
structure Returned (P : Type) where
  proc : P
  answer : ℕ
  value : ℕ
  deriving DecidableEq

/-- All processes, `request_reg`, and who runs (`none` for the kernel).  `returned` is a history
variable. -/
structure System (P : Type) where
  proc : P → Process
  requestReg : ℕ
  running : Option P
  returned : List (Returned P)

/-- What happens next. -/
inductive Move (P : Type) where
  /-- outside the functions, the running process does what it likes with its own state -/
  | compute (stack : List ℕ) (eax : ℕ)
  | call (stub : Stub) (params : ℕ → ℕ)
  /-- the running process executes an instruction -/
  | exec
  | timer
  /-- the kernel gives a process the result of its call -/
  | answer (p : P) (result : ℕ)
  | dispatch (p : P)

namespace System

variable {P : Type} [DecidableEq P]

def setProc (s : System P) (p : P) (x : Process) : System P :=
  { s with proc := Function.update s.proc p x }

/-- An instruction of the process `p`. -/
def exec (s : System P) (p : P) : Option (System P) :=
  let x := s.proc p
  match x.code with
  | [] => none
  | .push i :: code => some (s.setProc p { x with code := code, stack := x.params i :: x.stack })
  | .int50 :: code =>
    some { s.setProc p { x with code := code, inKernel := true } with running := none }
  | .popRequestReg :: code =>
    some { s.setProc p { x with code := code, stack := x.stack.tail } with
      requestReg := x.stack.headD 0 }
  | .movlEaxRequestReg :: code =>
    some { s.setProc p { x with code := code } with requestReg := x.eax }
  | .returnRequestReg :: code =>
    some { s.setProc p { x with code := code, eax := s.requestReg } with
      returned := s.returned ++ [⟨p, x.answer, s.requestReg⟩] }

/-- One step of the system, if it is possible. -/
def step (s : System P) : Move P → Option (System P)
  | .compute stack eax => do
    let p ← s.running
    if (s.proc p).code = [] then some (s.setProc p { s.proc p with stack := stack, eax := eax })
    else none
  | .call stub params => do
    let p ← s.running
    if (s.proc p).code = [] then
      some (s.setProc p { s.proc p with code := stub.code, params := params })
    else none
  | .exec => do
    let p ← s.running
    s.exec p
  | .timer => s.running.map fun _ => { s with running := none }
  | .answer p result =>
    if s.running = none ∧ (s.proc p).inKernel = true then
      some (s.setProc p
        { s.proc p with eax := result, answer := result, inKernel := false })
    else none
  | .dispatch p =>
    if s.running = none ∧ (s.proc p).inKernel = false then some { s with running := some p }
    else none

end System

end Xeros.Model.Stubs
