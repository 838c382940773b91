import Xeros.Model.Create

/-!
# Signals and the context switch (signal.c, ctsw.c)

`ctsw_contextswitch` is split at its `iret`.  What the process does before it enters the kernel
again is not the kernel's doing: it is described by a `Trap`, which has the memory the process
leaves behind, its stack pointer and the interrupt it raised.
-/

set_option autoImplicit false

namespace Xeros.Model

open Xeros.Foundations

/-- The loop of `call_highest_priority_signal`, counting down from `signal_num`. -/
def highestSignal (fired : BitVec 32) : ℕ → ℕ
  | 0 => 0
  | n + 1 => if flagBitCheck fired (n + 1) then n + 1 else highestSignal fired n

/-- The part of `signal` that builds the frame of `sigtramp` below the process's context. -/
def Core.pushSignalFrame (c : Core) (proc : PcbPtr) (sigNo : ℕ) : Core :=
  let c := c.setPcb proc fun x => { x with signalsEnabled := false }
  let oldSp := (c.pcb proc).esp
  let stackPtr := subWord oldSp 4
  let c := c.store stackPtr (toWord (c.pcb proc).ret)
  let stackPtr := subWord stackPtr 4
  let c := c.store stackPtr oldSp
  let stackPtr := subWord stackPtr 4
  let c := c.store stackPtr (c.handlerOf proc sigNo)
  let stackPtr := subWord stackPtr 4
  let c := c.store stackPtr 0xCAFECAFE
  let newContext := subWord stackPtr sizeofContextFrame
  let c := c.setPcb proc fun x => { x with esp := newContext }
  c.setMem (setupContextFrame c.mem newContext c.image.sigtramp)

/-- `signal` -/
def Core.signal (c : Core) (pid sigNo : ℤ) : ℤ × Core :=
  match c.pidToProc pid with
  | none => (syspidDne, c)
  | some proc =>
    if sigNo < 0 ∨ sigNo ≥ signalTableSize then (signalDne, c)
    else (0, c.pushSignalFrame proc sigNo.toNat)

/-- `call_highest_priority_signal` -/
def Core.callHighestPrioritySignal (c : Core) (proc : PcbPtr) : Option Core := do
  cAssert ((c.pcb proc).signalsFired ≠ 0)
  let signalNum := highestSignal (c.pcb proc).signalsFired (signalTableSize - 1)
  let c := c.setPcb proc fun x =>
    { x with signalsFired := flagBitClear x.signalsFired signalNum }
  return (c.signal (c.pcb proc).pid signalNum).2

/-- `ctsw_reason` -/
inductive CtswReason where
  | syscall | timer | keyboard
  deriving DecidableEq, Repr

/-- How the process leaves user mode: memory, stack pointer, and interrupt; and the bytes that
the keyboard's control and data ports hold meanwhile. -/
structure Trap where
  mem : Memory
  esp : ℕ
  reason : CtswReason
  control : ℕ
  data : ℕ

namespace KernelOf

variable {Q : Type}

/-- `ctsw_contextswitch` up to the `iret` into the process. -/
def enterUser (s : KernelOf Q) (proc : PcbPtr) : Option (KernelOf Q) := do
  let c ←
    if (s.pcb proc).signalsFired ≠ 0 ∧ (s.pcb proc).signalsEnabled = true then
      s.toCore.callHighestPrioritySignal proc
    else some s.toCore
  -- `cf->eax = proc->ret`
  return { s with toCore := c.store ((c.pcb proc).esp + 28) (toWord (c.pcb proc).ret) }

/-- `ctsw_contextswitch` from the kernel entry points on, but for the request it returns. -/
def leaveUser (s : KernelOf Q) (proc : PcbPtr) (t : Trap) : KernelOf Q :=
  (s.setMem t.mem).setPcb proc fun x =>
    { x with
      esp := t.esp
      ret := toInt (load32 t.mem (t.esp + 28))
      args :=
        match t.reason with
        | .syscall => (t.esp + 48) % 4294967296
        | .timer => 0xDEADBEEF
        | .keyboard => 0xCAFEBABE }

end KernelOf

end Xeros.Model
