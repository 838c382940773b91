import Xeros.Model.Processes

/-!
# Process creation (create.c), and the initialization of the process table
-/

set_option autoImplicit false

namespace Xeros.Model

open Xeros.Foundations

/-- `getCS()`: the kernel runs on the code segment that `setsegs` installs. -/
abbrev getCS : ℕ := 8

/-- `STARTING_EFLAGS | ARM_INTERRUPTS` -/
abbrev startingEflags : ℕ := 0x3200

/-- `setup_context_frame`: the frame at `cf` has `ebp`, `esp`, `iret_eip`, `iret_cs` and
`eflags` at offsets 8, 12, 32, 36 and 40. -/
def setupContextFrame (m : Memory) (cf func : ℕ) : Memory :=
  let m := memset m cf 0xA5 sizeofContextFrame
  let m := store32 m (cf + 32) func
  let m := store32 m (cf + 36) getCS
  let m := store32 m (cf + 40) startingEflags
  let m := store32 m (cf + 12) ((cf + 1) % 4294967296)
  store32 m (cf + 8) (load32 m (cf + 12))

namespace KernelOf

variable {Q : Type} [ProcLists Q]

/-- The part of `create` that lays out the new process's stack. -/
def setupStack (s : KernelOf Q) (newProc : PcbPtr) (stackBottom func : ℕ) (stack : ℤ) :
    KernelOf Q :=
  let s := s.setPcb newProc fun x => { x with memoryRegion := stackBottom }
  let fakeReturnAddr := toWord (stackBottom + stack - 4)
  let s := s.store fakeReturnAddr s.image.sysstop
  let newContext := subWord fakeReturnAddr sizeofContextFrame
  let s := s.setPcb newProc fun x => { x with esp := newContext }
  s.setMem (setupContextFrame s.mem newContext func)

/-- `create` -/
def create (s : KernelOf Q) (func : ℕ) (stack : ℤ) : Option (ℤ × KernelOf Q) :=
  if func = 0 then some (einval, s)
  else do
    let stack := if stack < defaultStackSize then defaultStackSize else stack
    let (stackBottom, s) ← s.kmalloc (toWord stack)
    if stackBottom = 0 then
      some (enomem, s)
    else do
      let (newProc, s) ← s.getNextAvailablePcb
      match newProc with
      | none => do
        let s ← s.kfree stackBottom
        return (eproclimit, s)
      | some newProc => do
        let s ← (s.setupStack newProc stackBottom func stack).addPcbToQueue newProc .ready
        return ((s.pcb newProc).pid, s)

/-- `init_idle_proc` -/
def initIdleProc (s : KernelOf Q) : Option (KernelOf Q) := do
  let s := (s.setQueues (ProcLists.clearLinks s.queues .idle)).setPcb .idle fun _ => Pcb.zero
  let (stackBottom, s) ← s.kmalloc idleProcStackSize
  cAssert (stackBottom ≠ 0)
  let newContext := subWord (stackBottom + idleProcStackSize) sizeofContextFrame
  let s := s.setPcb .idle fun x => { x with memoryRegion := stackBottom, esp := newContext }
  let s := s.setMem (setupContextFrame s.mem newContext s.image.idleproc)
  return s.setPcb .idle fun x => { x with pid := 0, currState := .blocked }

/-- One round of the second loop of `pcb_table_init`. -/
def tableInitRound (s : KernelOf Q) (i : Fin pcbTableSize) : Option (KernelOf Q) :=
  (s.setPcb (.table i) fun x => { x with pid := i.val + 1 }).addPcbToQueue (.table i) .stopped

/-- `pcb_table_init` -/
def pcbTableInit (s : KernelOf Q) : Option (KernelOf Q) := do
  let s := s.setQueues (ProcLists.initProcQueues s.queues)
  let s ← (List.finRange pcbTableSize).foldlM tableInitRound s
  s.initIdleProc

end KernelOf

end Xeros.Model
