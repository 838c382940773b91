import Xeros.Foundations.Loop
import Xeros.Foundations.Words

/-!
# Constants and data types of the kernel

Translated from `xeroskernel.h`, `pcb.h`, `i386.h` and the file-level variables of the C files.

* A `proc_ctrl_block_t *` is one of the table's entries, the idle process, or null
  (`Option PcbPtr`).
* The fields of a process control block are held in two tables: `Pcb` has the data fields, the
  link fields (`next_proc`, `prev_proc` and the blocking queue heads and tails) are held with the
  queue heads in `Xeros.Model.Queues`.
* `mem` is the memory that user pointers and `kmalloc` reach: process stacks, signal tables,
  free blocks and user data.  The kernel's own variables are fields of the records below and
  are not part of `mem`.  Nothing protects them (`verify_usrptr` accepts addresses below the
  kernel stack, and `kprintf`, which gets the strings of users as formats, writes to the words
  that it takes for its arguments): what is said about runs is about runs in which nobody stores
  into them, nor into the frames on the kernel stack.
* A function is `none` where the C code does not come back to its caller: a failed `ASSERT`
  spins for ever, a loop that exceeds `loopBound` rounds has run through a state twice, a
  null pointer was dereferenced, or an address lies outside the segment.
-/

set_option autoImplicit false

namespace Xeros.Model

open Xeros.Foundations

/-! ## Return codes -/

abbrev ok : ℤ := 1
abbrev syserr : ℤ := -1
abbrev blockerr : ℤ := -5
abbrev einval : ℤ := -6
abbrev enomem : ℤ := -7
abbrev eproclimit : ℤ := -8
abbrev ebadf : ℤ := -11
abbrev ebusy : ℤ := -13

abbrev syspidOk : ℤ := 0
abbrev syspidDne : ℤ := -1
abbrev syspidMe : ℤ := -2
abbrev syserrOther : ℤ := -3
abbrev syskillTargetDne : ℤ := -712
abbrev syskillInvalidSignal : ℤ := -651
abbrev syswaitSignalled : ℤ := -2
abbrev syshandlerInvalidSignal : ℤ := -1
abbrev syshandlerInvalidFuncptr : ℤ := -2
abbrev procSignalled : ℤ := -362
abbrev signalDne : ℤ := -2

/-! ## Sizes and addresses -/

abbrev defaultStackSize : ℤ := 8192
abbrev idleProcStackSize : ℕ := 1024
abbrev tickLengthInMs : ℕ := 10
abbrev pcbTableSize : ℕ := 32
abbrev pcbNumFds : ℕ := 4
abbrev signalTableSize : ℕ := 32
abbrev kbdTaskListSize : ℕ := pcbTableSize
abbrev keyboardBufferSize : ℕ := 5

abbrev kernelStack : ℤ := 16384
/-- `NBPG` -/
abbrev nbpg : ℕ := 4096
abbrev holeStart : ℕ := 655360
abbrev holeEnd : ℕ := 1662976

/-- `sizeof(memory_header_t)` -/
abbrev sizeofMemoryHeader : ℕ := 16
/-- `sizeof(context_frame_t)` -/
abbrev sizeofContextFrame : ℕ := 44
/-- `sizeof(processStatuses)` -/
abbrev sizeofProcessStatuses : ℤ := 384

/-- A bound on loop rounds.  Every loop of the kernel is deterministic over fewer states, so a
loop that is still running after this many rounds never ends. -/
def loopBound : ℕ := 2 ^ 64

/-- `ASSERT(x)`: the kernel spins for ever when `x` is false. -/
def cAssert (x : Prop) [Decidable x] : Option Unit := if x then some () else none

@[simp] theorem cAssert_eq_some {x : Prop} [Decidable x] {u : Unit} :
    cAssert x = some u ↔ x := by
  unfold cAssert
  split_ifs with h <;> simp [h]

@[simp] theorem cAssert_eq_none {x : Prop} [Decidable x] : cAssert x = none ↔ ¬ x := by
  unfold cAssert
  split_ifs with h <;> simp [h]

theorem cAssert_pos {x : Prop} [Decidable x] (h : x) : cAssert x = some () := if_pos h

/-! ## Process control blocks -/

/-- `proc_state_enum_t` -/
inductive ProcState where
  | ready | stopped | running | blocked
  deriving DecidableEq, Repr

/-- `blocking_queue_t` -/
inductive BlockingQueue where
  | sender | receiver | waiting | receiveAny | sleep | device | noBlocker
  deriving DecidableEq, Repr

/-- The numeric value of a process state. -/
def ProcState.toInt : ProcState → ℤ
  | ready => 0
  | stopped => 1
  | running => 2
  | blocked => 3

/-- The numeric value of a blocking queue name. -/
def BlockingQueue.toInt : BlockingQueue → ℤ
  | sender => 0
  | receiver => 1
  | waiting => 2
  | receiveAny => 3
  | sleep => 4
  | device => 5
  | noBlocker => 6

/-- The process control blocks that exist: `g_pcb_table[i]` and `g_idle_proc`. -/
inductive PcbPtr where
  | table (i : Fin pcbTableSize)
  | idle
  deriving DecidableEq, Repr

/-- `device_id_enum_t`, which is also the index of a device table entry. -/
inductive DeviceId where
  | keyboardNoEcho | keyboard
  deriving DecidableEq, Repr

/-- The data fields of `proc_ctrl_block_t`. -/
structure Pcb where
  pid : ℤ
  currState : ProcState
  cpuTime : ℤ
  memoryRegion : ℕ
  esp : ℕ
  args : ℕ
  ret : ℤ
  signalTable : ℕ
  signalsFired : BitVec 32
  signalsEnabled : Bool
  fdTable : Fin pcbNumFds → Option DeviceId
  blockingProc : Option PcbPtr
  blockingQueueName : BlockingQueue

/-- All bytes zero: the contents of static storage, and of a block after `memset(proc, 0, ..)`. -/
def Pcb.zero : Pcb where
  pid := 0
  currState := .ready
  cpuTime := 0
  memoryRegion := 0
  esp := 0
  args := 0
  ret := 0
  signalTable := 0
  signalsFired := 0
  signalsEnabled := false
  fdTable := fun _ => none
  blockingProc := none
  blockingQueueName := .sender

/-! ## The keyboard driver's variables (kbd.c) -/

/-- `kbd_task_t` -/
structure KbdTask where
  pcb : Option PcbPtr
  buf : ℕ
  buflen : ℤ
  i : ℤ
  waitingOnRead : Bool

/-- The file-level variables of `kbd.c`, and whether the keyboard interrupt is unmasked. -/
structure Keyboard where
  gKbdTaskList : Fin kbdTaskListSize → KbdTask
  gKbdTaskRefcount : ℤ
  gKbdRefcount : ℤ
  gKbdCurrentType : ℤ
  gKbdDone : Bool
  gKeyboardKeystateFlag : BitVec 32
  gKeyboardBuffer : ℕ → UInt8
  gKeyboardBufferHead : ℕ
  gKeyboardBufferTail : ℕ
  gKeyboardEof : UInt8
  gKeyboardEchoFlag : UInt8
  irqEnabled : Bool

/-- Static storage before `kbd_init`. -/
def Keyboard.zero : Keyboard where
  gKbdTaskList := fun _ => ⟨none, 0, 0, 0, false⟩
  gKbdTaskRefcount := 0
  gKbdRefcount := 0
  gKbdCurrentType := 0
  gKbdDone := false
  gKeyboardKeystateFlag := 0
  gKeyboardBuffer := fun _ => 0
  gKeyboardBufferHead := 0
  gKeyboardBufferTail := 0
  gKeyboardEof := 0
  gKeyboardEchoFlag := 0
  irqEnabled := false

/-! ## The kernel state -/

/-- What linking and booting fix: the memory limits, the addresses of code the kernel writes into
stacks, and where on the kernel stack the handler of `sysputs` has the arguments of `kprintf` and
the array `string` of `_doprnt`. -/
structure Image where
  freemem : ℕ
  maxaddr : ℕ
  sysstop : ℕ
  sigtramp : ℕ
  idleproc : ℕ
  kprintfArgs : ℕ
  doprntString : ℕ

/-- The variables of `mem.c`: memory itself and the head of the free list. -/
structure Heap where
  image : Image
  mem : Memory
  gFreeList : ℕ

/-- The kernel state without its process queues.  `transfers` is a history variable: it lists
the message copies done so far, sender first. -/
structure Core extends Heap where
  pcb : PcbPtr → Pcb
  currproc : PcbPtr
  gDeviceTable : DeviceId → ℕ
  kbd : Keyboard
  transfers : List (PcbPtr × PcbPtr)

/-- Assign fields of the control block `p`. -/
def Core.setPcb (c : Core) (p : PcbPtr) (f : Pcb → Pcb) : Core :=
  { c with pcb := Function.update c.pcb p (f (c.pcb p)) }

def Core.setHeap (c : Core) (h : Heap) : Core := { c with toHeap := h }

def Core.setMem (c : Core) (m : Memory) : Core := c.setHeap { c.toHeap with mem := m }

/-- Write a word of memory. -/
def Core.store (c : Core) (a w : ℕ) : Core := c.setMem (store32 c.mem a w)

/-- The running process's control block. -/
abbrev Core.current (c : Core) : Pcb := c.pcb c.currproc

/-- `proc->args[i]` -/
def Core.argOf (c : Core) (p : PcbPtr) (i : ℕ) : ℕ := load32 c.mem ((c.pcb p).args + 4 * i)

/-- `currproc->args[i]` -/
def Core.arg (c : Core) (i : ℕ) : ℕ := c.argOf c.currproc i

theorem Core.setPcb_pcb (c : Core) (p q : PcbPtr) (f : Pcb → Pcb) :
    (c.setPcb p f).pcb q = if q = p then f (c.pcb p) else c.pcb q := by
  simp [Core.setPcb, Function.update_apply]

@[simp] theorem Core.setPcb_pcb_self (c : Core) (p : PcbPtr) (f : Pcb → Pcb) :
    (c.setPcb p f).pcb p = f (c.pcb p) := by
  simp [Core.setPcb]

@[simp] theorem Core.setPcb_pcb_ne (c : Core) {p q : PcbPtr} (f : Pcb → Pcb) (h : q ≠ p) :
    (c.setPcb p f).pcb q = c.pcb q := by
  simp [Core.setPcb, h]

@[simp] theorem Core.setPcb_toHeap (c : Core) (p : PcbPtr) (f : Pcb → Pcb) :
    (c.setPcb p f).toHeap = c.toHeap := rfl

@[simp] theorem Core.setPcb_currproc (c : Core) (p : PcbPtr) (f : Pcb → Pcb) :
    (c.setPcb p f).currproc = c.currproc := rfl

@[simp] theorem Core.setPcb_kbd (c : Core) (p : PcbPtr) (f : Pcb → Pcb) :
    (c.setPcb p f).kbd = c.kbd := rfl

@[simp] theorem Core.setPcb_gDeviceTable (c : Core) (p : PcbPtr) (f : Pcb → Pcb) :
    (c.setPcb p f).gDeviceTable = c.gDeviceTable := rfl

@[simp] theorem Core.setPcb_transfers (c : Core) (p : PcbPtr) (f : Pcb → Pcb) :
    (c.setPcb p f).transfers = c.transfers := rfl

@[simp] theorem Core.setHeap_toHeap (c : Core) (h : Heap) : (c.setHeap h).toHeap = h := rfl

@[simp] theorem Core.setHeap_pcb (c : Core) (h : Heap) : (c.setHeap h).pcb = c.pcb := rfl

@[simp] theorem Core.setHeap_currproc (c : Core) (h : Heap) :
    (c.setHeap h).currproc = c.currproc := rfl

@[simp] theorem Core.setHeap_kbd (c : Core) (h : Heap) : (c.setHeap h).kbd = c.kbd := rfl

@[simp] theorem Core.setHeap_gDeviceTable (c : Core) (h : Heap) :
    (c.setHeap h).gDeviceTable = c.gDeviceTable := rfl

@[simp] theorem Core.setHeap_transfers (c : Core) (h : Heap) :
    (c.setHeap h).transfers = c.transfers := rfl

@[simp] theorem Core.setMem_mem (c : Core) (m : Memory) : (c.setMem m).mem = m := rfl

@[simp] theorem Core.setMem_pcb (c : Core) (m : Memory) : (c.setMem m).pcb = c.pcb := rfl

@[simp] theorem Core.setMem_currproc (c : Core) (m : Memory) :
    (c.setMem m).currproc = c.currproc := rfl

@[simp] theorem Core.setMem_kbd (c : Core) (m : Memory) : (c.setMem m).kbd = c.kbd := rfl

@[simp] theorem Core.setMem_transfers (c : Core) (m : Memory) :
    (c.setMem m).transfers = c.transfers := rfl

@[simp] theorem Core.store_pcb (c : Core) (a w : ℕ) : (c.store a w).pcb = c.pcb := rfl

@[simp] theorem Core.store_currproc (c : Core) (a w : ℕ) : (c.store a w).currproc = c.currproc :=
  rfl

@[simp] theorem Core.store_kbd (c : Core) (a w : ℕ) : (c.store a w).kbd = c.kbd := rfl

@[simp] theorem Core.store_mem (c : Core) (a w : ℕ) : (c.store a w).mem = store32 c.mem a w := rfl

end Xeros.Model
