import Xeros.Model.Types

/-!
# Process queues (pcb.c)

There is one ready and one stopped queue, and every control block owns a sender, a receiver and
a waiting queue; all of them, and the sleeping list of sleep.c, go through the one pair of link
fields of a control block.

`ProcLists` is what the rest of the kernel asks of these lists.  The kernel itself is written
over any implementation of it.  `Links` is the C code's own (pointers); what an implementation
has to do to the lists it stands for is in `Xeros.Interface.LawfulLists`.
-/

set_option autoImplicit false

namespace Xeros.Model

open Xeros.Foundations

/-- The head and tail a queue function is called with: `&g_proc_queue_heads[state]`, or
`&owner->blocking_queue_heads[queue]`. -/
inductive QueueRef where
  | proc (state : ProcState)
  | blocking (owner : PcbPtr) (queue : BlockingQueue)
  deriving DecidableEq, Repr

/-- The operations on process lists that the kernel uses. -/
class ProcLists (Q : Type) where
  /-- `*head` -/
  head : Q → QueueRef → Option PcbPtr
  /-- `add_proc_to_queue` -/
  addProcToQueue : Q → PcbPtr → QueueRef → Option Q
  /-- `remove_proc_from_queue` -/
  removeProcFromQueue : Q → PcbPtr → QueueRef → Q
  /-- `verify_pcb_queues`, given the states of all processes -/
  verifyPcbQueues : Q → (PcbPtr → ProcState) → Option Unit
  /-- `g_sleeping_list` -/
  gSleepingList : Q → Option PcbPtr
  /-- `proc->next_proc` of a sleeper -/
  nextProc : Q → PcbPtr → Option PcbPtr
  /-- the link updates of `add_to_sleeping_list`, between `prev` and `entry` -/
  linkSleeper : Q → PcbPtr → Option PcbPtr → Option PcbPtr → Q
  /-- the link updates of `remove_from_sleeping_list` -/
  unlinkSleeper : Q → PcbPtr → Q
  /-- the part of `memset(proc, 0, ..)` that clears link fields -/
  clearLinks : Q → PcbPtr → Q
  /-- the first loop of `pcb_table_init` -/
  initProcQueues : Q → Q
  /-- all lists empty, as in zeroed static storage -/
  empty : Q

/-! ## The links of the C code -/

/-- The link fields of `proc_ctrl_block_t`. -/
structure PcbLinks where
  nextProc : Option PcbPtr
  prevProc : Option PcbPtr
  blockingQueueHeads : BlockingQueue → Option PcbPtr
  blockingQueueTails : BlockingQueue → Option PcbPtr

def PcbLinks.zero : PcbLinks := ⟨none, none, fun _ => none, fun _ => none⟩

/-- All queue pointers: the link fields, `g_proc_queue_heads`, `g_proc_queue_tails` and
`g_sleeping_list`. -/
structure Links where
  pcb : PcbPtr → PcbLinks
  gProcQueueHeads : ProcState → Option PcbPtr
  gProcQueueTails : ProcState → Option PcbPtr
  gSleepingList : Option PcbPtr

namespace Links

/-- `p->next_proc` -/
def next (k : Links) (p : PcbPtr) : Option PcbPtr := (k.pcb p).nextProc

/-- `p->prev_proc` -/
def prev (k : Links) (p : PcbPtr) : Option PcbPtr := (k.pcb p).prevProc

def head (k : Links) : QueueRef → Option PcbPtr
  | .proc st => k.gProcQueueHeads st
  | .blocking o q => (k.pcb o).blockingQueueHeads q

def tail (k : Links) : QueueRef → Option PcbPtr
  | .proc st => k.gProcQueueTails st
  | .blocking o q => (k.pcb o).blockingQueueTails q

/-- Assign link fields of the control block `p`. -/
def setPcb (k : Links) (p : PcbPtr) (f : PcbLinks → PcbLinks) : Links :=
  { k with pcb := Function.update k.pcb p (f (k.pcb p)) }

def setNext (k : Links) (p : PcbPtr) (v : Option PcbPtr) : Links :=
  k.setPcb p fun x => { x with nextProc := v }

def setPrev (k : Links) (p : PcbPtr) (v : Option PcbPtr) : Links :=
  k.setPcb p fun x => { x with prevProc := v }

/-- `*head = v` -/
def setHead (k : Links) (q : QueueRef) (v : Option PcbPtr) : Links :=
  match q with
  | .proc st => { k with gProcQueueHeads := Function.update k.gProcQueueHeads st v }
  | .blocking o b => k.setPcb o fun x =>
      { x with blockingQueueHeads := Function.update x.blockingQueueHeads b v }

/-- `*tail = v` -/
def setTail (k : Links) (q : QueueRef) (v : Option PcbPtr) : Links :=
  match q with
  | .proc st => { k with gProcQueueTails := Function.update k.gProcQueueTails st v }
  | .blocking o b => k.setPcb o fun x =>
      { x with blockingQueueTails := Function.update x.blockingQueueTails b v }

/-- `add_proc_to_queue` -/
def addProcToQueue (k : Links) (proc : PcbPtr) (q : QueueRef) : Option Links := do
  let k ← match k.head q with
    | none => some (k.setHead q (some proc))
    | some _ => (k.tail q).map fun t => k.setNext t (some proc)
  let k := k.setPrev proc (k.tail q)
  let k := k.setNext proc none
  return k.setTail q (some proc)

/-- `remove_proc_from_queue` -/
def removeProcFromQueue (k : Links) (proc : PcbPtr) (q : QueueRef) : Links :=
  let k := match k.prev proc with
    | some p => k.setNext p (k.next proc)
    | none => k
  let k := match k.next proc with
    | some n => k.setPrev n (k.prev proc)
    | none => k
  let k := if k.head q = some proc then k.setHead q (k.next proc) else k
  let k := if k.tail q = some proc then k.setTail q (k.prev proc) else k
  (k.setPrev proc none).setNext proc none

/-- One round of the `while (curr->next_proc)` loop of `verify_pcb_queues`. -/
def verifyRound (k : Links) (state : PcbPtr → ProcState) (i : ProcState) (curr : PcbPtr) :
    Option (Iter PcbPtr PcbPtr) :=
  match k.next curr with
  | none => some (.done curr)
  | some n => do
    cAssert (state curr = i)
    let p ← k.prev curr
    cAssert (k.next p = some curr)
    cAssert (k.prev n = some curr)
    return .again n

/-- The body of `verify_pcb_queues` for the queue `i`. -/
def verifyQueue (k : Links) (state : PcbPtr → ProcState) (i : ProcState) : Option Unit :=
  match k.gProcQueueHeads i with
  | none => some ()
  | some first => do
    cAssert (k.prev first = none)
    cAssert (state first = i)
    let curr ← match k.next first with
      | none => some first
      | some n => (cAssert (k.prev n = some first)).map fun _ => n
    let curr ← loop (k.verifyRound state i) loopBound curr
    match k.prev curr with
    | none => some ()
    | some p => cAssert (k.next p = some curr)
    cAssert (state curr = i)
    cAssert (k.next curr = none)

/-- `verify_pcb_queues` -/
def verifyPcbQueues (k : Links) (state : PcbPtr → ProcState) : Option Unit := do
  k.verifyQueue state .ready
  k.verifyQueue state .stopped

/-- The link updates at the end of `add_to_sleeping_list`. -/
def linkSleeper (k : Links) (proc : PcbPtr) (prev entry : Option PcbPtr) : Links :=
  let k := match prev with
    | none => { k with gSleepingList := some proc }
    | some p => k.setNext p (some proc)
  let k := (k.setNext proc entry).setPrev proc prev
  match entry with
  | none => k
  | some e => k.setPrev e (some proc)

/-- The link updates of `remove_from_sleeping_list`. -/
def unlinkSleeper (k : Links) (proc : PcbPtr) : Links :=
  let k := match k.prev proc with
    | some p => k.setNext p (k.next proc)
    | none => k
  let k := match k.next proc with
    | some n => k.setPrev n (k.prev proc)
    | none => k
  let k := if k.gSleepingList = some proc then { k with gSleepingList := k.next proc } else k
  (k.setPrev proc none).setNext proc none

instance : ProcLists Links where
  head := head
  addProcToQueue := addProcToQueue
  removeProcFromQueue := removeProcFromQueue
  verifyPcbQueues := verifyPcbQueues
  gSleepingList := gSleepingList
  nextProc := next
  linkSleeper := linkSleeper
  unlinkSleeper := unlinkSleeper
  clearLinks k p := k.setPcb p fun _ => PcbLinks.zero
  initProcQueues k := { k with gProcQueueHeads := fun _ => none, gProcQueueTails := fun _ => none }
  empty := ⟨fun _ => PcbLinks.zero, fun _ => none, fun _ => none, none⟩

end Links

/-! ## The kernel state with its queues -/

/-- The kernel state over an implementation of the process lists. -/
structure KernelOf (Q : Type) extends Core where
  queues : Q

/-- The kernel as the C code has it. -/
abbrev Kernel := KernelOf Links

namespace KernelOf

variable {Q : Type}

/-- Assign fields of the control block `p`. -/
def setPcb (s : KernelOf Q) (p : PcbPtr) (f : Pcb → Pcb) : KernelOf Q :=
  { s with toCore := s.toCore.setPcb p f }

def setHeap (s : KernelOf Q) (h : Heap) : KernelOf Q :=
  { s with toCore := s.toCore.setHeap h }

def setMem (s : KernelOf Q) (m : Memory) : KernelOf Q := { s with toCore := s.toCore.setMem m }

def setCurrproc (s : KernelOf Q) (p : PcbPtr) : KernelOf Q :=
  { s with toCore := { s.toCore with currproc := p } }

def setDeviceTable (s : KernelOf Q) (t : DeviceId → ℕ) : KernelOf Q :=
  { s with toCore := { s.toCore with gDeviceTable := t } }

def setQueues (s : KernelOf Q) (queues : Q) : KernelOf Q := { s with queues := queues }

@[simp] theorem setHeap_toCore (s : KernelOf Q) (h : Heap) :
    (s.setHeap h).toCore = s.toCore.setHeap h := rfl

@[simp] theorem setHeap_queues (s : KernelOf Q) (h : Heap) : (s.setHeap h).queues = s.queues := rfl

@[simp] theorem setMem_toCore (s : KernelOf Q) (m : Memory) :
    (s.setMem m).toCore = s.toCore.setMem m := rfl

@[simp] theorem setMem_queues (s : KernelOf Q) (m : Memory) : (s.setMem m).queues = s.queues := rfl

@[simp] theorem setQueues_toCore (s : KernelOf Q) (k : Q) : (s.setQueues k).toCore = s.toCore :=
  rfl

@[simp] theorem setQueues_queues (s : KernelOf Q) (k : Q) : (s.setQueues k).queues = k := rfl

@[simp] theorem setCurrproc_queues (s : KernelOf Q) (p : PcbPtr) :
    (s.setCurrproc p).queues = s.queues := rfl

@[simp] theorem setCurrproc_toHeap (s : KernelOf Q) (p : PcbPtr) :
    (s.setCurrproc p).toHeap = s.toHeap := rfl

@[simp] theorem setCurrproc_currproc (s : KernelOf Q) (p : PcbPtr) :
    (s.setCurrproc p).currproc = p := rfl

@[simp] theorem setCurrproc_pcb (s : KernelOf Q) (p : PcbPtr) :
    (s.setCurrproc p).pcb = s.pcb := rfl

@[simp] theorem setCurrproc_kbd (s : KernelOf Q) (p : PcbPtr) :
    (s.setCurrproc p).kbd = s.kbd := rfl

@[simp] theorem setPcb_toCore (s : KernelOf Q) (p : PcbPtr) (f : Pcb → Pcb) :
    (s.setPcb p f).toCore = s.toCore.setPcb p f := rfl

@[simp] theorem setPcb_queues (s : KernelOf Q) (p : PcbPtr) (f : Pcb → Pcb) :
    (s.setPcb p f).queues = s.queues := rfl

variable [ProcLists Q]

/-- `add_pcb_to_queue` -/
def addPcbToQueue (s : KernelOf Q) (proc : PcbPtr) (newState : ProcState) :
    Option (KernelOf Q) := do
  cAssert ((s.pcb proc).currState ≠ newState)
  cAssert (newState = .ready ∨ newState = .stopped)
  let s := s.setPcb proc fun x => { x with currState := newState }
  if (s.pcb proc).pid = 0 then
    some s
  else do
    let queues ← ProcLists.addProcToQueue s.queues proc (.proc newState)
    ProcLists.verifyPcbQueues queues fun p => (s.pcb p).currState
    return s.setQueues queues

/-- `remove_pcb_from_queue` -/
def removePcbFromQueue (s : KernelOf Q) (proc : PcbPtr) : Option (KernelOf Q) := do
  cAssert ((s.pcb proc).currState ≠ .running)
  cAssert ((s.pcb proc).currState = .ready ∨ (s.pcb proc).currState = .stopped)
  let queues := ProcLists.removeProcFromQueue s.queues proc (.proc (s.pcb proc).currState)
  ProcLists.verifyPcbQueues queues fun p => (s.pcb p).currState
  return s.setQueues queues

/-- `get_next_proc` -/
def getNextProc (s : KernelOf Q) : Option (PcbPtr × KernelOf Q) := do
  let (proc, s) ← match ProcLists.head s.queues (.proc .ready) with
    | some proc => (s.removePcbFromQueue proc).map fun s => (proc, s)
    | none => some (.idle, s)
  return (proc, s.setPcb proc fun x => { x with currState := .running })

/-- `currproc = get_next_proc();` -/
def reschedule (s : KernelOf Q) : Option (KernelOf Q) := do
  let (proc, s) ← s.getNextProc
  return s.setCurrproc proc

/-- `add_proc_to_blocking_queue` -/
def addProcToBlockingQueue (s : KernelOf Q) (proc queueOwner : PcbPtr) (queue : BlockingQueue) :
    Option (KernelOf Q) := do
  let queues ← ProcLists.addProcToQueue s.queues proc (.blocking queueOwner queue)
  return (s.setQueues queues).setPcb proc fun x =>
    { x with blockingProc := some queueOwner, blockingQueueName := queue }

/-- `remove_proc_from_blocking_queue`: whether `proc` was in the queue. -/
def removeProcFromBlockingQueue (s : KernelOf Q) (proc : PcbPtr) (queueOwner : Option PcbPtr)
    (queue : BlockingQueue) : Option (Bool × KernelOf Q) := do
  let owner ← queueOwner
  if (s.pcb proc).blockingQueueName ≠ queue ∨ (s.pcb proc).blockingProc ≠ some owner then
    some (false, s)
  else do
    cAssert ((s.pcb proc).currState = .blocked)
    let queues := ProcLists.removeProcFromQueue s.queues proc (.blocking owner queue)
    return (true, (s.setQueues queues).setPcb proc fun x =>
      { x with blockingProc := none, blockingQueueName := .noBlocker })

end KernelOf

end Xeros.Model
