import Xeros.Model.Devices
import Xeros.Model.Sleep

/-!
# Process control blocks (pcb.c)
-/

set_option autoImplicit false

namespace Xeros.Model

open Xeros.Foundations

/-- The table slot that `pid_to_proc` looks at. -/
def slotOfPid (pid : ℤ) : Fin pcbTableSize := ⟨((pid - 1) % 32).toNat, by show _ < 32; omega⟩

/-- `pid_to_proc` -/
def Core.pidToProc (c : Core) (pid : ℤ) : Option PcbPtr :=
  if 1 ≤ pid then
    let proc := PcbPtr.table (slotOfPid pid)
    if (c.pcb proc).pid = pid ∧ (c.pcb proc).currState ≠ .stopped then some proc else none
  else none

/-- `proc->signal_table[signal]` -/
def Core.handlerOf (c : Core) (proc : PcbPtr) (signal : ℕ) : ℕ :=
  load32 c.mem ((c.pcb proc).signalTable + 4 * signal)

/-- The new pid that `get_next_available_pcb` computes from the old one. -/
def nextPid (oldPid : ℤ) : ℤ :=
  let pid := wrapInt (oldPid + pcbTableSize)
  if pid < 1 then oldPid.tmod pcbTableSize else pid

/-- The return code that `resolve_blocking` gives to a process taken out of `queue`. -/
def signalledRet (queue : BlockingQueue) (ret : ℤ) : ℤ :=
  match queue with
  | .receiveAny | .sender | .receiver => procSignalled
  | .waiting => syswaitSignalled
  | .device => syserr
  | .sleep | .noBlocker => ret

namespace KernelOf

variable {Q : Type} [ProcLists Q]

/-- `get_next_available_pcb` -/
def getNextAvailablePcb (s : KernelOf Q) : Option (Option PcbPtr × KernelOf Q) :=
  match ProcLists.head s.queues (.proc .stopped) with
  | none => some (none, s)
  | some proc => do
    let s ← s.removePcbFromQueue proc
    let oldPid := (s.pcb proc).pid
    let s := (s.setQueues (ProcLists.clearLinks s.queues proc)).setPcb proc fun _ => Pcb.zero
    let (table, s) ← s.kmalloc (signalTableSize * 4)
    let s := s.setPcb proc fun x => { x with signalTable := table }
    if table = 0 then do
      let s := s.setPcb proc fun x => { x with pid := oldPid }
      let s ← s.addPcbToQueue proc .stopped
      return (none, s)
    else do
      -- the length is the `sizeof` of a product, which is that of `size_t`
      let s := s.setMem (memset s.mem table 0 4)
      let s := s.setPcb proc fun x =>
        { x with
          signalsEnabled := true
          currState := .stopped
          blockingQueueName := .noBlocker
          pid := nextPid oldPid }
      cAssert (1 ≤ (s.pcb proc).pid)
      return (some proc, s)

/-- `fill_proc_info` -/
def fillProcInfo (s : KernelOf Q) (ps : ℕ) (slot : ℕ) (proc : PcbPtr) : Option (KernelOf Q) := do
  cAssert (ps ≠ 0)
  cAssert (slot < pcbTableSize)
  let s := s.store (ps + 4 * slot) (toWord (s.pcb proc).pid)
  let s := s.store (ps + 256 + 4 * slot) (toWord ((s.pcb proc).cpuTime * tickLengthInMs))
  let state := (s.pcb proc).currState.toInt +
    if (s.pcb proc).currState = .blocked then (s.pcb proc).blockingQueueName.toInt else 0
  return s.store (ps + 128 + 4 * slot) (toWord state)

/-- One round of the loop of `get_all_proc_info`. -/
def procInfoRound (ps : ℕ) (st : ℕ × KernelOf Q) (i : Fin pcbTableSize) :
    Option (ℕ × KernelOf Q) :=
  if (st.2.pcb (.table i)).currState ≠ .stopped then
    (st.2.fillProcInfo ps (st.1 + 1) (.table i)).map fun s => (st.1 + 1, s)
  else some st

/-- `get_all_proc_info` -/
def getAllProcInfo (s : KernelOf Q) (ps : ℕ) : Option (ℕ × KernelOf Q) := do
  cAssert (ps ≠ 0)
  let s ← s.fillProcInfo ps 0 .idle
  (List.finRange pcbTableSize).foldlM (procInfoRound ps) (0, s)

/-- `resolve_blocking` -/
def resolveBlocking (s : KernelOf Q) (proc : PcbPtr) : Option (KernelOf Q) := do
  cAssert ((s.pcb proc).blockingQueueName ≠ .noBlocker)
  cAssert ((s.pcb proc).currState = .blocked)
  let s := s.setPcb proc fun x => { x with ret := signalledRet x.blockingQueueName x.ret }
  match (s.pcb proc).blockingQueueName with
  | .sleep => s.wake proc
  | .device | .receiveAny => do
    cAssert ((s.pcb proc).blockingProc = none)
    return s.setPcb proc fun x => { x with blockingQueueName := .noBlocker }
  | queue => do
    let (ret, s) ← s.removeProcFromBlockingQueue proc (s.pcb proc).blockingProc queue
    cAssert (ret = true)
    return s

/-- One round of the loop of `notify_blocked_procs`. -/
def notifyRound (proc : PcbPtr) (queue : BlockingQueue) (s : KernelOf Q) :
    Option (Iter (KernelOf Q) (KernelOf Q)) :=
  match ProcLists.head s.queues (.blocking proc queue) with
  | none => some (.done s)
  | some curr => do
    let (ret, s) ← s.removeProcFromBlockingQueue curr (some proc) queue
    cAssert (ret = true)
    let s ← s.addPcbToQueue curr .ready
    return .again s

/-- `notify_blocked_procs` -/
def notifyBlockedProcs (s : KernelOf Q) (proc : PcbPtr) (queue : BlockingQueue) :
    Option (KernelOf Q) :=
  loop (notifyRound proc queue) loopBound s

/-- The last loop of `cleanup_proc`, which closes all descriptors. -/
def closeFds (s : KernelOf Q) (proc : PcbPtr) : KernelOf Q :=
  (List.finRange pcbNumFds).foldl (fun s fd => (s.diClose proc fd.val).2) s

/-- `cleanup_proc` -/
def cleanupProc (s : KernelOf Q) (proc : PcbPtr) : Option (KernelOf Q) := do
  let s ← s.kfree (s.pcb proc).memoryRegion
  let s ← s.kfree (s.pcb proc).signalTable
  let s ← s.notifyBlockedProcs proc .sender
  let s ← s.notifyBlockedProcs proc .receiver
  let s ← s.notifyBlockedProcs proc .waiting
  let s ← if (s.pcb proc).blockingQueueName ≠ .noBlocker then s.resolveBlocking proc else some s
  (s.closeFds proc).addPcbToQueue proc .stopped

/-- `set_proc_signal` -/
def setProcSignal (s : KernelOf Q) (proc : PcbPtr) (signal : ℤ) : Option (ℤ × KernelOf Q) :=
  if signal < 0 ∨ signal ≥ signalTableSize then some (syskillInvalidSignal, s)
  else if s.handlerOf proc signal.toNat ≠ 0 then do
    let s := s.setPcb proc fun x =>
      { x with signalsFired := flagBitSet x.signalsFired signal.toNat }
    if (s.pcb proc).currState = .blocked then do
      let s ← s.resolveBlocking proc
      let s ← s.addPcbToQueue proc .ready
      return (0, s)
    else some (0, s)
  else some (0, s)

end KernelOf

end Xeros.Model
