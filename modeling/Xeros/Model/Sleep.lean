import Xeros.Model.Queues

/-!
# The sleep device (sleep.c)

Sleeping processes form a delta list: `ret` of a sleeper is the number of ticks it still has to
sleep after the sleeper in front of it.
-/

set_option autoImplicit false

namespace Xeros.Model.KernelOf

open Xeros.Foundations

variable {Q : Type} [ProcLists Q]

/-- One round of the search loop of `add_to_sleeping_list`; the loop state is the kernel state,
`prev` and `entry`. -/
def sleepingRound (proc : PcbPtr) (st : KernelOf Q × Option PcbPtr × Option PcbPtr) :
    Option (Iter (KernelOf Q × Option PcbPtr × Option PcbPtr)
      (KernelOf Q × Option PcbPtr × Option PcbPtr)) :=
  match st with
  | (s, prev, none) => some (.done (s, prev, none))
  | (s, prev, some e) =>
    if (s.pcb proc).ret > (s.pcb e).ret then
      let s' := s.setPcb proc fun x => { x with ret := wrapInt (x.ret - (s.pcb e).ret) }
      some (.again (s', some e, ProcLists.nextProc s'.queues e))
    else some (.done (s, prev, some e))

/-- `add_to_sleeping_list` -/
def addToSleepingList (s : KernelOf Q) (proc : PcbPtr) : Option (KernelOf Q) := do
  let (s, prev, entry) ← loop (sleepingRound proc) loopBound
    (s, none, ProcLists.gSleepingList s.queues)
  let s := s.setQueues (ProcLists.linkSleeper s.queues proc prev entry)
  match entry with
  | none => some s
  | some e => some (s.setPcb e fun x => { x with ret := wrapInt (x.ret - (s.pcb proc).ret) })

/-- `remove_from_sleeping_list` -/
def removeFromSleepingList (s : KernelOf Q) (proc : PcbPtr) : Option (KernelOf Q) := do
  cAssert ((s.pcb proc).currState = .blocked)
  let s' := match ProcLists.nextProc s.queues proc with
    | none => s
    | some n => s.setPcb n fun x => { x with ret := wrapInt (x.ret + (s.pcb proc).ret) }
  return s'.setQueues (ProcLists.unlinkSleeper s.queues proc)

/-- `sleep` -/
def sleep (s : KernelOf Q) (proc : PcbPtr) (time : ℕ) : Option (KernelOf Q) := do
  cAssert (0 < time)
  let s := s.setPcb proc fun x =>
    { x with
      currState := .blocked
      blockingQueueName := .sleep
      blockingProc := none
      ret := toInt (time / tickLengthInMs + if time % tickLengthInMs ≠ 0 then 1 else 0) }
  s.addToSleepingList proc

/-- `wake` -/
def wake (s : KernelOf Q) (proc : PcbPtr) : Option (KernelOf Q) := do
  cAssert ((s.pcb proc).blockingProc = none)
  cAssert ((s.pcb proc).blockingQueueName = .sleep)
  let s ← s.removeFromSleepingList proc
  return s.setPcb proc fun x =>
    { x with blockingQueueName := .noBlocker, ret := wrapInt (x.ret * tickLengthInMs) }

/-- One round of the loop of `tick` that takes out expired sleepers. -/
def tickRound (s : KernelOf Q) : Option (Iter (KernelOf Q) (KernelOf Q)) :=
  match ProcLists.gSleepingList s.queues with
  | none => some (.done s)
  | some proc =>
    if (s.pcb proc).ret ≤ 0 then do
      let s ← s.wake proc
      let s ← s.addPcbToQueue proc .ready
      return .again s
    else some (.done s)

/-- `tick` -/
def tick (s : KernelOf Q) : Option (KernelOf Q) :=
  match ProcLists.gSleepingList s.queues with
  | none => some s
  | some first =>
    loop tickRound loopBound (s.setPcb first fun x => { x with ret := wrapInt (x.ret - 1) })

end Xeros.Model.KernelOf
