import Xeros.Model.Processes

/-!
# The messaging system (msg.c)

`transfer` is the pair of a `strncpy` call and its entry in the history variable.
-/

set_option autoImplicit false

namespace Xeros.Model.KernelOf

open Xeros.Foundations

variable {Q : Type} [ProcLists Q]

/-- One more message was copied. -/
def record (s : KernelOf Q) (src dest : PcbPtr) : KernelOf Q :=
  { s with toCore := { s.toCore with transfers := s.transfers ++ [(src, dest)] } }

omit [ProcLists Q] in
@[simp] theorem record_toHeap (s : KernelOf Q) (src dest : PcbPtr) :
    (s.record src dest).toHeap = s.toHeap := rfl

omit [ProcLists Q] in
@[simp] theorem record_pcb (s : KernelOf Q) (src dest : PcbPtr) :
    (s.record src dest).pcb = s.pcb := rfl

omit [ProcLists Q] in
@[simp] theorem record_queues (s : KernelOf Q) (src dest : PcbPtr) :
    (s.record src dest).queues = s.queues := rfl

/-- `strncpy(receiver_buf, sender_buf, tocopy_len)`, recorded as a transfer. -/
def transfer (s : KernelOf Q) (src dest : PcbPtr) (receiverBuf senderBuf tocopyLen : ℕ) :
    KernelOf Q :=
  (s.setMem (strncpy s.mem receiverBuf senderBuf (toInt tocopyLen))).record src dest

/-- The end of a rendezvous: the process that was blocked becomes ready with `SYSPID_OK`. -/
def unblockPeer (s : KernelOf Q) (proc : PcbPtr) : Option (KernelOf Q) := do
  cAssert ((s.pcb proc).currState = .blocked)
  let s := s.setPcb proc fun x => { x with ret := syspidOk }
  s.addPcbToQueue proc .ready

/-- `send` -/
def send (s : KernelOf Q) (srcproc destproc : PcbPtr) (buffer len : ℕ) :
    Option (ℤ × KernelOf Q) := do
  cAssert (buffer ≠ 0 ∧ 0 < len)
  -- the second operand of `||` is only called when the receiver does not take from anyone
  let (waiting, s) ←
    if (s.pcb destproc).blockingQueueName = .receiveAny then some (true, s)
    else s.removeProcFromBlockingQueue destproc (some srcproc) .receiver
  if waiting = true then do
    let s :=
      if (s.pcb destproc).blockingQueueName = .receiveAny then
        (s.setPcb destproc fun x => { x with blockingQueueName := .noBlocker }).store
          (s.argOf destproc 0) (toWord (s.pcb srcproc).pid)
      else s
    let receiverBuf := s.argOf destproc 1
    let receiverLen := s.argOf destproc 2
    let s := s.transfer srcproc destproc receiverBuf buffer (min receiverLen len)
    let s ← s.unblockPeer destproc
    return (syspidOk, s)
  else do
    let s ← s.addProcToBlockingQueue srcproc destproc .sender
    return (blockerr, s)

/-- `recv` -/
def recv (s : KernelOf Q) (srcproc destproc : PcbPtr) (buffer len : ℕ) :
    Option (ℤ × KernelOf Q) := do
  cAssert (buffer ≠ 0 ∧ 0 < len)
  let (waiting, s) ← s.removeProcFromBlockingQueue srcproc (some destproc) .sender
  if waiting = true then do
    let senderBuf := s.argOf srcproc 1
    let senderLen := s.argOf srcproc 2
    let s := s.transfer srcproc destproc buffer senderBuf (min senderLen len)
    let s ← s.unblockPeer srcproc
    return (syspidOk, s)
  else do
    let s ← s.addProcToBlockingQueue destproc srcproc .receiver
    return (blockerr, s)

/-- `recv_any` -/
def recvAny (s : KernelOf Q) (destproc : PcbPtr) (buffer len : ℕ) :
    Option (ℤ × KernelOf Q) := do
  cAssert (buffer ≠ 0 ∧ 0 < len)
  match ProcLists.head s.queues (.blocking destproc .sender) with
  | some srcproc => do
    let (ret, s) ← s.removeProcFromBlockingQueue srcproc (some destproc) .sender
    if ret = true then do
      let s := s.store (s.argOf destproc 0) (toWord (s.pcb srcproc).pid)
      let senderBuf := s.argOf srcproc 1
      let senderLen := s.argOf srcproc 2
      let s := s.transfer srcproc destproc buffer senderBuf (min senderLen len)
      let s ← s.unblockPeer srcproc
      return (syspidOk, s)
    else some (syserrOther, s)
  | none =>
    some (blockerr, s.setPcb destproc fun x => { x with blockingQueueName := .receiveAny })

end Xeros.Model.KernelOf
