import Xeros.Model.ContextSwitch
import Xeros.Model.Doprnt
import Xeros.Model.Msg

/-!
# The dispatcher (disp.c) and booting (init.c)

One turn of the loop of `dispatch` takes the kernel from one `ctsw_contextswitch` to the next;
it is the step function `dispatchStep` of the kernel, with the `Trap` as its input.
-/

set_option autoImplicit false

namespace Xeros.Model

open Xeros.Foundations

/-! ## Requests -/

/-- `syscall_request_id_t` -/
inductive SyscallRequest where
  | timerInt | keyboardInt | create | yield | stop | getpid | kill | wait | puts | send | recv
  | sleep | cputimes | sighandler | sigreturn | sysopen | close | write | read | ioctl
  deriving DecidableEq, Repr

/-- The request with a given number. -/
def SyscallRequest.ofId : ℕ → Option SyscallRequest
  | 0 => some .timerInt
  | 1 => some .keyboardInt
  | 2 => some .create
  | 3 => some .yield
  | 4 => some .stop
  | 5 => some .getpid
  | 6 => some .kill
  | 7 => some .wait
  | 8 => some .puts
  | 9 => some .send
  | 10 => some .recv
  | 11 => some .sleep
  | 12 => some .cputimes
  | 13 => some .sighandler
  | 14 => some .sigreturn
  | 15 => some .sysopen
  | 16 => some .close
  | 17 => some .write
  | 18 => some .read
  | 19 => some .ioctl
  | _ => none

/-- `REQ_ID` after the trap `t` -/
def Trap.reqId (t : Trap) : ℕ :=
  match t.reason with
  | .syscall => load32 t.mem (t.esp + 44)
  | .timer => 0
  | .keyboard => 1

/-- The request that the trap `t` makes. -/
def Trap.request (t : Trap) : Option SyscallRequest := SyscallRequest.ofId t.reqId

/-- The kernel's data segment.  `setsegs` gives it the number of pages as its limit, in pages, which
is one page more than there is memory. -/
def Heap.inDataSegment (h : Heap) (a : ℕ) : Bool := a < h.image.maxaddr + 1 + nbpg

namespace KernelOf

variable {Q : Type} [ProcLists Q]

/-- `currproc->ret = v;` -/
def setRet (s : KernelOf Q) (v : ℤ) : KernelOf Q :=
  s.setPcb s.currproc fun x => { x with ret := v }

/-- `currproc->curr_state = PROC_STATE_BLOCKED;` -/
def blockCurrent (s : KernelOf Q) : KernelOf Q :=
  s.setPcb s.currproc fun x => { x with currState := .blocked }

/-! ## Handlers -/

/-- `dispatch_syscall_create` -/
def dispatchSyscallCreate (s : KernelOf Q) : Option (ℤ × KernelOf Q) := do
  let func := s.arg 0
  let stack := toInt (s.arg 1)
  let result ← s.verifyUsrptr func 4
  if result ≠ ok then some (result, s) else s.create func stack

/-- `dispatch_syscall_kill` -/
def dispatchSyscallKill (s : KernelOf Q) : Option (ℤ × KernelOf Q) :=
  let pid := toInt (s.arg 0)
  let signal := toInt (s.arg 1)
  match s.pidToProc pid with
  | none => some (syskillTargetDne, s)
  | some proc => s.setProcSignal proc signal

/-- `dispatch_syscall_wait` -/
def dispatchSyscallWait (s : KernelOf Q) : Option (KernelOf Q) :=
  let pid := toInt (s.arg 0)
  match s.pidToProc pid with
  | none => some (s.setRet syspidDne)
  | some procToWaitOn => do
    let s := s.blockCurrent
    let s ← s.addProcToBlockingQueue s.currproc procToWaitOn .waiting
    let s := s.setRet 0
    s.reschedule

/-- `dispatch_syscall_puts`.  The user's string is the format of `kprintf`: its conversions look for
arguments on the kernel stack, and anywhere in the data segment for the strings they point to. -/
def dispatchSyscallPuts (s : KernelOf Q) : Option (KernelOf Q) := do
  let str := s.arg 0
  let result ← s.verifyUsrstr str
  if result = ok then do
    let m ← kprintfMem s.inDataSegment s.mem s.image.doprntString str s.image.kprintfArgs
    return s.setMem m
  else some s

/-- The end of `dispatch_syscall_send` and `dispatch_syscall_recv`. -/
def finishMsg (r : ℤ × KernelOf Q) : Option (KernelOf Q) :=
  let s := r.2.setRet r.1
  if r.1 = blockerr then
    (s.blockCurrent.setRet syspidDne).reschedule
  else some s

/-- `dispatch_syscall_send` -/
def dispatchSyscallSend (s : KernelOf Q) : Option (KernelOf Q) :=
  let destPid := toInt (s.arg 0)
  let buffer := s.arg 1
  let len := s.arg 2
  if destPid = s.current.pid then some (s.setRet syspidMe)
  else if len = 0 then some (s.setRet syserrOther)
  else do
    let result ← s.verifyUsrptr buffer (toInt len)
    if result ≠ ok then some (s.setRet syserrOther)
    else
      match s.pidToProc destPid with
      | none => some (s.setRet syspidDne)
      | some destproc => do
        let r ← s.send s.currproc destproc buffer len
        finishMsg r

/-- The end of `dispatch_syscall_recv`, after the checks of its pointers. -/
def recvFrom (s : KernelOf Q) (fromPid : ℤ) (buffer len : ℕ) : Option (KernelOf Q) :=
  if fromPid = s.current.pid then some (s.setRet syspidMe)
  else if fromPid = 0 then do
    let r ← s.recvAny s.currproc buffer len
    finishMsg r
  else
    match s.pidToProc fromPid with
    | none => some (s.setRet syspidDne)
    | some srcproc => do
      let r ← s.recv srcproc s.currproc buffer len
      finishMsg r

/-- `dispatch_syscall_recv` -/
def dispatchSyscallRecv (s : KernelOf Q) : Option (KernelOf Q) := do
  let fromPid := s.arg 0
  let buffer := s.arg 1
  let len := s.arg 2
  let result ← s.verifyUsrptr fromPid 4
  if result ≠ ok then some (s.setRet syserrOther)
  else if len = 0 then some (s.setRet syserrOther)
  else do
    let result ← s.verifyUsrptr buffer (toInt len)
    if result ≠ ok then some (s.setRet syserrOther)
    else s.recvFrom (toInt (load32 s.mem fromPid)) buffer len

/-- `dispatch_syscall_sleep` -/
def dispatchSyscallSleep (s : KernelOf Q) : Option (KernelOf Q) :=
  let milliseconds := s.arg 0
  if milliseconds = 0 then some s
  else do
    let s ← s.sleep s.currproc milliseconds
    s.reschedule

/-- `timer_handler` -/
def timerHandler (s : KernelOf Q) : Option (KernelOf Q) := do
  let s := s.setPcb s.currproc fun x => { x with cpuTime := wrapInt (x.cpuTime + 1) }
  let s ← s.tick
  let s ← s.addPcbToQueue s.currproc .ready
  s.reschedule

/-- `keyboard_handler` -/
def keyboardHandler (s : KernelOf Q) (control data : ℕ) : Option (KernelOf Q) :=
  s.keyboardIsr control data

/-- `dispatch_syscall_getcputimes` -/
def dispatchSyscallGetcputimes (s : KernelOf Q) : Option (ℤ × KernelOf Q) := do
  let ps := s.arg 0
  let result ← s.verifyUsrptr ps sizeofProcessStatuses
  if result ≠ ok then some (-1, s)
  else do
    let (slot, s) ← s.getAllProcInfo ps
    return (slot, s)

/-- `dispatch_syscall_sighandler` -/
def dispatchSyscallSighandler (s : KernelOf Q) : Option (ℤ × KernelOf Q) :=
  let signal := toInt (s.arg 0)
  let newHandler := s.arg 1
  let oldHandler := s.arg 2
  if signal < 0 ∨ signal ≥ signalTableSize then some (syshandlerInvalidSignal, s)
  else do
    let newResult ← if newHandler ≠ 0 then s.verifyUsrptr newHandler 4 else some ok
    if newResult ≠ ok then some (syshandlerInvalidFuncptr, s)
    else do
      let oldResult ← s.verifyUsrptr oldHandler 4
      if oldResult ≠ ok then some (syshandlerInvalidFuncptr, s)
      else
        let s := s.store oldHandler (s.handlerOf s.currproc signal.toNat)
        let s := s.store (s.current.signalTable + 4 * signal.toNat) newHandler
        some (0, s)

/-- `dispatch_syscall_sigreturn` -/
def dispatchSyscallSigreturn (s : KernelOf Q) : Option (KernelOf Q) := do
  let oldSp := s.arg 0
  let result ← s.verifyUsrptr oldSp 4
  if result ≠ ok then do
    let s ← s.cleanupProc s.currproc
    s.reschedule
  else
    let s := s.setRet (toInt (load32 s.mem (subWord oldSp 4)))
    return s.setPcb s.currproc fun x => { x with esp := oldSp, signalsEnabled := true }

/-- `dispatch_syscall_open` -/
def dispatchSyscallOpen (s : KernelOf Q) : Option (ℤ × KernelOf Q) :=
  s.diOpen s.currproc (toInt (s.arg 0))

/-- `dispatch_syscall_close` -/
def dispatchSyscallClose (s : KernelOf Q) : ℤ × KernelOf Q :=
  s.diClose s.currproc (toInt (s.arg 0))

/-- `dispatch_syscall_write`: it goes on after a bad pointer, and `di_write` decides. -/
def dispatchSyscallWrite (s : KernelOf Q) : Option (KernelOf Q) := do
  let fd := toInt (s.arg 0)
  let buf := s.arg 1
  let buflen := toInt (s.arg 2)
  let result ← s.verifyUsrptr buf buflen
  let s := if result ≠ ok then s.setRet syserr else s
  let written ← s.diWrite s.currproc fd buf
  return s.setRet written

/-- `dispatch_syscall_read` -/
def dispatchSyscallRead (s : KernelOf Q) : Option (KernelOf Q) := do
  let fd := toInt (s.arg 0)
  let buf := s.arg 1
  let buflen := toInt (s.arg 2)
  let result ← s.verifyUsrptr buf buflen
  if result ≠ ok then some (s.setRet syserr)
  else do
    let (ret, s) ← s.diRead s.currproc fd buf buflen
    let s := s.setRet ret
    if ret = blockerr then
      (s.blockCurrent.setPcb s.currproc fun x => { x with blockingQueueName := .device }).reschedule
    else some s

/-- `dispatch_syscall_ioctl` -/
def dispatchSyscallIoctl (s : KernelOf Q) : ℤ × KernelOf Q :=
  s.diIoctl s.currproc (toInt (s.arg 0)) (s.arg 1) (s.arg 2)

/-! ## The dispatch loop -/

/-- `currproc->ret = ..;` for a handler that returns its result. -/
def setRetOf (r : ℤ × KernelOf Q) : KernelOf Q := r.2.setRet r.1

/-- The switch of `dispatch`. -/
def dispatchRequest (s : KernelOf Q) (t : Trap) : SyscallRequest → Option (KernelOf Q)
  | .timerInt => s.timerHandler
  | .keyboardInt => s.keyboardHandler t.control t.data
  | .create => s.dispatchSyscallCreate.map setRetOf
  | .yield => do
    let s ← s.addPcbToQueue s.currproc .ready
    s.reschedule
  | .stop => do
    let s ← s.cleanupProc s.currproc
    s.reschedule
  | .getpid => some (s.setRet s.current.pid)
  | .kill => s.dispatchSyscallKill.map setRetOf
  | .wait => s.dispatchSyscallWait
  | .puts => s.dispatchSyscallPuts
  | .send => s.dispatchSyscallSend
  | .recv => s.dispatchSyscallRecv
  | .sleep => s.dispatchSyscallSleep
  | .cputimes => s.dispatchSyscallGetcputimes.map setRetOf
  | .sighandler => s.dispatchSyscallSighandler.map setRetOf
  | .sigreturn => s.dispatchSyscallSigreturn
  | .sysopen => s.dispatchSyscallOpen.map setRetOf
  | .close => some (setRetOf s.dispatchSyscallClose)
  | .write => s.dispatchSyscallWrite
  | .read => s.dispatchSyscallRead
  | .ioctl => some (setRetOf s.dispatchSyscallIoctl)

/-- The kernel between the trap and the end of its handler; an unknown request fails an
assertion. -/
def handleTrap (s : KernelOf Q) (t : Trap) : Option (KernelOf Q) :=
  t.request.bind fun request => (s.leaveUser s.currproc t).dispatchRequest t request

/-- One turn of the loop of `dispatch`. -/
def dispatchStep (s : KernelOf Q) (t : Trap) : Option (KernelOf Q) := do
  let s ← s.enterUser s.currproc
  s.handleTrap t

/-- What the machine allows: the idle process makes no system calls, and a masked keyboard does
not interrupt. -/
def Enabled (s : KernelOf Q) (t : Trap) : Prop :=
  (t.reason = .syscall → s.currproc ≠ .idle) ∧ (t.reason = .keyboard → s.kbd.irqEnabled = true)

/-! ## Booting -/

/-- Zeroed static storage, with memory as the machine finds it. -/
def initial (image : Image) (mem : Memory) : KernelOf Q where
  image := image
  mem := mem
  gFreeList := 0
  pcb := fun _ => Pcb.zero
  currproc := .idle
  gDeviceTable := fun _ => 0
  kbd := Keyboard.zero
  transfers := []
  queues := ProcLists.empty

/-- `initproc`, up to the loop of `dispatch(root_proc)` -/
def boot (image : Image) (mem : Memory) (rootProc : ℕ) : Option (KernelOf Q) := do
  let s := initial image mem
  let h ← s.toHeap.kmeminit
  let s := s.setHeap h
  let s ← s.diInitDevtable
  let s ← s.pcbTableInit
  let (_, s) ← s.create rootProc defaultStackSize
  s.reschedule

end KernelOf

end Xeros.Model
