import Xeros.Model.Queues

/-!
# The keyboard driver (kbd.c)

A `char` is a byte; the two places where its sign matters convert with `charToInt`.  The
function pointers of a device table entry all lead here, so a table entry is known by its
`DeviceId` and its `dvioblk`.
-/

set_option autoImplicit false

namespace Xeros.Model

open Xeros.Foundations

/-- `KBD_DEFAULT_EOF` -/
abbrev kbdDefaultEof : UInt8 := 0x04

abbrev keyboardIoctlSetEof : ℕ := 53
abbrev keyboardIoctlEnableEcho : ℕ := 55
abbrev keyboardIoctlDisableEcho : ℕ := 56
abbrev keyboardIoctlGetEof : ℕ := 57
abbrev keyboardIoctlGetEcho : ℕ := 58

abbrev keyboardStateShiftBit : ℕ := 0
abbrev keyboardStateCtrlBit : ℕ := 1
abbrev keyboardStateCaplockBit : ℕ := 2

/-- `'\n'` -/
abbrev newline : UInt8 := 10

/-- A `char` converted to `int`. -/
def charToInt (c : UInt8) : ℤ := if c.toNat < 128 then c.toNat else c.toNat - 256

/-- `FLAG_BIT_CHECK` -/
def flagBitCheck (flag : BitVec 32) (bitNum : ℕ) : Bool := flag.getLsbD bitNum

/-- `FLAG_BIT_SET` -/
def flagBitSet (flag : BitVec 32) (bitNum : ℕ) : BitVec 32 := flag ||| (1#32 <<< bitNum)

/-- `FLAG_BIT_CLEAR` -/
def flagBitClear (flag : BitVec 32) (bitNum : ℕ) : BitVec 32 := flag &&& ~~~(1#32 <<< bitNum)

/-- `FLAG_BIT_TOGGLE` -/
def flagBitToggle (flag : BitVec 32) (bitNum : ℕ) : BitVec 32 := flag ^^^ (1#32 <<< bitNum)

/-! ## Scancodes -/

/-- The table `lower` of `keyboard_process_scancode`. -/
def lower : List UInt8 :=
  [0, 0x1B, '1'.toUInt8, '2'.toUInt8, '3'.toUInt8, '4'.toUInt8, '5'.toUInt8, '6'.toUInt8,
   '7'.toUInt8, '8'.toUInt8, '9'.toUInt8, '0'.toUInt8, '-'.toUInt8, '='.toUInt8, 0x08, 9,
   'q'.toUInt8, 'w'.toUInt8, 'e'.toUInt8, 'r'.toUInt8, 't'.toUInt8, 'y'.toUInt8, 'u'.toUInt8,
   'i'.toUInt8,
   'o'.toUInt8, 'p'.toUInt8, '['.toUInt8, ']'.toUInt8, 10, 0, 'a'.toUInt8, 's'.toUInt8,
   'd'.toUInt8, 'f'.toUInt8, 'g'.toUInt8, 'h'.toUInt8, 'j'.toUInt8, 'k'.toUInt8, 'l'.toUInt8,
   ';'.toUInt8,
   39, 0x60, 0, 92, 'z'.toUInt8, 'x'.toUInt8, 'c'.toUInt8, 'v'.toUInt8,
   'b'.toUInt8, 'n'.toUInt8, 'm'.toUInt8, ','.toUInt8, '.'.toUInt8, '/'.toUInt8, 0, 0x2A,
   0, ' '.toUInt8, 0, 0, 0, 0, 0, 0,
   0, 0, 0, 0, 0, 0, 0, 0,
   0, 0, 0x2D, 0, 0, 0, 0x2B, 0,
   0, 0, 0, 0]

/-- The table `upper` of `keyboard_process_scancode`. -/
def upper : List UInt8 :=
  [0, 0x1B, '!'.toUInt8, '@'.toUInt8, '#'.toUInt8, '$'.toUInt8, '%'.toUInt8, '^'.toUInt8,
   '&'.toUInt8, '*'.toUInt8, '('.toUInt8, ')'.toUInt8, '_'.toUInt8, '+'.toUInt8, 0x08, 9,
   'Q'.toUInt8, 'W'.toUInt8, 'E'.toUInt8, 'R'.toUInt8, 'T'.toUInt8, 'Y'.toUInt8, 'U'.toUInt8,
   'I'.toUInt8,
   'O'.toUInt8, 'P'.toUInt8, 123, 125, 10, 0, 'A'.toUInt8, 'S'.toUInt8,
   'D'.toUInt8, 'F'.toUInt8, 'G'.toUInt8, 'H'.toUInt8, 'J'.toUInt8, 'K'.toUInt8, 'L'.toUInt8,
   ':'.toUInt8,
   34, '~'.toUInt8, 0, '|'.toUInt8, 'Z'.toUInt8, 'X'.toUInt8, 'C'.toUInt8, 'V'.toUInt8,
   'B'.toUInt8, 'N'.toUInt8, 'M'.toUInt8, '<'.toUInt8, '>'.toUInt8, '?'.toUInt8, 0, 0,
   0, ' '.toUInt8, 0, 0, 0, 0, 0, 0,
   0, 0, 0, 0, 0, 0, 0, 0x37,
   0x38, 0x39, 0x2D, 0x34, 0x35, 0x36, 0x2B, 0x31,
   0x32, 0x33, 0x30, 0x2E]

/-- The table `ctrl` of `keyboard_process_scancode`. -/
def ctrl : List UInt8 :=
  [0, 0x1B, 0, 0, 0, 0, 0, 0x1E,
   0, 0, 0, 0, 0x1F, 0, 0x7F, 0,
   0x11, 0x17, 0x05, 0x12, 0x14, 0x19, 0x15, 0x09,
   0x0F, 0x10, 0x1B, 0x1D, 0x0A, 0, 0x01, 0x13,
   0x04, 0x06, 0x07, 0x08, 0x0A, 0x0B, 0x0C, 0,
   0, 0, 0, 0x1C, 0x1A, 0x18, 0x03, 0x16,
   0x02, 0x0E, 0x0D, 0, 0, 0, 0, 0x10,
   0, ' '.toUInt8, 0, 0, 0, 0, 0, 0,
   0, 0, 0, 0, 0, 0, 0, 0,
   0, 0, 0, 0, 0, 0, 0, 0,
   0, 0, 0, 0]

/-- `keyboard_process_scancode`: the character, and the new `g_keyboard_keystate_flag`. -/
def keyboardProcessScancode (flag : BitVec 32) (data : ℕ) : UInt8 × BitVec 32 :=
  let c : UInt8 :=
    if data < 0x54 then
      if flagBitCheck flag keyboardStateCtrlBit then ctrl.getD data 0
      else if xor (flagBitCheck flag keyboardStateShiftBit)
          (flagBitCheck flag keyboardStateCaplockBit) then upper.getD data 0
      else lower.getD data 0
    else 0
  if c = 0 then
    let flag :=
      if data = 0x2A ∨ data = 0x36 then flagBitSet flag keyboardStateShiftBit
      else if data = 0xAA ∨ data = 0xB6 then flagBitClear flag keyboardStateShiftBit
      else if data = 0x1D then flagBitSet flag keyboardStateCtrlBit
      else if data = 0x9D then
        -- the bit number is also used as a mask here
        flagBitClear flag keyboardStateCtrlBit &&& ~~~(BitVec.ofNat 32 keyboardStateCtrlBit)
      else if data = 0x3A then flagBitToggle flag keyboardStateCaplockBit
      else flag
    (c, flag)
  else (c, flag)

/-! ## Tasks and the ring -/

/-- `pid % KBD_TASK_LIST_SIZE`; pids are never negative. -/
def taskIndex (pid : ℤ) : Fin kbdTaskListSize :=
  ⟨(pid % 32).toNat, by show _ < 32; omega⟩

/-- `(x + 1) % KEYBOARD_BUFFER_SIZE` -/
def ringSucc (x : ℕ) : ℕ := (x + 1) % keyboardBufferSize

/-- Assign fields of the task at index `i`. -/
def Keyboard.setTask (k : Keyboard) (i : Fin kbdTaskListSize) (f : KbdTask → KbdTask) : Keyboard :=
  { k with gKbdTaskList := Function.update k.gKbdTaskList i (f (k.gKbdTaskList i)) }

/-- `kbd_init`; the two port reads are discarded. -/
def Keyboard.kbdInit (k : Keyboard) : Keyboard :=
  { k with
    gKbdRefcount := 0
    gKbdDone := false
    gKeyboardBufferHead := 0
    gKeyboardBufferTail := 0
    gKbdTaskRefcount := 0
    gKbdTaskList := fun i => { k.gKbdTaskList i with waitingOnRead := false } }

/-- `kbd_open`, with the `orig_echo_flag` found through `dvioblk` -/
def Keyboard.kbdOpen (k : Keyboard) (pid : ℤ) (echoFlag : ℤ) : Option (ℤ × Keyboard) :=
  if k.gKbdRefcount > 0 then
    if k.gKbdCurrentType ≠ echoFlag then some (ebusy, k)
    else some (0, { k with gKbdRefcount := wrapInt (k.gKbdRefcount + 1) })
  else do
    let k := { k with
      gKbdRefcount := 1
      gKbdCurrentType := echoFlag
      gKbdDone := false
      gKeyboardBufferHead := 0
      gKeyboardBufferTail := 0
      gKeyboardKeystateFlag := 0
      gKeyboardEof := kbdDefaultEof
      gKeyboardEchoFlag := UInt8.ofNat (toWord echoFlag) }
    cAssert ((k.gKbdTaskList (taskIndex pid)).waitingOnRead = false)
    return (0, { k with irqEnabled := true })

/-- `kbd_close` -/
def Keyboard.kbdClose (k : Keyboard) (pid : ℤ) : ℤ × Keyboard :=
  if k.gKbdRefcount ≤ 0 then (ebadf, k)
  else
    let k := { k with gKbdRefcount := wrapInt (k.gKbdRefcount - 1) }
    let k := if k.gKbdRefcount = 0 then { k with irqEnabled := false } else k
    let k := if (k.gKbdTaskList (taskIndex pid)).waitingOnRead then
        { k with gKbdTaskRefcount := wrapInt (k.gKbdTaskRefcount - 1) }
      else k
    (0, k.setTask (taskIndex pid) fun t => { t with waitingOnRead := false })

namespace KernelOf

variable {Q : Type} [ProcLists Q]

/-- Assign the keyboard driver's variables. -/
def setKbd (s : KernelOf Q) (k : Keyboard) : KernelOf Q :=
  { s with toCore := { s.toCore with kbd := k } }

/-- `keyboard_unblock_proc`, on the task at index `i` -/
def keyboardUnblockProc (s : KernelOf Q) (i : Fin kbdTaskListSize) : Option (KernelOf Q) := do
  let s := s.setKbd { s.kbd with gKbdTaskRefcount := wrapInt (s.kbd.gKbdTaskRefcount - 1) }
  let s := s.setKbd (s.kbd.setTask i fun t => { t with waitingOnRead := false })
  let p ← (s.kbd.gKbdTaskList i).pcb
  let s := s.setPcb p fun x => { x with ret := (s.kbd.gKbdTaskList i).i }
  if (s.pcb p).currState = .blocked then do
    let s ← s.addPcbToQueue p .ready
    return s.setPcb p fun x => { x with blockingQueueName := .noBlocker }
  else some s

/-- One round of the loop of `keyboard_handle_eof`. -/
def handleEofRound (s : KernelOf Q) (i : Fin kbdTaskListSize) : Option (KernelOf Q) :=
  if (s.kbd.gKbdTaskList i).waitingOnRead then s.keyboardUnblockProc i else some s

/-- `keyboard_handle_eof` -/
def keyboardHandleEof (s : KernelOf Q) : Option (KernelOf Q) :=
  (List.finRange kbdTaskListSize).foldlM handleEofRound
    (s.setKbd { s.kbd with irqEnabled := false, gKbdDone := true })

/-- One round of the loop of `keyboard_process_char`. -/
def processCharRound (c : UInt8) (s : KernelOf Q) (i : Fin kbdTaskListSize) :
    Option (KernelOf Q) :=
  if (s.kbd.gKbdTaskList i).waitingOnRead then
    let task := s.kbd.gKbdTaskList i
    let s := s.setMem (store8 s.mem (toWord (task.buf + task.i)) c)
    let s := s.setKbd (s.kbd.setTask i fun t => { t with i := wrapInt (t.i + 1) })
    if (s.kbd.gKbdTaskList i).i = (s.kbd.gKbdTaskList i).buflen ∨ c = newline then
      s.keyboardUnblockProc i
    else some s
  else some s

/-- `keyboard_process_char` -/
def keyboardProcessChar (s : KernelOf Q) (c : UInt8) : Option (KernelOf Q) :=
  if c = s.kbd.gKeyboardEof then s.keyboardHandleEof
  else (List.finRange kbdTaskListSize).foldlM (processCharRound c) s

/-- One round of the loop of `keyboard_flush_buffer`. -/
def flushRound (s : KernelOf Q) : Option (Iter (KernelOf Q) (KernelOf Q)) :=
  if s.kbd.gKbdTaskRefcount > 0 ∧ s.kbd.gKeyboardBufferTail ≠ s.kbd.gKeyboardBufferHead then do
    let c := s.kbd.gKeyboardBuffer s.kbd.gKeyboardBufferTail
    let s ← s.keyboardProcessChar c
    return .again (s.setKbd
      { s.kbd with gKeyboardBufferTail := ringSucc s.kbd.gKeyboardBufferTail })
  else some (.done s)

/-- `keyboard_flush_buffer` -/
def keyboardFlushBuffer (s : KernelOf Q) : Option (KernelOf Q) := loop flushRound loopBound s

/-- `kbd_read` -/
def kbdRead (s : KernelOf Q) (proc : PcbPtr) (buf : ℕ) (buflen : ℤ) :
    Option (ℤ × KernelOf Q) := do
  let i := taskIndex (s.pcb proc).pid
  let s := s.setKbd { s.kbd with gKbdTaskRefcount := wrapInt (s.kbd.gKbdTaskRefcount + 1) }
  let s := s.setKbd (s.kbd.setTask i fun _ => ⟨some proc, buf, buflen, 0, true⟩)
  let s ← s.keyboardFlushBuffer
  if (s.kbd.gKbdTaskList i).i = buflen then
    some (buflen, s)
  else if s.kbd.gKbdDone then
    some ((s.kbd.gKbdTaskList i).i, s)
  else some (blockerr, s)

/-- `kbd_ioctl_set_eof` -/
def kbdIoctlSetEof (s : KernelOf Q) (args : ℕ) : ℤ × KernelOf Q :=
  if args = 0 then (syserr, s)
  else (0, s.setKbd { s.kbd with gKeyboardEof := load8 s.mem args })

/-- `kbd_ioctl` -/
def kbdIoctl (s : KernelOf Q) (command args : ℕ) : ℤ × KernelOf Q :=
  if command = keyboardIoctlSetEof then s.kbdIoctlSetEof args
  else if command = keyboardIoctlEnableEcho then
    (0, s.setKbd { s.kbd with gKeyboardEchoFlag := 1 })
  else if command = keyboardIoctlDisableEcho then
    (0, s.setKbd { s.kbd with gKeyboardEchoFlag := 0 })
  else if command = keyboardIoctlGetEof then (charToInt s.kbd.gKeyboardEof, s)
  else if command = keyboardIoctlGetEcho then (charToInt s.kbd.gKeyboardEchoFlag, s)
  else (syserr, s)

/-- `keyboard_isr`, with the bytes it reads from the control and the data port.  Echoing the
character does not change the kernel state. -/
def keyboardIsr (s : KernelOf Q) (control data : ℕ) : Option (KernelOf Q) :=
  if control % 2 = 1 then
    let (c, flag) := keyboardProcessScancode s.kbd.gKeyboardKeystateFlag (data % 256)
    let s := s.setKbd { s.kbd with gKeyboardKeystateFlag := flag }
    if c ≠ 0 then
      if s.kbd.gKbdTaskRefcount > 0 then s.keyboardProcessChar c
      else if ringSucc s.kbd.gKeyboardBufferHead ≠ s.kbd.gKeyboardBufferTail then
        some (s.setKbd { s.kbd with
          gKeyboardBuffer :=
            Function.update s.kbd.gKeyboardBuffer s.kbd.gKeyboardBufferHead c
          gKeyboardBufferHead := ringSucc s.kbd.gKeyboardBufferHead })
      else some s
    else some s
  else some s

end KernelOf

end Xeros.Model
