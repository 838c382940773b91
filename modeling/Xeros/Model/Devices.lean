import Xeros.Model.CopyInOut
import Xeros.Model.Keyboard

/-!
# Device calls (di_calls.c)

Both device table entries are keyboards; they differ in the `orig_echo_flag` that their
`dvioblk` points to.
-/

set_option autoImplicit false

namespace Xeros.Model

open Xeros.Foundations

/-- The device with number `device_no`, if there is one. -/
def deviceOf (deviceNo : ℤ) : Option DeviceId :=
  if deviceNo = 0 then some .keyboardNoEcho else if deviceNo = 1 then some .keyboard else none

/-- `check_fd`: the table index that a valid descriptor stands for. -/
def checkFd (proc : Pcb) (fd : ℤ) : Option (Fin pcbNumFds × DeviceId) :=
  if h : 0 ≤ fd ∧ fd < 4 then
    let i : Fin pcbNumFds := ⟨fd.toNat, by show _ < 4; omega⟩
    (proc.fdTable i).map fun entry => (i, entry)
  else none

namespace KernelOf

variable {Q : Type} [ProcLists Q]

/-- `kmalloc`, on the kernel state -/
def kmalloc (s : KernelOf Q) (size : ℕ) : Option (ℕ × KernelOf Q) :=
  (s.toHeap.kmalloc size).map fun r => (r.1, s.setHeap r.2)

/-- `kfree`, on the kernel state -/
def kfree (s : KernelOf Q) (ptr : ℕ) : Option (KernelOf Q) :=
  (s.toHeap.kfree ptr).map s.setHeap

/-- Write a word of memory. -/
def store (s : KernelOf Q) (a w : ℕ) : KernelOf Q := { s with toCore := s.toCore.store a w }

/-- `kbd_devsw_create` -/
def kbdDevswCreate (s : KernelOf Q) (entry : DeviceId) (echoFlag : ℕ) : Option (KernelOf Q) := do
  let (dvioblk, s) ← s.kmalloc 4
  cAssert (dvioblk ≠ 0)
  let s := s.setDeviceTable (Function.update s.gDeviceTable entry dvioblk)
  return s.store dvioblk echoFlag

/-- `di_init_devtable` -/
def diInitDevtable (s : KernelOf Q) : Option (KernelOf Q) := do
  let s ← s.kbdDevswCreate .keyboardNoEcho 0
  let s ← s.kbdDevswCreate .keyboard 1
  return s.setKbd s.kbd.kbdInit.kbdInit

/-- `di_open` -/
def diOpen (s : KernelOf Q) (proc : PcbPtr) (deviceNo : ℤ) : Option (ℤ × KernelOf Q) :=
  match deviceOf deviceNo with
  | none => some (syserr, s)
  | some entry =>
    match (List.finRange pcbNumFds).find? fun fd => (s.pcb proc).fdTable fd = none with
    | none => some (syserr, s)
    | some fd => do
      let (result, k) ← s.kbd.kbdOpen (s.pcb proc).pid
        (toInt (load32 s.mem (s.gDeviceTable entry)))
      let s := s.setKbd k
      if result ≠ 0 then
        some (syserr, s)
      else
        some (fd.val, s.setPcb proc fun x =>
          { x with fdTable := Function.update x.fdTable fd (some entry) })

/-- `di_close` -/
def diClose (s : KernelOf Q) (proc : PcbPtr) (fd : ℤ) : ℤ × KernelOf Q :=
  match checkFd (s.pcb proc) fd with
  | none => (syserr, s)
  | some (i, _) =>
    let (result, k) := s.kbd.kbdClose (s.pcb proc).pid
    let s := s.setKbd k
    if result ≠ 0 then (syserr, s)
    else (0, s.setPcb proc fun x => { x with fdTable := Function.update x.fdTable i none })

/-- `di_write`; `kbd_write` always fails. -/
def diWrite (s : KernelOf Q) (proc : PcbPtr) (fd : ℤ) (buf : ℕ) : Option ℤ := do
  cAssert (buf ≠ 0)
  match checkFd (s.pcb proc) fd with
  | none => some syserr
  | some _ => some (-1)

/-- `di_read` -/
def diRead (s : KernelOf Q) (proc : PcbPtr) (fd : ℤ) (buf : ℕ) (buflen : ℤ) :
    Option (ℤ × KernelOf Q) :=
  match checkFd (s.pcb proc) fd with
  | none => some (syserr, s)
  | some _ => s.kbdRead proc buf buflen

/-- `di_ioctl` -/
def diIoctl (s : KernelOf Q) (proc : PcbPtr) (fd : ℤ) (commandCode args : ℕ) : ℤ × KernelOf Q :=
  match checkFd (s.pcb proc) fd with
  | none => (syserr, s)
  | some _ => s.kbdIoctl commandCode args

end KernelOf

end Xeros.Model
