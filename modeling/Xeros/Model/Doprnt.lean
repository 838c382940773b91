import Xeros.Foundations.Strings
import Xeros.Model.CopyInOut

/-!
# The formatter (doprnt.c, sprintf.c, kprintf.c)

`_doprnt` hands characters to a function of its caller: `kputc` sends them to the console, `sprntf`
stores them at a cursor.  The formatter is the same for both, so it is defined for any such
function `put`, acting on the memory and on a state of its own.  `readable` says at which addresses
the formatter may look; a read elsewhere stops it.

Arguments are words in memory, and `string` is the address of the array that numbers are converted
in.  `INT_NOT_LONG` is never defined: `longflag` is set in every conversion.
-/

set_option autoImplicit false

namespace Xeros.Model

open Xeros.Foundations

/-- `MAXSTR` -/
abbrev maxstr : ℤ := 80

/-- `'%'` -/
abbrev percent : UInt8 := 37

/-- `ptr++` on an `int *` -/
def intSucc (a : ℕ) : ℕ := (a + 4) % 4294967296

/-- The memory, what the output function acts on, and the pointers that run through the format and
the arguments. -/
structure Doprnt (κ : Type) where
  mem : Memory
  out : κ
  fmt : ℕ
  args : ℕ

/-- The field specification between `%` and the format character. -/
structure FieldSpec where
  leftjust : Bool
  fill : UInt8
  fmin : ℤ
  fmax : ℤ

/-- What the `switch` leaves behind: the string to put out, its sign and the field. -/
structure Conversion where
  str : ℕ
  sign : UInt8
  fill : UInt8
  fmax : ℤ

/-! ## Numbers -/

/-- The digits of `num`, lowest first: the loop over `temp`. -/
def digitsLow (digit : ℤ → UInt8) (next : ℤ → ℤ) : ℕ → ℤ → List UInt8
  | 0, _ => []
  | n + 1, num => digit num :: digitsLow digit next n (next num)

/-- Leave out the leading zeros of `temp`, but one digit, and turn it round. -/
def highestFirst (temp : List UInt8) : List UInt8 :=
  match temp.reverse.dropWhile (· = 48) with
  | [] => temp.take 1
  | c :: s => c :: s

/-- `"0123456789abcdef"[d]` -/
def hexDigit (d : ℕ) : UInt8 := if d < 10 then UInt8.ofNat (48 + d) else UInt8.ofNat (87 + d)

/-- `_prtl10` -/
def prtl10 (num : ℤ) : List UInt8 :=
  highestFirst (digitsLow (fun n => UInt8.ofNat (n.tmod 10 + 48).toNat) (fun n => n.tdiv 10) 10 num)

/-- `_prtl8`; the eleventh digit has two bits. -/
def prtl8 (num : ℤ) : List UInt8 :=
  let temp := digitsLow (fun n => UInt8.ofNat (n % 8 + 48).toNat) (fun n => n / 8) 11 num
  highestFirst (temp.modify 10 fun c => c &&& 51)

/-- `_prtl16` -/
def prtl16 (num : ℤ) : List UInt8 :=
  highestFirst (digitsLow (fun n => hexDigit (n % 16).toNat) (fun n => n / 16) 8 num)

/-- `_prtl2` -/
def prtl2 (num : ℤ) : List UInt8 :=
  highestFirst (digitsLow (fun n => if n.tmod 2 = 0 then 48 else 49) (fun n => n / 2) 32 num)

/-! ## Reading the format and the arguments -/

section Reading

variable {κ : Type} (readable : ℕ → Bool)

/-- Read the word at `a`. -/
def readInt (m : Memory) (a : ℕ) : Option ℤ :=
  if readable a ∧ readable (a + 1) ∧ readable (a + 2) ∧ readable (a + 3) then
    some (toInt (load32 m a))
  else none

/-- `fmt++` -/
def Doprnt.advance (d : Doprnt κ) : Doprnt κ := { d with fmt := ptrSucc d.fmt }

/-- One round of `while ('0' <= *fmt && *fmt <= '9')`. -/
def digitsRound (m : Memory) (st : ℕ × ℤ) : Option (Iter (ℕ × ℤ) (ℕ × ℤ)) := do
  let c ← readByte readable m st.1
  if '0'.toUInt8 ≤ c ∧ c ≤ '9'.toUInt8 then
    return .again (ptrSucc st.1, wrapInt (st.2 * 10 + c.toNat - 48))
  else return .done st

/-- A width: `*` takes it from the arguments, digits give it. -/
def readWidth (d : Doprnt κ) : Option (ℤ × Doprnt κ) := do
  let c ← readByte readable d.mem d.fmt
  if c = '*'.toUInt8 then
    let n ← readInt readable d.mem d.args
    return (n, { d.advance with args := intSucc d.args })
  else
    let (fmt, n) ← loop (digitsRound readable d.mem) loopBound (d.fmt, 0)
    return (n, { d with fmt := fmt })

/-- The precision: a width after a dot, else 0. -/
def readPrecision (d : Doprnt κ) : Option (ℤ × Doprnt κ) := do
  let c ← readByte readable d.mem d.fmt
  if c = '.'.toUInt8 then readWidth readable d.advance else return (0, d)

/-- The part of `_doprnt` from `leftjust` to `longflag`. -/
def readField (d : Doprnt κ) : Option (FieldSpec × Doprnt κ) := do
  let c ← readByte readable d.mem d.fmt
  let leftjust : Bool := c = '-'.toUInt8
  let d := if leftjust then d.advance else d
  let c ← readByte readable d.mem d.fmt
  let fill := if c = '0'.toUInt8 then c else ' '.toUInt8
  let d := if c = '0'.toUInt8 then d.advance else d
  let (fmin, d) ← readWidth readable d
  let (fmax, d) ← readPrecision readable d
  let c ← readByte readable d.mem d.fmt
  let d := if c = 'l'.toUInt8 then d.advance else d
  return (⟨leftjust, fill, fmin, fmax⟩, d)

end Reading

/-! ## Conversions -/

section Conversions

variable {κ : Type} (readable : ℕ → Bool) (put : Memory → κ → UInt8 → Memory × κ)

/-- `(*func)(farg, c)` -/
def Doprnt.emit (d : Doprnt κ) (c : UInt8) : Doprnt κ :=
  let (m, out) := put d.mem d.out c
  { d with mem := m, out := out }

/-- Write a converted number to `string`. -/
def Doprnt.setString (d : Doprnt κ) (string : ℕ) (s : List UInt8) : Doprnt κ :=
  { d with mem := storeBytes d.mem string (s ++ [0]) }

/-- One round of `while (*args < 0)`; the loop state is the memory and `digit1`. -/
def positiveRound (args : ℕ) (st : Memory × UInt8) :
    Option (Iter (Memory × UInt8) (Memory × UInt8)) := do
  let n ← readInt readable st.1 args
  if n < 0 then
    return .again (store32 st.1 args (toWord (wrapInt (n - 1000000000))), st.2 + 1)
  else return .done st

/-- The case `'u'`, into which `'D'`, `'d'` and `'U'` fall. -/
def convertUnsigned (string : ℕ) (d : Doprnt κ) : Option (Doprnt κ) := do
  let (m, digit1) ← loop (positiveRound readable d.args) loopBound (d.mem, 0)
  let n ← readInt readable m d.args
  let d := { d with mem := m }.setString string (prtl10 n)
  return { d with mem := store8 d.mem string (load8 d.mem string + digit1) }

/-- The cases `'D'` and `'d'`: take the sign away from the argument. -/
def convertSigned (string : ℕ) (d : Doprnt κ) : Option (UInt8 × Doprnt κ) := do
  let n ← readInt readable d.mem d.args
  let sign : UInt8 := if n < 0 then '-'.toUInt8 else 0
  let m := if n < 0 then store32 d.mem d.args (toWord (wrapInt (-n))) else d.mem
  let d ← convertUnsigned readable string { d with mem := m }
  return (sign, d)

/-- The `switch` on the format character. -/
def convert (string : ℕ) (f : UInt8) (field : FieldSpec) (d : Doprnt κ) :
    Option (Conversion × Doprnt κ) := do
  if f = 'c'.toUInt8 then
    let n ← readInt readable d.mem d.args
    let d := { d with mem := store8 (store8 d.mem string (UInt8.ofNat (toWord n))) (string + 1) 0 }
    return (⟨string, 0, ' '.toUInt8, 0⟩, d)
  else if f = 's'.toUInt8 then
    let n ← readInt readable d.mem d.args
    return (⟨toWord n, 0, ' '.toUInt8, field.fmax⟩, d)
  else if f = 'D'.toUInt8 ∨ f = 'd'.toUInt8 then
    let (sign, d) ← convertSigned readable string d
    return (⟨string, sign, field.fill, 0⟩, d)
  else if f = 'U'.toUInt8 ∨ f = 'u'.toUInt8 then
    let d ← convertUnsigned readable string d
    return (⟨string, 0, field.fill, 0⟩, d)
  else if f = 'O'.toUInt8 ∨ f = 'o'.toUInt8 then
    let n ← readInt readable d.mem d.args
    return (⟨string, 0, field.fill, 0⟩, d.setString string (prtl8 n))
  else if f = 'X'.toUInt8 ∨ f = 'x'.toUInt8 then
    let n ← readInt readable d.mem d.args
    return (⟨string, 0, field.fill, 0⟩, d.setString string (prtl16 n))
  else if f = 'B'.toUInt8 ∨ f = 'b'.toUInt8 then
    let n ← readInt readable d.mem d.args
    return (⟨string, 0, field.fill, 0⟩, d.setString string (prtl2 n))
  -- `default`: `string` is put out too, as it was before
  else return (⟨string, 0, field.fill, field.fmax⟩, d.emit put f)

/-! ## Output -/

/-- One round of the loop that finds the length of the string. -/
def lengthRound (m : Memory) (str : ℕ) (length : ℤ) : Option (Iter ℤ ℤ) := do
  let c ← readByte readable m (toWord (str + length))
  if c ≠ 0 then return .again (wrapInt (length + 1)) else return .done length

/-- `for (i = 0; i < leading; i++) (*func)(farg, fill)` -/
def putFill (fill : UInt8) : ℕ → Doprnt κ → Doprnt κ
  | 0, d => d
  | n + 1, d => putFill fill n (d.emit put fill)

/-- `for (i = 0; i < length; i++) (*func)(farg, str[i])`, from `str[i]` on. -/
def putString : ℕ → ℕ → Doprnt κ → Option (Doprnt κ)
  | 0, _, d => some d
  | n + 1, str, d => do
    let c ← readByte readable d.mem str
    putString n (ptrSucc str) (d.emit put c)

/-- The part of `_doprnt` after the `switch`. -/
def putField (field : FieldSpec) (cv : Conversion) (d : Doprnt κ) : Option (Doprnt κ) := do
  let d := { d with args := intSucc d.args }
  let length ← loop (lengthRound readable d.mem cv.str) loopBound 0
  let fmin := if field.fmin > maxstr ∨ field.fmin < 0 then 0 else field.fmin
  let fmax := if cv.fmax > maxstr ∨ cv.fmax < 0 then 0 else cv.fmax
  let length := if fmax ≠ 0 ∧ length > fmax then fmax else length
  let leading := if fmin ≠ 0 then fmin - length else 0
  let leading := if (fmax ≠ 0 ∨ fmin ≠ 0) ∧ cv.sign = '-'.toUInt8 then leading - 1 else leading
  let d := if cv.sign = '-'.toUInt8 ∧ cv.fill = '0'.toUInt8 then d.emit put cv.sign else d
  let d := if field.leftjust then d else putFill put cv.fill leading.toNat d
  let d := if cv.sign = '-'.toUInt8 ∧ cv.fill = ' '.toUInt8 then d.emit put cv.sign else d
  let d ← putString readable put length.toNat cv.str d
  return if field.leftjust then putFill put cv.fill leading.toNat d else d

/-! ## The main loop -/

/-- One round of `while ((c = *fmt++) != '%')`; the flag of the result says that the format
ended. -/
def echoRound (d : Doprnt κ) : Option (Iter (Doprnt κ) (Bool × Doprnt κ)) := do
  let c ← readByte readable d.mem d.fmt
  if c ≠ percent then
    if c = 0 then return .done (true, d.advance) else return .again (d.advance.emit put c)
  else return .done (false, d.advance)

/-- What follows a percent sign in `for (;;)`. -/
def directive (string : ℕ) (d : Doprnt κ) : Option (Iter (Doprnt κ) (Doprnt κ)) := do
  let c ← readByte readable d.mem d.fmt
  if c = percent then return .again (d.advance.emit put c)
  else
    let (field, d) ← readField readable d
    let f ← readByte readable d.mem d.fmt
    let d := d.advance
    if f = 0 then return .done (d.emit put percent)
    else
      let (cv, d) ← convert readable put string f field d
      let d ← putField readable put field cv d
      return .again d

/-- One round of `for (;;)`. -/
def doprntRound (string : ℕ) (d : Doprnt κ) : Option (Iter (Doprnt κ) (Doprnt κ)) := do
  let (ended, d) ← loop (echoRound readable put) loopBound d
  if ended then return .done d else directive readable put string d

/-- `_doprnt` -/
def doprnt (string : ℕ) (d : Doprnt κ) : Option (Doprnt κ) :=
  loop (doprntRound readable put string) loopBound d

end Conversions

/-! ## The callers -/

/-- `kputc`, as far as the text on the console is concerned; the screen is in the hole, which no
user pointer reaches. -/
def kputc (m : Memory) (console : List UInt8) (c : UInt8) : Memory × List UInt8 :=
  (m, console ++ [c])

/-- `kprintf`: the characters it sends to the console.  The arguments after the format start at
`args`. -/
def kprintf (readable : ℕ → Bool) (m : Memory) (string fmt args : ℕ) : Option (List UInt8) := do
  let d ← doprnt readable kputc string ⟨m, [], fmt, args⟩
  return d.out

/-- The memory that `kprintf` leaves: it writes to `string`, and to arguments it takes the sign
from. -/
def kprintfMem (readable : ℕ → Bool) (m : Memory) (string fmt args : ℕ) : Option Memory := do
  let d ← doprnt readable kputc string ⟨m, [], fmt, args⟩
  return d.mem

/-- The text that `dispatch_syscall_puts` sends to the console for the argument `str`. -/
def Heap.sysputsText (h : Heap) (readable : ℕ → Bool) (string str args : ℕ) :
    Option (List UInt8) := do
  let result ← h.verifyUsrstr str
  if result = ok then kprintf readable h.mem string str args else some []

/-- `sprntf`: the output function of `sprintf`, on its pointer `str`. -/
def sprntf (m : Memory) (str : ℕ) (c : UInt8) : Memory × ℕ := (store8 m str c, ptrSucc str)

/-- `sprintf` -/
def sprintf (readable : ℕ → Bool) (m : Memory) (string str fmt args : ℕ) : Option Memory := do
  let d ← doprnt readable sprntf string ⟨m, str, fmt, args⟩
  return store8 d.mem d.out 0

end Xeros.Model
