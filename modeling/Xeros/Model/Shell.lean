import Xeros.Model.Doprnt
import Xeros.Model.Keyboard

/-!
# The shell's command line (user.c, strcmp.c)

The shell runs in user mode, on its own memory.  `readable` says at which addresses a function may
look; a read elsewhere stops it.  The C code is the case in which all addresses are readable.
-/

set_option autoImplicit false

namespace Xeros.Model

open Xeros.Foundations

/-- `' '` -/
abbrev blank : UInt8 := 32

/-- `'&'` -/
abbrev ampersandChar : UInt8 := 38

/-- `*str == ' ' || *str == '&'` -/
def isSeparator (c : UInt8) : Bool := c = blank ∨ c = ampersandChar

/-- `ptr--` -/
def ptrPred (a : ℕ) : ℕ := subWord a 1

/-- The variables of the copying loops of `get_command`: `str`, the buffer's cursor and `len`. -/
structure WordCursor where
  mem : Memory
  str : ℕ
  dst : ℕ
  len : ℤ

variable (readable : ℕ → Bool)

/-- One round of the loops that copy the command and its argument. -/
def copyWordRound (w : WordCursor) : Option (Iter WordCursor WordCursor) := do
  let c ← readByte readable w.mem w.str
  if c ≠ 0 ∧ ¬ isSeparator c then
    return .again ⟨store8 w.mem w.dst c, ptrSucc w.str, ptrSucc w.dst, wrapInt (w.len + 1)⟩
  else return .done w

/-- One round of the loop that goes to the first argument; the loop state is `str` and `len`. -/
def skipRound (m : Memory) (st : ℕ × ℤ) : Option (Iter (ℕ × ℤ) (ℕ × ℤ)) := do
  let c ← readByte readable m st.1
  if c ≠ 0 ∧ isSeparator c then return .again (ptrSucc st.1, wrapInt (st.2 + 1))
  else return .done st

/-- One round of the loop that goes to the end of the command line. -/
def lineEndRound (m : Memory) (st : ℕ × ℤ) : Option (Iter (ℕ × ℤ) (ℕ × ℤ)) := do
  let c ← readByte readable m st.1
  if c ≠ 0 then return .again (ptrSucc st.1, wrapInt (st.2 + 1)) else return .done st

/-- One round of the loop that looks for a final `&`; the loop state is `str`, `len` and
`ampersand`. -/
def lastCharRound (m : Memory) (st : ℕ × ℤ × ℤ) : Option (Iter (ℕ × ℤ × ℤ) ℤ) :=
  let (str, len, ampersand) := st
  if len > 0 then do
    let c ← readByte readable m str
    if isSeparator c then
      let ampersand := if c = ampersandChar then 1 else ampersand
      if c ≠ blank then return .done ampersand
      else return .again (ptrPred str, wrapInt (len - 1), ampersand)
    else return .done ampersand
  else some (.done ampersand)

/-- `get_command` -/
def getCommand (m : Memory) (str command arg : ℕ) : Option (ℤ × Memory) := do
  let w ← loop (copyWordRound readable) loopBound ⟨m, str, command, 0⟩
  let m := store8 w.mem w.dst 0
  let (str, len) ← loop (skipRound readable m) loopBound (w.str, w.len)
  let w ← loop (copyWordRound readable) loopBound ⟨m, str, arg, len⟩
  let m := store8 w.mem w.dst 0
  let (str, len) ← loop (lineEndRound readable m) loopBound (w.str, w.len)
  let ampersand ← loop (lastCharRound readable m) loopBound (ptrPred str, wrapInt (len - 1), 0)
  return (ampersand, m)

/-! ## The shell's messages -/

/-- One round of the loop of `filter_newline`. -/
def filterRound (m : Memory) (str : ℕ) : Option (Iter ℕ Memory) := do
  let c ← readByte readable m str
  if c ≠ 0 then
    if c = newline then return .done (store8 m str 0) else return .again (ptrSucc str)
  else return .done m

/-- `filter_newline` -/
def filterNewline (m : Memory) (str : ℕ) : Option Memory :=
  loop (filterRound readable m) loopBound str

/-- One round of the loop of `strcmp`. -/
def strcmpRound (m : Memory) (s : ℕ × ℕ) : Option (Iter (ℕ × ℕ) ℤ) := do
  let c1 ← readByte readable m s.1
  let c2 ← readByte readable m s.2
  if c1 = c2 then
    if c1 = 0 then return .done 0 else return .again (ptrSucc s.1, ptrSucc s.2)
  else return .done (charToInt c1 - charToInt c2)

/-- `strcmp` -/
def strcmp (m : Memory) (s1 s2 : ℕ) : Option ℤ := loop (strcmpRound readable m) loopBound (s1, s2)

/-- The text of a string literal. -/
def literal (s : List Char) : List UInt8 := s.map Char.toUInt8

/-- `"The program "` -/
def programText : List UInt8 :=
  literal ['T', 'h', 'e', ' ', 'p', 'r', 'o', 'g', 'r', 'a', 'm', ' ']

/-- `" is currently not installed. You can install it by typing:\n"` -/
def missingText : List UInt8 :=
  literal [' ', 'i', 's', ' ', 'c', 'u', 'r', 'r', 'e', 'n', 't', 'l', 'y', ' ', 'n', 'o', 't', ' ',
    'i', 'n', 's', 't', 'a', 'l', 'l', 'e', 'd', '.', ' ', 'Y', 'o', 'u', ' ', 'c', 'a', 'n', ' ',
    'i', 'n', 's', 't', 'a', 'l', 'l', ' ', 'i', 't', ' ', 'b', 'y', ' ', 't', 'y', 'p', 'i', 'n',
    'g', ':', '\n']

/-- `"sudo apt-get install "` -/
def installText : List UInt8 :=
  literal ['s', 'u', 'd', 'o', ' ', 'a', 'p', 't', '-', 'g', 'e', 't', ' ', 'i', 'n', 's', 't',
    'a', 'l', 'l', ' ']

/-- The format of the first message. -/
def missingFormat : List UInt8 := programText ++ percent :: 's'.toUInt8 :: missingText

/-- The format of the second message. -/
def installFormat : List UInt8 := installText ++ percent :: 's'.toUInt8 :: literal ['\n']

/-- Where the string literals of `shell` are: the names of the commands, in the order in which they
are compared, and the two formats. -/
structure ShellLiterals where
  tName : ℕ
  psName : ℕ
  aName : ℕ
  kName : ℕ
  exName : ℕ
  sudoName : ℕ
  missing : ℕ
  install : ℕ

/-- The names of the commands with their places. -/
def ShellLiterals.names (lits : ShellLiterals) : List (ℕ × List UInt8) :=
  [(lits.tName, literal ['t']), (lits.psName, literal ['p', 's']), (lits.aName, literal ['a']),
    (lits.kName, literal ['k']), (lits.exName, literal ['e', 'x']),
    (lits.sudoName, literal ['s', 'u', 'd', 'o'])]

/-- The formats with their places. -/
def ShellLiterals.formats (lits : ShellLiterals) : List (ℕ × List UInt8) :=
  [(lits.missing, missingFormat), (lits.install, installFormat)]

/-- The arrays of `shell`, and of `sprintf` the arguments after the format and the array
`string`. -/
structure ShellFrame where
  buf : ℕ
  command : ℕ
  arg : ℕ
  printbuf : ℕ
  args : ℕ
  string : ℕ

/-- The chain of `!strcmp(.., command)`: whether one of the names is the command. -/
def isCommand (m : Memory) (command : ℕ) : List (ℕ × List UInt8) → Option Bool
  | [] => some false
  | (name, _) :: names => do
    let r ← strcmp readable m name command
    if r = 0 then return true else isCommand m command names

/-- `sprintf(printbuf, format, command)` -/
def formatCommand (m : Memory) (fr : ShellFrame) (format : ℕ) : Option Memory :=
  sprintf readable (store32 m fr.args fr.command) fr.string fr.printbuf format fr.args

/-- What `shell` does with the line that it has read into `buf`, up to the creation of a process
for the command; for an unknown one, up to its last message. -/
def shellLine (lits : ShellLiterals) (fr : ShellFrame) (m : Memory) : Option Memory := do
  let m ← filterNewline readable m fr.buf
  let (_, m) ← getCommand readable m fr.buf fr.command fr.arg
  if ← isCommand readable m fr.command lits.names then return m
  else
    let m ← formatCommand readable m fr lits.missing
    formatCommand readable m fr lits.install

end Xeros.Model
