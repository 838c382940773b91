import Xeros.Refinement.Lifetimes

/-!
# Characters, reads and the ring

A character that is processed goes to all registered tasks (`CharStep`), either from the interrupt
(`KeyOutcome`) or from the ring, when a read empties it (`Flushes`).
-/

set_option autoImplicit false

namespace Xeros.Model

open Xeros.Foundations Xeros.Abstract

/-- Every task receives `c`. -/
def Keyboard.receiveAll (k : Keyboard) (c : Option UInt8) : Keyboard :=
  { k with
    gKbdTaskList := fun i => (k.gKbdTaskList i).receive c
    gKbdTaskRefcount := (fun n => wrapInt (n - 1))^[((List.finRange kbdTaskListSize).filter fun i =>
      (k.gKbdTaskList i).ends c).length] k.gKbdTaskRefcount }

/-- The end of file is noticed. -/
def Keyboard.finished (k : Keyboard) : Keyboard := { k with irqEnabled := false, gKbdDone := true }

/-- The next character of the ring is taken. -/
def Keyboard.advance (k : Keyboard) : Keyboard :=
  { k with gKeyboardBufferTail := ringSucc k.gKeyboardBufferTail }

/-- A character is put into the ring. -/
def Keyboard.push (k : Keyboard) (c : UInt8) : Keyboard :=
  { k with
    gKeyboardBuffer := Function.update k.gKeyboardBuffer k.gKeyboardBufferHead c
    gKeyboardBufferHead := ringSucc k.gKeyboardBufferHead }

/-- A read is registered as the task at `i`. -/
def Keyboard.register (k : Keyboard) (i : Fin kbdTaskListSize) (p : PcbPtr) (buf : ℕ) (buflen : ℤ) :
    Keyboard :=
  { k with
    gKbdTaskRefcount := wrapInt (k.gKbdTaskRefcount + 1)
    gKbdTaskList := Function.update k.gKbdTaskList i ⟨some p, buf, buflen, 0, true⟩ }

theorem KbdTask.receive_of_not_waiting {t : KbdTask} (h : t.waitingOnRead = false)
    (c : Option UInt8) : t.receive c = t := by
  unfold receive
  rw [if_neg (by simp [h])]

theorem KbdTask.ends_waiting {t : KbdTask} {c : Option UInt8} (h : t.ends c = true) :
    t.waitingOnRead = true := (Bool.and_eq_true_iff.mp h).1

theorem KbdTask.receive_request (t : KbdTask) (c : Option UInt8) :
    (t.receive c).buf = t.buf ∧ (t.receive c).buflen = t.buflen := by
  unfold receive
  split_ifs
  · cases c <;> exact ⟨rfl, rfl⟩
  · exact ⟨rfl, rfl⟩

/-- A task is still registered when its read goes on. -/
theorem KbdTask.receive_waiting (t : KbdTask) (c : Option UInt8) :
    (t.receive c).waitingOnRead = (t.waitingOnRead && !t.ends c) := by
  cases hw : t.waitingOnRead with
  | false => rw [receive_of_not_waiting hw, hw, Bool.false_and]
  | true =>
    unfold receive
    rw [if_pos hw, Bool.true_and]
    cases c with
    | none => simp [ends, hw]
    | some c => rfl

namespace KernelOf

variable {Q : Type} {s s' s'' : KernelOf Q} {p : PcbPtr} {c : Option UInt8}

abbrev allTasks : List (Fin kbdTaskListSize) := List.finRange kbdTaskListSize

theorem Broadcast.kbd (h : Broadcast c allTasks s s') : s'.kbd = s.kbd.receiveAll c := by
  have htasks : s'.kbd.gKbdTaskList = fun i => (s.kbd.gKbdTaskList i).receive c := by
    funext i
    rw [h.tasks, if_pos (List.mem_finRange i)]
  rw [h.rest, htasks, h.refcount]
  rfl

/-- Some task of the process ends its read. -/
def ReadEnds (s : KernelOf Q) (c : Option UInt8) (p : PcbPtr) : Prop :=
  ∃ i, (s.kbd.gKbdTaskList i).ends c = true ∧ (s.kbd.gKbdTaskList i).pcb = some p

theorem Broadcast.pcb (h : Broadcast c allTasks s s') (p : PcbPtr) :
    (∃ r, s'.pcb p = (s.pcb p).released r) ∧ s.ReadEnds c p ∨
      s'.pcb p = s.pcb p ∧ ¬ s.ReadEnds c p := by
  by_cases hp : s.ReadEnds c p
  · obtain ⟨i, he, hi⟩ := hp
    exact .inl ⟨⟨_, h.finished p i (List.mem_finRange i) he hi⟩, i, he, hi⟩
  · exact .inr ⟨h.other p fun i _ he hi => hp ⟨i, he, hi⟩, hp⟩

theorem Broadcast.sameData (h : Broadcast c allTasks s s') (p : PcbPtr) :
    (s.pcb p).SameData (s'.pcb p) := by
  rcases h.pcb p with ⟨⟨r, hr⟩, -⟩ | ⟨heq, -⟩
  · rw [hr]
    exact (s.pcb p).sameData_released r
  · rw [heq]
    exact Pcb.SameData.refl _

/-- A process is in a read afterwards if it was before, and its read is not over. -/
theorem Broadcast.reading (h : Broadcast c allTasks s s') (p : PcbPtr) :
    s'.Reading p ↔ s.Reading p ∧ ¬ s.ReadEnds c p := by
  unfold Core.Reading
  rcases h.pcb p with ⟨⟨r, hr⟩, he⟩ | ⟨heq, hne⟩
  · rw [hr]
    unfold Pcb.released
    split_ifs with hb
    · simp [he]
    · simp [he, hb]
  · rw [heq]
    simp [hne]

theorem Broadcast.keepsRunning (h : Broadcast c allTasks s s') (hrun : Running s) : Running s' := by
  unfold Running at *
  rw [h.currproc]
  rcases h.pcb s.currproc with ⟨⟨r, hr⟩, -⟩ | ⟨heq, -⟩
  · rw [hr]
    unfold Pcb.released
    rw [if_neg (by rw [hrun]; simp)]
    exact hrun
  · rw [heq]
    exact hrun

theorem Broadcast.task_pcb (h : Broadcast c allTasks s s') (i : Fin kbdTaskListSize) :
    (s'.kbd.gKbdTaskList i).pcb = (s.kbd.gKbdTaskList i).pcb := by
  rw [h.kbd]
  exact KbdTask.receive_pcb _ _

/-- The end of file, or another character, is processed. -/
inductive CharStep (s : KernelOf Q) (c : UInt8) (s' : KernelOf Q) : Prop where
  | eof (hc : c = s.kbd.gKeyboardEof) (h : Broadcast none allTasks s.atEof s')
  | char (hc : c ≠ s.kbd.gKeyboardEof) (h : Broadcast (some c) allTasks s s')

/-- What a character is to the tasks. -/
def charOf (s : KernelOf Q) (c : UInt8) : Option UInt8 :=
  if c = s.kbd.gKeyboardEof then none else some c

/-- The driver when a character reaches the tasks. -/
def Keyboard.noticed (k : Keyboard) (c : UInt8) : Keyboard :=
  if c = k.gKeyboardEof then k.finished else k

/-- Both kinds of character in one. -/
theorem CharStep.broadcast {c : UInt8} (h : CharStep s c s') :
    Broadcast (s.charOf c) allTasks (s.setKbd (Keyboard.noticed s.kbd c)) s' := by
  unfold charOf Keyboard.noticed
  cases h with
  | eof hc h =>
    rw [if_pos hc, if_pos hc]
    exact h
  | char hc h =>
    rw [if_neg hc, if_neg hc]
    exact h

theorem noticed_tasks (k : Keyboard) (c : UInt8) :
    (Keyboard.noticed k c).gKbdTaskList = k.gKbdTaskList ∧
      (Keyboard.noticed k c).gKbdTaskRefcount = k.gKbdTaskRefcount := by
  unfold Keyboard.noticed
  split_ifs <;> exact ⟨rfl, rfl⟩

theorem CharStep.tasksOwned {c : UInt8} (h : CharStep s c s') (hown : TasksOwned s) :
    TasksOwned s' := by
  have htask : ∀ i, (s'.kbd.gKbdTaskList i).pcb = (s.kbd.gKbdTaskList i).pcb := by
    intro i
    rw [h.broadcast.task_pcb]
    show ((Keyboard.noticed s.kbd c).gKbdTaskList i).pcb = _
    rw [(noticed_tasks s.kbd c).1]
  intro i j p hi hj
  rw [htask] at hi hj
  exact hown i j p hi hj

/-- One round of the loop that empties the ring. -/
def FlushStep (s s' : KernelOf Q) : Prop :=
  0 < s.kbd.gKbdTaskRefcount ∧ s.kbd.gKeyboardBufferTail ≠ s.kbd.gKeyboardBufferHead ∧
    ∃ u, CharStep s (s.kbd.gKeyboardBuffer s.kbd.gKeyboardBufferTail) u ∧
      s' = u.setKbd u.kbd.advance

/-- The loop that empties the ring. -/
def Flushes : KernelOf Q → KernelOf Q → Prop := Relation.ReflTransGen FlushStep

/-- Nobody is registered, or the ring is empty. -/
def FlushDone (s : KernelOf Q) : Prop :=
  s.kbd.gKbdTaskRefcount ≤ 0 ∨ s.kbd.gKeyboardBufferTail = s.kbd.gKeyboardBufferHead

/-- The kernel when the read of `p` is registered. -/
def startRead (s : KernelOf Q) (p : PcbPtr) (buf : ℕ) (buflen : ℤ) : KernelOf Q :=
  s.setKbd (s.kbd.register (taskIndex (s.pcb p).pid) p buf buflen)

/-- What `kbd_read` returns once the ring is flushed. -/
def readResult (k : Keyboard) (i : Fin kbdTaskListSize) (buflen : ℤ) : ℤ :=
  if (k.gKbdTaskList i).i = buflen then buflen
  else if k.gKbdDone then (k.gKbdTaskList i).i
  else blockerr

variable [ProcLists Q]

theorem keyboardProcessChar_step {c : UInt8} (hown : TasksOwned s)
    (h : s.keyboardProcessChar c = some s') : CharStep s c s' := by
  unfold keyboardProcessChar at h
  split_ifs at h with hc
  · exact .eof hc (keyboardHandleEof_broadcast hown h)
  · exact .char hc (broadcast_of_rounds processCharRound_delivered (List.nodup_finRange _) hown h)

/-- A round in which the loop goes on. -/
theorem flushRound_again (hr : 0 < s.kbd.gKbdTaskRefcount)
    (hne : s.kbd.gKeyboardBufferTail ≠ s.kbd.gKeyboardBufferHead) :
    s.flushRound = (s.keyboardProcessChar (s.kbd.gKeyboardBuffer s.kbd.gKeyboardBufferTail)).map
      fun u => .again (u.setKbd u.kbd.advance) := by
  unfold flushRound
  rw [if_pos ⟨hr, hne⟩]
  dsimp only
  cases s.keyboardProcessChar (s.kbd.gKeyboardBuffer s.kbd.gKeyboardBufferTail) <;> rfl

/-- The loop that empties the ring, with any bound on its rounds. -/
theorem flushLoop_flushes {n : ℕ} (hown : TasksOwned s) (h : loop flushRound n s = some s') :
    Flushes s s' ∧ FlushDone s' := by
  refine loop_inv (I := fun u => Flushes s u ∧ TasksOwned u) (Q := fun u => Flushes s u ∧ FlushDone u)
    ?_ ?_ ⟨.refl, hown⟩ h
  · rintro u u' ⟨hu, hownu⟩ hround
    unfold flushRound at hround
    split_ifs at hround with hguard
    · dsimp only at hround
      obtain ⟨v, hv, hround⟩ := Option.bind_eq_some_iff.mp hround
      obtain rfl := Iter.again.inj (Option.some.inj hround)
      have hstep := keyboardProcessChar_step hownu hv
      exact ⟨hu.tail ⟨hguard.1, hguard.2, v, hstep, rfl⟩, hstep.tasksOwned hownu⟩
    · exact absurd (Option.some.inj hround) (by simp)
  · rintro u u' ⟨hu, -⟩ hround
    unfold flushRound at hround
    split_ifs at hround with hguard
    · dsimp only at hround
      obtain ⟨v, -, hround⟩ := Option.bind_eq_some_iff.mp hround
      exact absurd (Option.some.inj hround) (by simp)
    · obtain rfl := Iter.done.inj (Option.some.inj hround)
      refine ⟨hu, ?_⟩
      unfold FlushDone
      by_cases hr : u.kbd.gKbdTaskRefcount ≤ 0
      · exact .inl hr
      · exact .inr (not_not.mp fun hne => hguard ⟨by omega, hne⟩)

/-- `kbd_read` registers the task, empties the ring, and looks at the task again. -/
theorem kbdRead_eq {buf : ℕ} {buflen r : ℤ} (h : s.kbdRead p buf buflen = some (r, s')) :
    (s.startRead p buf buflen).keyboardFlushBuffer = some s' ∧
      r = readResult s'.kbd (taskIndex (s.pcb p).pid) buflen := by
  unfold kbdRead at h
  dsimp only at h
  obtain ⟨u, hu, h⟩ := Option.bind_eq_some_iff.mp h
  unfold readResult
  split_ifs at h with h1 h2
  all_goals obtain ⟨rfl, rfl⟩ := Prod.mk.inj (Option.some.inj h)
  · rw [if_pos h1]
    exact ⟨hu, rfl⟩
  · rw [if_neg h1, if_pos h2]
    exact ⟨hu, rfl⟩
  · rw [if_neg h1, if_neg h2]
    exact ⟨hu, rfl⟩

theorem kbdRead_flushes {buf : ℕ} {buflen r : ℤ} (hown : TasksOwned (s.startRead p buf buflen))
    (h : s.kbdRead p buf buflen = some (r, s')) :
    Flushes (s.startRead p buf buflen) s' ∧ FlushDone s' ∧
      r = readResult s'.kbd (taskIndex (s.pcb p).pid) buflen := by
  obtain ⟨hflush, hr⟩ := kbdRead_eq h
  obtain ⟨hf, hdone⟩ := flushLoop_flushes hown hflush
  exact ⟨hf, hdone, hr⟩

/-- What a keyboard interrupt does, when the scancode stands for the character `c`, if any, and
leaves the keystate `flag`. -/
inductive KeyOutcome (s : KernelOf Q) (c : UInt8) (flag : BitVec 32) (s' : KernelOf Q) : Prop where
  | ignored (hc : c = 0 ∨ s.kbd.gKbdTaskRefcount ≤ 0 ∧
        ringSucc s.kbd.gKeyboardBufferHead = s.kbd.gKeyboardBufferTail)
      (h : s' = s.setKbd { s.kbd with gKeyboardKeystateFlag := flag })
  | typed (hc : c ≠ 0) (hr : 0 < s.kbd.gKbdTaskRefcount)
      (h : CharStep (s.setKbd { s.kbd with gKeyboardKeystateFlag := flag }) c s')
  | stored (hc : c ≠ 0) (hr : s.kbd.gKbdTaskRefcount ≤ 0)
      (hroom : ringSucc s.kbd.gKeyboardBufferHead ≠ s.kbd.gKeyboardBufferTail)
      (h : s' = s.setKbd ({ s.kbd with gKeyboardKeystateFlag := flag }.push c))

/-- What the interrupt handler makes of the bytes it reads from the two ports. -/
def scanned (s : KernelOf Q) (control data : ℕ) : UInt8 × BitVec 32 :=
  if control % 2 = 1 then keyboardProcessScancode s.kbd.gKeyboardKeystateFlag (data % 256)
  else (0, s.kbd.gKeyboardKeystateFlag)

theorem keyboardIsr_outcome {control data : ℕ} (hown : TasksOwned s)
    (h : s.keyboardIsr control data = some s') :
    KeyOutcome s (s.scanned control data).1 (s.scanned control data).2 s' := by
  unfold keyboardIsr at h
  unfold scanned
  generalize keyboardProcessScancode s.kbd.gKeyboardKeystateFlag (data % 256) = r at h ⊢
  obtain ⟨c, flag⟩ := r
  by_cases h1 : control % 2 = 1
  · rw [if_pos h1] at h ⊢
    dsimp only at h ⊢
    by_cases hc : c = 0
    · rw [if_neg (not_not.mpr hc)] at h
      exact .ignored (.inl hc) (Option.some.inj h).symm
    · rw [if_pos hc] at h
      obtain ⟨u, hu⟩ : ∃ u, u = s.setKbd { s.kbd with gKeyboardKeystateFlag := flag } := ⟨_, rfl⟩
      rw [← hu] at h
      have hkbd : u.kbd = { s.kbd with gKeyboardKeystateFlag := flag } := by rw [hu]; rfl
      by_cases hr : 0 < s.kbd.gKbdTaskRefcount
      · rw [if_pos (by rw [hkbd]; exact hr)] at h
        refine .typed hc hr ?_
        rw [← hu]
        refine keyboardProcessChar_step ?_ h
        rw [hu]
        exact hown
      · rw [if_neg (by rw [hkbd]; exact hr)] at h
        by_cases hroom : ringSucc s.kbd.gKeyboardBufferHead = s.kbd.gKeyboardBufferTail
        · rw [if_neg (by rw [hkbd]; exact not_not.mpr hroom)] at h
          rw [hu] at h
          exact .ignored (.inr ⟨not_lt.mp hr, hroom⟩) (Option.some.inj h).symm
        · rw [if_pos (by rw [hkbd]; exact hroom)] at h
          refine .stored hc (not_lt.mp hr) hroom ?_
          rw [← Option.some.inj h, hu]
          rfl
  · rw [if_neg h1] at h ⊢
    exact .ignored (.inl rfl) (Option.some.inj h).symm

/-- An interrupt with a character, while somebody is registered. -/
theorem keyboardIsr_processes {control data : ℕ} (hc : (s.scanned control data).1 ≠ 0)
    (hr : 0 < s.kbd.gKbdTaskRefcount) :
    s.keyboardIsr control data =
      (s.setKbd { s.kbd with gKeyboardKeystateFlag := (s.scanned control data).2 }).keyboardProcessChar
        (s.scanned control data).1 := by
  unfold scanned at hc ⊢
  unfold keyboardIsr
  by_cases h1 : control % 2 = 1
  · rw [if_pos h1] at hc ⊢
    rw [if_pos h1]
    generalize keyboardProcessScancode s.kbd.gKeyboardKeystateFlag (data % 256) = r at hc ⊢
    obtain ⟨c, flag⟩ := r
    dsimp only at hc ⊢
    rw [if_pos hc]
    exact if_pos hr
  · rw [if_neg h1] at hc
    exact absurd rfl hc

omit [ProcLists Q] in
/-- The calls of `kbd_ioctl` change the end of file character or the echo flag. -/
theorem kbdIoctl_eq (s : KernelOf Q) (command args : ℕ) :
    ∃ e f, (s.kbdIoctl command args).2 =
      s.setKbd { s.kbd with gKeyboardEof := e, gKeyboardEchoFlag := f } := by
  have hsame : s = s.setKbd { s.kbd with
      gKeyboardEof := s.kbd.gKeyboardEof, gKeyboardEchoFlag := s.kbd.gKeyboardEchoFlag } := rfl
  unfold kbdIoctl kbdIoctlSetEof
  split_ifs
  · exact ⟨_, _, hsame⟩
  · exact ⟨_, s.kbd.gKeyboardEchoFlag, rfl⟩
  · exact ⟨s.kbd.gKeyboardEof, _, rfl⟩
  · exact ⟨s.kbd.gKeyboardEof, _, rfl⟩
  · exact ⟨_, _, hsame⟩
  · exact ⟨_, _, hsame⟩
  · exact ⟨_, _, hsame⟩

end KernelOf

end Xeros.Model
