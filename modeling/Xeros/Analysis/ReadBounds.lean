import Xeros.Analysis.DeviceRuns

/-!
# Reads stay in their buffers

A task that is registered has room for one more character, in every state of every run and also
in the middle of a turn, when the ring is flushed.
-/

set_option autoImplicit false

namespace Xeros.Analysis

open Xeros.Foundations Xeros.Model Xeros.Abstract KernelOf

/-- Registered tasks have room, no task has more than its buffer holds, and the ring indices are
in range. -/
structure InBounds (k : Keyboard) : Prop where
  index : ∀ i, 0 ≤ (k.gKbdTaskList i).i ∧ (k.gKbdTaskList i).i ≤ (k.gKbdTaskList i).buflen
  buflen : ∀ i, (k.gKbdTaskList i).buflen < kernelStack
  room : ∀ i, (k.gKbdTaskList i).waitingOnRead = true →
    (k.gKbdTaskList i).i < (k.gKbdTaskList i).buflen
  head : k.gKeyboardBufferHead < keyboardBufferSize
  tail : k.gKeyboardBufferTail < keyboardBufferSize

/-- What `InBounds` says of one task. -/
def TaskInBounds (t : KbdTask) : Prop :=
  (0 ≤ t.i ∧ t.i ≤ t.buflen) ∧ t.buflen < kernelStack ∧ (t.waitingOnRead = true → t.i < t.buflen)

theorem InBounds.task {k : Keyboard} (h : InBounds k) (i : Fin kbdTaskListSize) :
    TaskInBounds (k.gKbdTaskList i) := ⟨h.index i, h.buflen i, h.room i⟩

/-- Steps that change tasks and leave the ring indices in range. -/
theorem InBounds.of_tasks {k' : Keyboard} (h : ∀ i, TaskInBounds (k'.gKbdTaskList i))
    (hh : k'.gKeyboardBufferHead < keyboardBufferSize)
    (ht : k'.gKeyboardBufferTail < keyboardBufferSize) : InBounds k' :=
  ⟨fun i => (h i).1, fun i => (h i).2.1, fun i => (h i).2.2, hh, ht⟩

/-- Completion is noticed before the index passes the length. -/
theorem TaskInBounds.receive {t : KbdTask} (h : TaskInBounds t) (c : Option UInt8) :
    TaskInBounds (t.receive c) := by
  obtain ⟨⟨h0, h1⟩, h2, h3⟩ := h
  have hsize : kernelStack = 16384 := rfl
  cases hw : t.waitingOnRead with
  | false =>
    rw [KbdTask.receive_of_not_waiting hw]
    exact ⟨⟨h0, h1⟩, h2, h3⟩
  | true =>
    have hlt := h3 hw
    cases c with
    | none =>
      have hrec : t.receive none = { t with waitingOnRead := false } := if_pos hw
      rw [hrec]
      exact ⟨⟨h0, h1⟩, h2, by simp⟩
    | some c =>
      have hrec : t.receive (some c) =
          { t with i := wrapInt (t.i + 1), waitingOnRead := !t.ends (some c) } := if_pos hw
      have hwrap : wrapInt (t.i + 1) = t.i + 1 := wrapInt_of_range (by omega) (by omega)
      rw [hrec, hwrap]
      refine ⟨⟨?_, ?_⟩, h2, fun hgo => ?_⟩
      · show 0 ≤ t.i + 1
        omega
      · show t.i + 1 ≤ t.buflen
        omega
      · -- the read goes on, so the buffer is not full
        have hends : t.ends (some c) = false := by simpa using hgo
        have hfull : ¬ t.i + 1 = t.buflen := by
          intro heq
          have hT : t.ends (some c) = true := by
            unfold KbdTask.ends
            rw [hw, hwrap]
            simp [heq]
          rw [hT] at hends
          simp at hends
        show t.i + 1 < t.buflen
        omega

theorem ringSucc_lt (x : ℕ) : ringSucc x < keyboardBufferSize := Nat.mod_lt _ (by decide)

theorem InBounds.step {k k' : Keyboard} (h : InBounds k) (hs : KbdStep k k') : InBounds k' := by
  cases hs with
  | opened pid flag _ hk =>
    rcases kbdOpen_cases hk with ⟨-, -, rfl⟩ | ⟨-, -, rfl⟩
    · exact ⟨h.index, h.buflen, h.room, h.head, h.tail⟩
    · exact ⟨h.index, h.buflen, h.room, by show 0 < _; decide, by show 0 < _; decide⟩
  | closed pid hpos =>
    rw [kbdClose_eq hpos]
    refine InBounds.of_tasks (fun i => ?_) h.head h.tail
    dsimp only
    rw [Function.update_apply]
    split_ifs with hi
    · obtain ⟨h1, h2, -⟩ := h.task (taskIndex pid)
      exact ⟨h1, h2, by simp⟩
    · exact h.task i
  | ioctl e f => exact ⟨h.index, h.buflen, h.room, h.head, h.tail⟩
  | keystate flag => exact ⟨h.index, h.buflen, h.room, h.head, h.tail⟩
  | register i p buf buflen hlen =>
    refine InBounds.of_tasks (fun j => ?_) h.head h.tail
    unfold Keyboard.register
    dsimp only
    rw [Function.update_apply]
    split_ifs with hj
    · refine ⟨⟨le_refl 0, ?_⟩, hlen.2, fun _ => ?_⟩
      · show 0 ≤ buflen
        omega
      · show 0 < buflen
        omega
    · exact h.task j
  | eof => exact InBounds.of_tasks (fun i => (h.task i).receive none) h.head h.tail
  | char c _ => exact InBounds.of_tasks (fun i => (h.task i).receive (some c)) h.head h.tail
  | advance _ => exact ⟨h.index, h.buflen, h.room, h.head, ringSucc_lt _⟩
  | push c _ _ => exact ⟨h.index, h.buflen, h.room, ringSucc_lt _, h.tail⟩

theorem inBounds_boot : InBounds bootKbd :=
  ⟨fun _ => ⟨le_refl _, le_refl _⟩, fun _ => (by decide : (0 : ℤ) < kernelStack),
    fun _ h => absurd h Bool.false_ne_true, by decide, by decide⟩

/-! ## In the middle of a turn -/

variable {s u u' : Kernel}

/-- Some rounds of the loop of `keyboard_flush_buffer`. -/
def Rounds : Kernel → Kernel → Prop :=
  Relation.ReflTransGen fun a b => flushRound a = some (.again b)

/-- The kernel when the driver looks at its tasks: after the scancode of a keyboard interrupt is
decoded, or after some rounds of the flush loop of a read. -/
inductive Moment (s : Kernel) : SyscallRequest → Kernel → Prop where
  | key (flag : BitVec 32) :
      Moment s .keyboardInt (s.setKbd { s.kbd with gKeyboardKeystateFlag := flag })
  | read (u : Kernel) (hok : s.verifyUsrptr (s.arg 1) (toInt (s.arg 2)) = some ok)
      (h : Rounds (s.startRead s.currproc (s.arg 1) (toInt (s.arg 2))) u) : Moment s .read u

theorem Rounds.flushes (h : Rounds s u) (hown : TasksOwned s) : Flushes s u ∧ TasksOwned u := by
  induction h with
  | refl => exact ⟨.refl, hown⟩
  | tail _ hround ih =>
    obtain ⟨hf, hownu⟩ := ih
    unfold flushRound at hround
    split_ifs at hround with hguard
    · dsimp only at hround
      obtain ⟨v, hv, hround⟩ := Option.bind_eq_some_iff.mp hround
      obtain rfl := Iter.again.inj (Option.some.inj hround)
      have hstep := keyboardProcessChar_step hownu hv
      exact ⟨hf.tail ⟨hguard.1, hguard.2, v, hstep, rfl⟩, hstep.tasksOwned hownu⟩
    · exact absurd (Option.some.inj hround) (by simp)

/-- The driver's state at such a moment is in bounds, and its tasks have one owner each. -/
theorem Moment.inBounds {req : SyscallRequest} (h : Moment s req u) (hs : Sane s)
    (hcur : req = .read → s.currproc ≠ .idle) (hb : InBounds s.kbd) :
    InBounds u.kbd ∧ TasksOwned u := by
  cases h with
  | key flag => exact ⟨hb.step (.keystate flag), hs.tasksOwned⟩
  | read _ hok h =>
    cases hi : s.currproc with
    | idle => exact absurd hi (hcur rfl)
    | table i =>
      rw [hi] at h
      obtain ⟨hf, hown⟩ := h.flushes (hs.startRead _ _).tasksOwned
      refine ⟨kbdSteps_inv (fun _ _ => InBounds.step) hf.kbdUses.kbdSteps ?_, hown⟩
      exact hb.step (.register _ _ _ _ (length_of_verified hok))

/-- What the driver stores and reports during a turn. -/
structure StaysInside (s : Kernel) (req : SyscallRequest) : Prop where
  bounds : ∀ u, Moment s req u → InBounds u.kbd
  stored : ∀ u u' c a, Moment s req u → u.keyboardProcessChar c = some u' →
    load8 u'.mem a ≠ load8 u.mem a → ∃ i j, (u.kbd.gKbdTaskList i).waitingOnRead = true ∧
      0 ≤ j ∧ j < (u.kbd.gKbdTaskList i).buflen ∧
      a % 4294967296 = toWord ((u.kbd.gKbdTaskList i).buf + j)
  unblocked : ∀ u u' c i p, Moment s req u → u.keyboardProcessChar c = some u' →
    (u.kbd.gKbdTaskList i).pcb = some p → (u.kbd.gKbdTaskList i).waitingOnRead = true →
    (u'.kbd.gKbdTaskList i).waitingOnRead = false →
    0 ≤ (u'.pcb p).ret ∧ (u'.pcb p).ret ≤ (u.kbd.gKbdTaskList i).buflen
  returned : ∀ buf buflen r u, req = .read → 1 ≤ buflen → buflen < kernelStack →
    s.kbdRead s.currproc buf buflen = some (r, u) → r = blockerr ∨ 0 ≤ r ∧ r ≤ buflen

theorem Pcb.released_ret (x : Pcb) (r : ℤ) : (x.released r).ret = r := by
  unfold Pcb.released
  split_ifs <;> rfl

/-- Only bytes of a registered buffer are written. -/
theorem write_inside {t : KbdTask} (h : TaskInBounds t) {c : Option UInt8} {m : Memory} {a : ℕ}
    (ha : load8 (t.write c m) a ≠ load8 m a) : t.waitingOnRead = true ∧
      0 ≤ t.i ∧ t.i < t.buflen ∧ a % 4294967296 = toWord (t.buf + t.i) := by
  unfold KbdTask.write at ha
  split_ifs at ha with hw
  · cases c with
    | none => exact absurd rfl ha
    | some c =>
      dsimp only at ha
      rw [load8_store8] at ha
      split_ifs at ha with heq
      · refine ⟨hw, h.1.1, h.2.2 hw, ?_⟩
        have hlt := toWord_lt (t.buf + t.i)
        omega
      · exact absurd rfl ha
  · exact absurd rfl ha

theorem broadcast_write_inside {k : Keyboard} (h : InBounds k) {c : Option UInt8} {a : ℕ}
    (l : List (Fin kbdTaskListSize)) {m : Memory}
    (ha : load8 (l.foldl (fun m i => (k.gKbdTaskList i).write c m) m) a ≠ load8 m a) :
    ∃ i, (k.gKbdTaskList i).waitingOnRead = true ∧ 0 ≤ (k.gKbdTaskList i).i ∧
      (k.gKbdTaskList i).i < (k.gKbdTaskList i).buflen ∧
      a % 4294967296 = toWord ((k.gKbdTaskList i).buf + (k.gKbdTaskList i).i) := by
  induction l generalizing m with
  | nil => exact absurd rfl ha
  | cons i l ih =>
    rw [List.foldl_cons] at ha
    by_cases hi : load8 ((k.gKbdTaskList i).write c m) a = load8 m a
    · rw [← hi] at ha
      exact ih ha
    · exact ⟨i, write_inside (h.task i) hi⟩

theorem staysInside {req : SyscallRequest} (hs : Sane s) (hcur : req = .read → s.currproc ≠ .idle)
    (hb : InBounds s.kbd) : StaysInside s req := by
  refine ⟨fun u hu => (hu.inBounds hs hcur hb).1, fun u u' c a hu hc ha => ?_,
    fun u u' c i p hu hc hp hw hw' => ?_, fun buf buflen r u hreq h1 h2 hr => ?_⟩
  · obtain ⟨hbu, hown⟩ := hu.inBounds hs hcur hb
    have hbr := (keyboardProcessChar_step hown hc).broadcast
    have hkbd : InBounds (Keyboard.noticed u.kbd c) := by
      unfold Keyboard.noticed
      split_ifs
      · exact ⟨hbu.index, hbu.buflen, hbu.room, hbu.head, hbu.tail⟩
      · exact hbu
    rw [hbr.mem] at ha
    obtain ⟨i, hw, h0, hlt, heq⟩ := broadcast_write_inside hkbd _ ha
    rw [(noticed_tasks u.kbd c).1] at hw hlt heq h0
    exact ⟨i, _, hw, h0, hlt, heq⟩
  · obtain ⟨hbu, hown⟩ := hu.inBounds hs hcur hb
    have hbr := (keyboardProcessChar_step hown hc).broadcast
    have htask : ∀ j, (u.setKbd (Keyboard.noticed u.kbd c)).kbd.gKbdTaskList j =
        u.kbd.gKbdTaskList j := fun j => by
      show (Keyboard.noticed u.kbd c).gKbdTaskList j = _
      rw [(noticed_tasks u.kbd c).1]
    have hends : (u.kbd.gKbdTaskList i).ends (u.charOf c) = true := by
      rw [hbr.tasks, if_pos (List.mem_finRange i), htask, KbdTask.receive_waiting, hw] at hw'
      simpa using hw'
    have hret : (u'.pcb p).ret = ((u.kbd.gKbdTaskList i).receive (u.charOf c)).i := by
      rw [hbr.finished p i (List.mem_finRange i) (by rw [htask]; exact hends)
        (by rw [htask]; exact hp), Pcb.released_ret, htask]
    have hbound := ((hbu.task i).receive (u.charOf c)).1
    have hlen : ((u.kbd.gKbdTaskList i).receive (u.charOf c)).buflen =
        (u.kbd.gKbdTaskList i).buflen := by
      unfold KbdTask.receive
      rw [if_pos hw]
      cases u.charOf c <;> rfl
    rw [hret, ← hlen]
    exact hbound
  · cases hi : s.currproc with
    | idle => exact absurd hi (hcur hreq)
    | table i =>
      rw [hi] at hr
      obtain ⟨hf, -, hres⟩ := kbdRead_flushes (hs.startRead _ _).tasksOwned hr
      have hbu : InBounds u.kbd := kbdSteps_inv (fun _ _ => InBounds.step) hf.kbdUses.kbdSteps
        (hb.step (.register _ _ _ _ ⟨h1, h2⟩))
      rw [hs.taskIndex i] at hres
      have hlen : (u.kbd.gKbdTaskList (taskOf i)).buflen = buflen := by
        rw [(hf.request _).2]
        show (Function.update s.kbd.gKbdTaskList (taskIndex (s.pcb (.table i)).pid) _ _).buflen = _
        rw [hs.taskIndex i, Function.update_self]
      rw [hres]
      unfold readResult
      split_ifs
      · exact .inr ⟨by omega, le_refl _⟩
      · have hb := (hbu.task (taskOf i)).1
        rw [hlen] at hb
        exact .inr hb
      · exact .inl rfl

/-- In every run, reads stay in their buffers, whatever processes and typists do. -/
theorem reads_in_bounds (r : Run Links) {n : ℕ} (hn : n ≤ r.len) :
    InBounds (r.state n).kbd ∧ (n < r.len → ∃ s req, (r.state n).atTrap (r.input n) = some s ∧
      (r.input n).request = some req ∧ StaysInside s req) := by
  have hb : ∀ m ≤ r.len, InBounds (r.state m).kbd := fun m hm =>
    r.kbd_inv inBounds_boot (fun _ _ => InBounds.step) hm
  refine ⟨hb n hn, fun hlt => ?_⟩
  obtain ⟨s, req, hs, hreq, hsame, hsane, hcur, -, -⟩ := r.device hlt
  refine ⟨s, req, hs, hreq, staysInside hsane hcur ?_⟩
  rw [hsame.kbd]
  exact hb n hn

/-- The root process opens the keyboard and reads three characters; two are typed. -/
def readScript : List Act :=
  [.call [15, 1] [], .call [18, 0, 2000000, 3] [], .key 0x1E, .key 0x30]

/-- After two characters there is room for one more. -/
theorem reads_in_bounds_typed : ∃ r : Run Links, r.len = 4 ∧
    ((r.state 4).kbd.gKbdTaskList 1).waitingOnRead = true ∧
    ((r.state 4).kbd.gKbdTaskList 1).i = 2 ∧ InBounds (r.state 4).kbd := by
  obtain ⟨r, hlen, -, -, htest⟩ := exists_run (Q := Links) smallPc 40300 (fun _ _ => True)
    readScript (fun n s => match n with
      | 4 => decide ((s.kbd.gKbdTaskList 1).waitingOnRead = true ∧ (s.kbd.gKbdTaskList 1).i = 2)
      | _ => true) (by decide +kernel)
  obtain ⟨hw, hi⟩ := of_decide_eq_true (htest 4 (by decide))
  have hlen4 : r.len = 4 := hlen
  exact ⟨r, hlen4, hw, hi, (reads_in_bounds r (n := 4) (by omega)).1⟩

end Xeros.Analysis
