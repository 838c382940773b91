import Xeros.Analysis.ReadBounds

/-!
# Registered readers and typed characters

`g_kbd_task_refcount` counts the registered tasks as long as no process starts a read while its task
is still registered.  Then every character that is accepted reaches a reader or the ring, while
there is room.
-/

set_option autoImplicit false

namespace Xeros.Analysis

open Xeros.Foundations Xeros.Model Xeros.Abstract KernelOf

/-! ## Counting -/

section Counting

variable {α : Type} {l : List α} {f g : α → Bool}

/-- Elements that are counted no longer are those that were counted and satisfy `g`. -/
theorem length_filter_andNot (h : ∀ a, g a = true → f a = true) (l : List α) :
    (l.filter fun a => f a && !g a).length + (l.filter g).length = (l.filter f).length := by
  induction l with
  | nil => rfl
  | cons a l ih =>
    have ha := h a
    rw [List.filter_cons, List.filter_cons, List.filter_cons]
    cases hf : f a <;> cases hg : g a
    · simpa using ih
    · rw [hf] at ha
      exact absurd (ha hg) (by simp)
    · simp only [Bool.not_false, Bool.and_self, if_true, Bool.false_eq_true, if_false,
        List.length_cons]
      omega
    · simp only [Bool.not_true, Bool.and_false, Bool.false_eq_true, if_false, if_true,
        List.length_cons]
      omega

theorem length_filter_update [DecidableEq α] (hnd : l.Nodup) {a : α} (ha : a ∈ l) (b : Bool) :
    (l.filter (Function.update f a b)).length + (f a).toNat = (l.filter f).length + b.toNat := by
  induction l with
  | nil => simp at ha
  | cons c l ih =>
    obtain ⟨hc, hnd⟩ := List.nodup_cons.mp hnd
    by_cases hca : c = a
    · have hrest : l.filter (Function.update f a b) = l.filter f := by
        refine List.filter_congr fun x hx => Function.update_of_ne ?_ _ _
        rintro rfl
        exact hc (hca ▸ hx)
      rw [List.filter_cons, List.filter_cons, hca, hrest, Function.update_self]
      cases f a <;> cases b <;> simp
    · have hal : a ∈ l := (List.mem_cons.mp ha).resolve_left (Ne.symm hca)
      have hrec := ih hnd hal
      rw [List.filter_cons, List.filter_cons, Function.update_of_ne hca]
      cases f c <;> simp <;> omega

end Counting

theorem iterate_wrapInt_pred {n : ℤ} (m : ℕ) (hm : (m : ℤ) ≤ n) (hn : n ≤ 32) :
    (fun x => wrapInt (x - 1))^[m] n = n - m := by
  induction m generalizing n with
  | zero => simp
  | succ m ih =>
    rw [Function.iterate_succ_apply]
    have hwrap : wrapInt (n - 1) = n - 1 := wrapInt_of_range (by omega) (by omega)
    rw [hwrap, ih (by omega) (by omega)]
    omega

/-- The number of registered tasks. -/
def waitingCount (f : Fin kbdTaskListSize → KbdTask) : ℕ :=
  (allTasks.filter fun i => (f i).waitingOnRead).length

theorem waitingCount_le (f : Fin kbdTaskListSize → KbdTask) : waitingCount f ≤ 32 := by
  have h := List.length_filter_le (fun i => (f i).waitingOnRead) allTasks
  rw [List.length_finRange] at h
  exact h

/-- The reference count is the number of registered tasks. -/
def Counted (k : Keyboard) : Prop := k.gKbdTaskRefcount = waitingCount k.gKbdTaskList

theorem waitingCount_update (f : Fin kbdTaskListSize → KbdTask) (i : Fin kbdTaskListSize)
    (t : KbdTask) : waitingCount (Function.update f i t) + (f i).waitingOnRead.toNat =
      waitingCount f + t.waitingOnRead.toNat := by
  have hfun : (fun j => (Function.update f i t j).waitingOnRead) =
      Function.update (fun j => (f j).waitingOnRead) i t.waitingOnRead := by
    funext j
    by_cases hj : j = i
    · rw [hj, Function.update_self, Function.update_self]
    · rw [Function.update_of_ne hj, Function.update_of_ne hj]
  unfold waitingCount
  rw [hfun]
  exact length_filter_update (List.nodup_finRange _) (List.mem_finRange i) _

theorem Counted.receiveAll {k : Keyboard} (h : Counted k) (c : Option UInt8) :
    Counted (k.receiveAll c) := by
  have hsplit := length_filter_andNot (fun i hi => KbdTask.ends_waiting (c := c) hi)
    (f := fun i => (k.gKbdTaskList i).waitingOnRead) allTasks
  have hcount : waitingCount (k.receiveAll c).gKbdTaskList +
      (allTasks.filter fun i => (k.gKbdTaskList i).ends c).length = waitingCount k.gKbdTaskList := by
    rw [waitingCount, waitingCount, ← hsplit]
    congr 2
    refine List.filter_congr fun i _ => ?_
    exact KbdTask.receive_waiting _ _
  have hle := waitingCount_le k.gKbdTaskList
  unfold Counted at h ⊢
  show (fun n => wrapInt (n - 1))^[(allTasks.filter fun i => (k.gKbdTaskList i).ends c).length]
    k.gKbdTaskRefcount = _
  rw [h, iterate_wrapInt_pred _ (by omega) (by omega)]
  omega

theorem Counted.closed {k : Keyboard} (h : Counted k) (pid : ℤ) (hpos : 0 < k.gKbdRefcount) :
    Counted (k.kbdClose pid).2 := by
  obtain ⟨t, htask, hlist⟩ : ∃ t : KbdTask, t.waitingOnRead = false ∧
      ((k.kbdClose pid).2).gKbdTaskList = Function.update k.gKbdTaskList (taskIndex pid) t :=
    ⟨{ k.gKbdTaskList (taskIndex pid) with waitingOnRead := false }, rfl, by rw [kbdClose_eq hpos]⟩
  have hc := waitingCount_update k.gKbdTaskList (taskIndex pid) t
  have hle := waitingCount_le k.gKbdTaskList
  have hcount : ((k.kbdClose pid).2).gKbdTaskRefcount =
      if (k.gKbdTaskList (taskIndex pid)).waitingOnRead then wrapInt (k.gKbdTaskRefcount - 1)
      else k.gKbdTaskRefcount := by rw [kbdClose_eq hpos]
  unfold Counted at h ⊢
  rw [hlist, hcount]
  by_cases hw : (k.gKbdTaskList (taskIndex pid)).waitingOnRead
  · rw [hw, htask] at hc
    simp only [Bool.toNat_true, Bool.toNat_false] at hc
    rw [if_pos hw, h, wrapInt_of_range (by omega) (by omega)]
    omega
  · rw [Bool.eq_false_iff.mpr hw, htask] at hc
    simp only [Bool.toNat_false] at hc
    rw [if_neg hw, h]
    omega

/-! ## The ring -/

/-- The number of characters in the ring. -/
def ringCount (k : Keyboard) : ℕ :=
  (k.gKeyboardBufferHead + keyboardBufferSize - k.gKeyboardBufferTail) % keyboardBufferSize

/-- The characters in the ring, the oldest first. -/
def ringContents (k : Keyboard) : List UInt8 :=
  (List.range (ringCount k)).map fun j =>
    k.gKeyboardBuffer ((k.gKeyboardBufferTail + j) % keyboardBufferSize)

theorem ringContents_length (k : Keyboard) : (ringContents k).length = ringCount k := by
  unfold ringContents
  rw [List.length_map, List.length_range]

theorem ringContents_push {k : Keyboard} (hb : InBounds k) (c : UInt8)
    (hroom : ringSucc k.gKeyboardBufferHead ≠ k.gKeyboardBufferTail) :
    ringContents (k.push c) = ringContents k ++ [c] := by
  have hh : k.gKeyboardBufferHead < 5 := hb.head
  have ht : k.gKeyboardBufferTail < 5 := hb.tail
  have hroom' : (k.gKeyboardBufferHead + 1) % 5 ≠ k.gKeyboardBufferTail := hroom
  have hcount : ringCount (k.push c) = ringCount k + 1 := by
    show ((k.gKeyboardBufferHead + 1) % 5 + 5 - k.gKeyboardBufferTail) % 5 =
      (k.gKeyboardBufferHead + 5 - k.gKeyboardBufferTail) % 5 + 1
    omega
  have hlast : (k.gKeyboardBufferTail + ringCount k) % 5 = k.gKeyboardBufferHead := by
    show (k.gKeyboardBufferTail + (k.gKeyboardBufferHead + 5 - k.gKeyboardBufferTail) % 5) % 5 = _
    omega
  unfold ringContents
  rw [hcount, List.range_succ, List.map_append]
  congr 1
  · refine List.map_congr_left fun j hj => ?_
    have hlt := List.mem_range.mp hj
    refine Function.update_of_ne ?_ _ _
    have hlt' : j < (k.gKeyboardBufferHead + 5 - k.gKeyboardBufferTail) % 5 := hlt
    show (k.gKeyboardBufferTail + j) % 5 ≠ k.gKeyboardBufferHead
    omega
  · show [Function.update k.gKeyboardBuffer k.gKeyboardBufferHead c
      ((k.gKeyboardBufferTail + ringCount k) % 5)] = [c]
    rw [hlast, Function.update_self]

/-- The ring is full when it holds `KEYBOARD_BUFFER_SIZE - 1` characters. -/
theorem ringCount_full {k : Keyboard} (hb : InBounds k)
    (hfull : ringSucc k.gKeyboardBufferHead = k.gKeyboardBufferTail) : ringCount k = 4 := by
  have hh : k.gKeyboardBufferHead < 5 := hb.head
  have ht : k.gKeyboardBufferTail < 5 := hb.tail
  have hfull' : (k.gKeyboardBufferHead + 1) % 5 = k.gKeyboardBufferTail := hfull
  show (k.gKeyboardBufferHead + 5 - k.gKeyboardBufferTail) % 5 = 4
  omega

/-! ## Where a character goes -/

variable {s u s' : Kernel}

theorem load8_write (t : KbdTask) (c : UInt8) (m : Memory) (a : ℕ) :
    load8 (t.write (some c) m) a =
      if t.waitingOnRead = true ∧ a % 4294967296 = toWord (t.buf + t.i) then c else load8 m a := by
  have hlt := toWord_lt (t.buf + t.i)
  unfold KbdTask.write
  by_cases hw : t.waitingOnRead = true
  · rw [if_pos hw]
    dsimp only
    rw [load8_store8, Nat.mod_eq_of_lt hlt]
    simp [hw]
  · rw [if_neg hw, if_neg fun h => hw h.1]

/-- Every registered task finds the character in its buffer. -/
theorem load8_broadcast {k : Keyboard} {c : UInt8} {i : Fin kbdTaskListSize}
    {l : List (Fin kbdTaskListSize)} (hi : i ∈ l) (hw : (k.gKbdTaskList i).waitingOnRead = true)
    (m : Memory) :
    load8 (l.foldl (fun m i => (k.gKbdTaskList i).write (some c) m) m)
      (toWord ((k.gKbdTaskList i).buf + (k.gKbdTaskList i).i)) = c := by
  have hlt := toWord_lt ((k.gKbdTaskList i).buf + (k.gKbdTaskList i).i)
  -- once written, the byte is only written again with the same character
  have hkeep : ∀ (l : List (Fin kbdTaskListSize)) (m : Memory) (a : ℕ), load8 m a = c →
      load8 (l.foldl (fun m i => (k.gKbdTaskList i).write (some c) m) m) a = c := by
    intro l
    induction l with
    | nil => exact fun m a h => h
    | cons j l ih =>
      intro m a h
      rw [List.foldl_cons]
      refine ih _ a ?_
      rw [load8_write, h]
      split_ifs <;> rfl
  induction l generalizing m with
  | nil => simp at hi
  | cons j l ih =>
    rw [List.foldl_cons]
    rcases List.mem_cons.mp hi with rfl | hil
    · refine hkeep l _ _ ?_
      rw [load8_write, if_pos ⟨hw, Nat.mod_eq_of_lt hlt⟩]
    · exact ih hil _

/-- What becomes of a character that is typed. -/
inductive CharacterFate (s : Kernel) (c : UInt8) (s' : Kernel) : Prop where
  | received (i : Fin kbdTaskListSize) (hw : (s.kbd.gKbdTaskList i).waitingOnRead = true)
      (hi : (s'.kbd.gKbdTaskList i).i = (s.kbd.gKbdTaskList i).i + 1)
      (hc : load8 s'.mem (toWord ((s.kbd.gKbdTaskList i).buf + (s.kbd.gKbdTaskList i).i)) = c)
  | stored (hno : ∀ i, (s.kbd.gKbdTaskList i).waitingOnRead = false)
      (h : ringContents s'.kbd = ringContents s.kbd ++ [c])
  | dropped (hno : ∀ i, (s.kbd.gKbdTaskList i).waitingOnRead = false)
      (hfull : (ringContents s.kbd).length = keyboardBufferSize - 1)

/-- Characters go to readers or to the ring, in the turn from `s` to `s'`. -/
structure CharactersKept (s : Kernel) (t : Trap) (req : SyscallRequest) (s' : Kernel) : Prop where
  typed : req = .keyboardInt → (s.scanned t.control t.data).1 ≠ 0 →
    (s.scanned t.control t.data).1 ≠ s.kbd.gKeyboardEof →
    CharacterFate s (s.scanned t.control t.data).1 s'
  flushed : ∀ u u', req = .read → s.ReachesDriver →
    Rounds (s.startRead s.currproc (s.arg 1) (toInt (s.arg 2))) u →
    flushRound u = some (.again u') → ∃ i, (u.kbd.gKbdTaskList i).waitingOnRead = true

/-- A read is started by a process whose task is still registered. -/
def StaleRead (s : Kernel) : Prop :=
  s.ReachesDriver ∧ (s.kbd.gKbdTaskList (taskIndex s.current.pid)).waitingOnRead = true

theorem Counted.exists_waiting {k : Keyboard} (h : Counted k) (hpos : 0 < k.gKbdTaskRefcount) :
    ∃ i, (k.gKbdTaskList i).waitingOnRead = true := by
  unfold Counted at h
  have hne : (allTasks.filter fun i => (k.gKbdTaskList i).waitingOnRead) ≠ [] := by
    intro hnil
    unfold waitingCount at h
    rw [hnil] at h
    simp at h
    omega
  obtain ⟨i, hi⟩ := List.exists_mem_of_ne_nil _ hne
  exact ⟨i, (List.mem_filter.mp hi).2⟩

theorem Counted.none_waiting {k : Keyboard} (h : Counted k) (hpos : k.gKbdTaskRefcount ≤ 0)
    (i : Fin kbdTaskListSize) : (k.gKbdTaskList i).waitingOnRead = false := by
  unfold Counted at h
  have hnil : (allTasks.filter fun i => (k.gKbdTaskList i).waitingOnRead) = [] := by
    refine List.length_eq_zero_iff.mp ?_
    unfold waitingCount at h
    omega
  have hi := List.filter_eq_nil_iff.mp hnil i (List.mem_finRange i)
  simpa using hi

theorem Counted.charStep {c : UInt8} (h : Counted s.kbd) (h' : CharStep s c s') :
    Counted s'.kbd := by
  cases h' with
  | eof hc hb =>
    rw [hb.kbd]
    exact Counted.receiveAll (k := s.kbd.finished) h none
  | char hc hb =>
    rw [hb.kbd]
    exact h.receiveAll (some c)

theorem Counted.flushes (h : Counted s.kbd) (h' : Flushes s s') : Counted s'.kbd := by
  induction h' with
  | refl => exact h
  | tail _ hstep ih =>
    obtain ⟨-, -, u, hu, rfl⟩ := hstep
    have hcount : Counted u.kbd := ih.charStep hu
    exact hcount

theorem Counted.register {k : Keyboard} {i : Fin kbdTaskListSize} (h : Counted k)
    (hfresh : (k.gKbdTaskList i).waitingOnRead = false) (p : PcbPtr) (buf : ℕ) (buflen : ℤ) :
    Counted (k.register i p buf buflen) := by
  have hc := waitingCount_update k.gKbdTaskList i ⟨some p, buf, buflen, 0, true⟩
  have hle := waitingCount_le k.gKbdTaskList
  rw [hfresh] at hc
  simp only [Bool.toNat_true, Bool.toNat_false] at hc
  unfold Counted at h ⊢
  show wrapInt (k.gKbdTaskRefcount + 1) =
    waitingCount (Function.update k.gKbdTaskList i ⟨some p, buf, buflen, 0, true⟩)
  rw [h, wrapInt_of_range (by omega) (by omega)]
  omega

theorem Counted.closesSome {p : PcbPtr} (h : Counted s.kbd) (h' : ClosesSome p s s') :
    Counted s'.kbd := by
  induction h' with
  | refl => exact h
  | tail _ hstep ih =>
    obtain ⟨i, hc⟩ := hstep
    rw [hc.kbd]
    exact ih.closed _ hc.refcount

/-- The read of a process without a task is counted. -/
theorem Counted.startRead {i : Fin pcbTableSize} (h : Counted s.kbd)
    (hi : s.currproc = .table i) (hd : s.ReachesDriver) (hfresh : ¬ StaleRead s) :
    Counted (s.startRead (.table i) (s.arg 1) (toInt (s.arg 2))).kbd := by
  refine h.register ?_ _ _ _
  by_contra hw
  refine hfresh ⟨hd, ?_⟩
  unfold Core.current
  rw [hi]
  simpa using hw

/-- Every turn keeps the count, but for a read of a process that is still registered. -/
theorem Counted.step {req : SyscallRequest} (h : Counted s.kbd) (hs : Sane s)
    (h' : DeviceStep s req s') (hfresh : req = .read → ¬ StaleRead s) : Counted s'.kbd := by
  cases h' with
  | kept _ _ h' =>
    rw [h'.kept.kbd]
    exact h
  | signalled p _ hp h' =>
    rw [h'.kept.kbd]
    exact h
  | create r u h' => cases h' <;> exact h
  | ended _ heap u v w _ hu hv hw he =>
    have hsv := ((hs.setHeap heap).quiet hu).closesSome hv
    have hc : v.currproc = s.currproc := hv.fdsOnly.currproc.trans hu.currproc
    rw [← hc] at hw
    rw [(ended_calm hsv hw he).1.kbd]
    refine Counted.closesSome (s := u) ?_ hv
    rw [hu.kbd]
    exact h
  | opened e fd k hfd hk =>
    obtain ⟨htasks, hcount⟩ := kbdOpen_tasks hk
    show k.gKbdTaskRefcount = waitingCount k.gKbdTaskList
    rw [htasks, hcount]
    exact h
  | closed i u r h' =>
    show Counted u.kbd
    rw [h'.kbd]
    exact h.closed _ h'.refcount
  | ioctl e f r => exact h
  | read i u hi hd hu hdone hr =>
    show Counted u.kbd
    exact (h.startRead hi hd (hfresh rfl)).flushes hu
  | blocked i u _ hi hd hu hdone hr he =>
    have hsu := (hs.startRead (i := i) _ _).flushes hu
    have hcur : u.currproc = .table i := hu.currproc.trans hi
    rw [(blockedRead hsu (by rw [hcur]; simp) he).2.1]
    exact (h.startRead hi hd (hfresh rfl)).flushes hu
  | key c flag _ h' =>
    cases h' with
    | ignored hc heq =>
      rw [heq]
      exact h
    | typed hc hr hstep =>
      refine Counted.charStep ?_ hstep
      exact h
    | stored hc hr hroom heq =>
      rw [heq]
      exact h

/-- As long as the count is right, a character that is typed is not lost while there is room. -/
theorem Counted.fate (h : Counted s.kbd) (hb : InBounds s.kbd) {c : UInt8} {flag : BitVec 32}
    (hc : c ≠ 0) (hne : c ≠ s.kbd.gKeyboardEof) (hk : KeyOutcome s c flag s') :
    CharacterFate s c s' := by
  cases hk with
  | ignored hzero heq =>
    obtain ⟨hr, hfull⟩ := hzero.resolve_left hc
    refine .dropped (h.none_waiting hr) ?_
    rw [ringContents_length, ringCount_full hb hfull]
    rfl
  | typed _ hr hstep =>
    obtain ⟨i, hw⟩ := h.exists_waiting hr
    cases hstep with
    | eof heof _ => exact absurd heof hne
    | char _ hbr =>
      refine .received i hw ?_ ?_
      · have hrec : (s.kbd.gKbdTaskList i).receive (some c) =
            { s.kbd.gKbdTaskList i with
              i := wrapInt ((s.kbd.gKbdTaskList i).i + 1)
              waitingOnRead := !(s.kbd.gKbdTaskList i).ends (some c) } := if_pos hw
        have h0 := hb.index i
        have h1 := hb.buflen i
        have hsize : kernelStack = 16384 := rfl
        rw [hbr.kbd]
        show ((s.kbd.gKbdTaskList i).receive (some c)).i = _
        rw [hrec]
        exact wrapInt_of_range (by omega) (by omega)
      · rw [hbr.mem]
        exact load8_broadcast (k := s.kbd) (List.mem_finRange i) hw _
  | stored _ hr hroom heq =>
    refine .stored (h.none_waiting hr) ?_
    rw [heq]
    exact ringContents_push (k := { s.kbd with gKeyboardKeystateFlag := flag })
      ⟨hb.index, hb.buflen, hb.room, hb.head, hb.tail⟩ c hroom

/-- A read in an empty ring, and a character for it. -/
def readTwo : List Act :=
  [.call [15, 1] [], .call [18, 0, 2000000, 2] [], .key 0x1E]

/-- The root process is taken out of a read by a signal, reads again in its handler, and ends that
read with a newline; then an `a` is typed. -/
def rereadScript : List Act :=
  [.call [2, 40400, 8192] [], .call [13, 5, 40500, 1900000] [], .call [15, 1] [],
    .call [18, 0, 2000000, 10] [], .call [6, 33, 5] [], .call [3] [],
    .call [18, 0, 2000000, 10] [], .key 0x1C, .key 0x1E]

end Xeros.Analysis
