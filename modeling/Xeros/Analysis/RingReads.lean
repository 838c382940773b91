import Xeros.Analysis.RingCharacters

/-!
# Reading from the ring

A read first takes the characters of the ring, as far as it goes.  `Taking` is a read that is still
registered after `m` characters of the ring; `TakingEnds` lists the ways in which it is over.
-/

set_option autoImplicit false

namespace Xeros.Analysis

open Xeros.Foundations Xeros.Model Xeros.Abstract KernelOf

/-- A character that is neither the end of file nor a newline. -/
def Plain (k : Keyboard) (c : UInt8) : Prop := c ≠ k.gKeyboardEof ∧ c ≠ newline

/-- From `k` on, the read of the task `t` has taken `m` characters of the ring, and goes on. -/
structure Taking (k : Keyboard) (t : Fin kbdTaskListSize) (buflen : ℤ) (m : ℕ) (k' : Keyboard) :
    Prop where
  ring : ringContents k' = (ringContents k).drop m
  taken : m ≤ (ringContents k).length
  waiting : (k'.gKbdTaskList t).waitingOnRead = true
  index : (k'.gKbdTaskList t).i = m
  len : (k'.gKbdTaskList t).buflen = buflen
  short : (m : ℤ) < buflen
  plain : ∀ c ∈ (ringContents k).take m, Plain k c
  done : k'.gKbdDone = k.gKbdDone
  eof : k'.gKeyboardEof = k.gKeyboardEof

/-- From `k` on, the read of the task `t` is over: the buffer was full, the end of file was noticed,
or a newline came before. -/
inductive TakingEnds (k : Keyboard) (t : Fin kbdTaskListSize) (buflen : ℤ) (k' : Keyboard) :
    Prop where
  | full (h : (k'.gKbdTaskList t).i = buflen)
  | eof (h : k'.gKbdDone = true)
  | newline (m : ℕ) (hm : (ringContents k)[m]? = some newline) (hshort : (m : ℤ) + 1 < buflen)
      (hplain : ∀ c ∈ (ringContents k).take m, Plain k c) (heof : newline ≠ k.gKeyboardEof)
      (hdone : k.gKbdDone = true → k'.gKbdDone = true)

section Flushing

variable {k k' : Keyboard} {t : Fin kbdTaskListSize} {buflen : ℤ} {m : ℕ} {s u v : Kernel}

/-- The next character of the ring is the one at its tail. -/
theorem ringContents_advance (hb : InBounds k)
    (hne : k.gKeyboardBufferTail ≠ k.gKeyboardBufferHead) :
    ringContents k = k.gKeyboardBuffer k.gKeyboardBufferTail :: ringContents k.advance := by
  have hh : k.gKeyboardBufferHead < 5 := hb.head
  have ht : k.gKeyboardBufferTail < 5 := hb.tail
  have hcount : ringCount k = ringCount k.advance + 1 := by
    show (k.gKeyboardBufferHead + 5 - k.gKeyboardBufferTail) % 5 =
      (k.gKeyboardBufferHead + 5 - (k.gKeyboardBufferTail + 1) % 5) % 5 + 1
    omega
  have hfirst : (k.gKeyboardBufferTail + 0) % keyboardBufferSize = k.gKeyboardBufferTail :=
    Nat.mod_eq_of_lt ht
  unfold ringContents
  rw [hcount, List.range_succ_eq_map, List.map_cons, hfirst, List.map_map]
  congr 1
  apply List.map_congr_left
  intro j _
  show k.gKeyboardBuffer ((k.gKeyboardBufferTail + (j + 1)) % 5) =
    k.gKeyboardBuffer (((k.gKeyboardBufferTail + 1) % 5 + j) % 5)
  congr 1
  omega

/-- The ring is empty when the indices meet. -/
theorem ringContents_empty (hb : InBounds k)
    (heq : k.gKeyboardBufferTail = k.gKeyboardBufferHead) : ringContents k = [] := by
  have hh : k.gKeyboardBufferHead < 5 := hb.head
  have hcount : ringCount k = 0 := by
    unfold ringCount
    rw [heq]
    show (k.gKeyboardBufferHead + 5 - k.gKeyboardBufferHead) % 5 = 0
    omega
  exact List.length_eq_zero_iff.mp ((ringContents_length k).trans hcount)

/-- What a character changes besides tasks and their number. -/
theorem charStep_driver {c : UInt8} (h : CharStep s c u) :
    u.kbd.gKeyboardEof = s.kbd.gKeyboardEof ∧ ringContents u.kbd = ringContents s.kbd ∧
      u.kbd.gKbdDone = (s.kbd.gKbdDone || decide (c = s.kbd.gKeyboardEof)) := by
  cases h with
  | eof hc hb =>
    rw [hb.kbd, decide_eq_true hc, Bool.or_true]
    exact ⟨rfl, rfl, rfl⟩
  | char hc hb =>
    rw [hb.kbd, decide_eq_false hc, Bool.or_false]
    exact ⟨rfl, rfl, rfl⟩

/-- A task that is not registered is left alone. -/
theorem TakingEnds.charStep {c : UInt8} (h : TakingEnds k t buflen s.kbd)
    (hoff : (s.kbd.gKbdTaskList t).waitingOnRead = false) (hc : CharStep s c u) :
    TakingEnds k t buflen u.kbd ∧ (u.kbd.gKbdTaskList t).waitingOnRead = false := by
  obtain ⟨-, -, hdone⟩ := charStep_driver hc
  have htask : u.kbd.gKbdTaskList t = s.kbd.gKbdTaskList t := by
    rw [KernelOf.CharStep.tasks hc, KbdTask.receive_of_not_waiting hoff]
  have hkeep : s.kbd.gKbdDone = true → u.kbd.gKbdDone = true := by
    intro hd
    rw [hdone, hd, Bool.true_or]
  rw [htask]
  refine ⟨?_, hoff⟩
  cases h with
  | full h => exact .full (by rw [htask]; exact h)
  | eof h => exact .eof (hkeep h)
  | newline m hm hshort hplain heof hd =>
    exact .newline m hm hshort hplain heof fun hk => hkeep (hd hk)

/-- A read that goes on takes the next character, or is over after it. -/
theorem Taking.charStep {c : UInt8} {l : List UInt8} (h : Taking k t buflen m s.kbd)
    (hring : ringContents s.kbd = c :: l) (hlen : buflen < kernelStack) (hc : CharStep s c u)
    (hnext : ringContents u.kbd.advance = l) :
    Taking k t buflen (m + 1) u.kbd.advance ∨
      TakingEnds k t buflen u.kbd.advance ∧ (u.kbd.gKbdTaskList t).waitingOnRead = false := by
  obtain ⟨heof, -, hdone⟩ := charStep_driver hc
  have hsize : kernelStack = 16384 := rfl
  have hshort := h.short
  have hdrop : (ringContents k).drop m = c :: l := h.ring.symm.trans hring
  have hget : (ringContents k)[m]? = some c := by
    rw [← List.head?_drop, hdrop]
    rfl
  have hlt : m < (ringContents k).length := (List.getElem?_eq_some_iff.mp hget).1
  have htask := KernelOf.CharStep.tasks hc t
  by_cases hce : c = s.kbd.gKeyboardEof
  · right
    have hrec : (s.kbd.gKbdTaskList t).receive none =
        { s.kbd.gKbdTaskList t with waitingOnRead := false } := if_pos h.waiting
    have hnone : s.charOf c = none := if_pos hce
    rw [hnone, hrec] at htask
    refine ⟨.eof ?_, ?_⟩
    · show u.kbd.gKbdDone = true
      rw [hdone, decide_eq_true hce, Bool.or_true]
    · rw [htask]
  · have hsome : s.charOf c = some c := if_neg hce
    have hrec : (s.kbd.gKbdTaskList t).receive (some c) =
        { s.kbd.gKbdTaskList t with
          i := wrapInt ((s.kbd.gKbdTaskList t).i + 1)
          waitingOnRead := !(s.kbd.gKbdTaskList t).ends (some c) } := if_pos h.waiting
    have hwrap : wrapInt ((s.kbd.gKbdTaskList t).i + 1) = (m : ℤ) + 1 := by
      rw [h.index]
      exact wrapInt_of_range (by omega) (by omega)
    have hends : (s.kbd.gKbdTaskList t).ends (some c) =
        decide ((m : ℤ) + 1 = buflen ∨ c = newline) := by
      unfold KbdTask.ends
      rw [h.waiting, Bool.true_and, hwrap, h.len]
    have hsame : u.kbd.gKbdDone = k.gKbdDone := by
      rw [hdone, decide_eq_false hce, Bool.or_false, h.done]
    rw [hsome, hrec, hwrap, hends] at htask
    by_cases hfull : (m : ℤ) + 1 = buflen
    · right
      refine ⟨.full ?_, ?_⟩
      · show (u.kbd.gKbdTaskList t).i = buflen
        rw [htask]
        exact hfull
      · rw [htask, decide_eq_true (.inl hfull)]
        rfl
    · have heofk : c ≠ k.gKeyboardEof := by
        rw [← h.eof]
        exact hce
      by_cases hnl : c = newline
      · right
        refine ⟨.newline m (hnl ▸ hget) (by omega) h.plain (hnl ▸ heofk) fun hk => ?_, ?_⟩
        · show u.kbd.gKbdDone = true
          rw [hsame, hk]
        · rw [htask, decide_eq_true (.inr hnl)]
          rfl
      · left
        have hgo : ¬ ((m : ℤ) + 1 = buflen ∨ c = newline) := not_or.mpr ⟨hfull, hnl⟩
        refine ⟨?_, hlt, ?_, ?_, ?_, ?_, ?_, hsame, ?_⟩
        · rw [hnext, ← List.tail_drop, hdrop]
          rfl
        · show (u.kbd.gKbdTaskList t).waitingOnRead = true
          rw [htask, decide_eq_false hgo]
          rfl
        · show (u.kbd.gKbdTaskList t).i = _
          rw [htask]
          exact (Nat.cast_succ m).symm
        · show (u.kbd.gKbdTaskList t).buflen = buflen
          rw [htask]
          exact h.len
        · push_cast
          omega
        · intro d hd
          rw [List.take_add_one, hget] at hd
          rcases List.mem_append.mp hd with hd | hd
          · exact h.plain d hd
          · rw [List.mem_singleton.mp (show d ∈ [c] from hd)]
            exact ⟨heofk, hnl⟩
        · show u.kbd.gKeyboardEof = _
          rw [heof, h.eof]

/-- After some rounds of the loop that empties the ring, a read goes on or is over. -/
theorem taking_flushes (hb : InBounds s.kbd) (hlen : buflen < kernelStack)
    (h0 : Taking k t buflen 0 s.kbd) (h : Flushes s v) :
    (∃ m, Taking k t buflen m v.kbd) ∨
      TakingEnds k t buflen v.kbd ∧ (v.kbd.gKbdTaskList t).waitingOnRead = false := by
  induction h with
  | refl => exact .inl ⟨0, h0⟩
  | @tail a b hab hstep ih =>
    obtain ⟨-, hne, u, hu, rfl⟩ := hstep
    have hba : InBounds a.kbd :=
      kbdSteps_inv (fun _ _ => InBounds.step) (KernelOf.Flushes.kbdUses hab).kbdSteps hb
    have hbu : InBounds u.kbd := hba.step (KernelOf.CharStep.kbdUse hu).kbdStep
    rcases ih with ⟨m, hm⟩ | ⟨hends, hoff⟩
    · have hring := ringContents_advance hba hne
      obtain ⟨-, hsame, -⟩ := charStep_driver hu
      have hadvance : ringContents u.kbd.advance = ringContents a.kbd.advance := by
        have hhead : u.kbd.gKeyboardBufferTail = a.kbd.gKeyboardBufferTail ∧
            u.kbd.gKeyboardBufferHead = a.kbd.gKeyboardBufferHead := by
          cases hu with
          | eof _ h => rw [h.kbd]; exact ⟨rfl, rfl⟩
          | char _ h => rw [h.kbd]; exact ⟨rfl, rfl⟩
        have hu' := ringContents_advance hbu (by rw [hhead.1, hhead.2]; exact hne)
        rw [hsame, hring] at hu'
        exact (List.cons.inj hu').2.symm
      rcases hm.charStep hring hlen hu hadvance with hgo | hover
      · exact .inl ⟨m + 1, hgo⟩
      · exact .inr hover
    · obtain ⟨hends', hoff'⟩ := hends.charStep hoff hu
      refine .inr ⟨?_, hoff'⟩
      cases hends' with
      | full h => exact .full h
      | eof h => exact .eof h
      | newline m hm hshort hplain heof hd => exact .newline m hm hshort hplain heof hd

/-- A read that is just registered. -/
theorem taking_start {i : Fin pcbTableSize} (hs : Sane s) (buf : ℕ) (hlen : 1 ≤ buflen) :
    Taking s.kbd (taskOf i) buflen 0 (s.startRead (.table i) buf buflen).kbd := by
  have htask : (s.startRead (.table i) buf buflen).kbd.gKbdTaskList (taskOf i) =
      ⟨some (.table i), buf, buflen, 0, true⟩ := by
    show Function.update s.kbd.gKbdTaskList (taskIndex (s.pcb (.table i)).pid) _ (taskOf i) = _
    rw [hs.taskIndex i, Function.update_self]
  refine ⟨rfl, Nat.zero_le _, ?_, ?_, ?_, ?_, by simp, rfl, rfl⟩
  · rw [htask]
  · rw [htask]
    rfl
  · rw [htask]
  · push_cast
    omega

end Flushing

end Xeros.Analysis
