import Xeros.Refinement.Requests

/-!
# What the keyboard driver does

A character, or the end of file, goes to every registered task: `KbdTask.receive` is what becomes
of a task, `KbdTask.ends` says whether its read is over, and `Pcb.released` is what becomes of the
process then.  Nothing is asked of the queues.
-/

set_option autoImplicit false

namespace Xeros.Model

open Xeros.Foundations Xeros.Abstract

/-- The read of a task is over after the character `c`, or after the end of file. -/
def KbdTask.ends (t : KbdTask) (c : Option UInt8) : Bool :=
  t.waitingOnRead &&
    match c with
    | none => true
    | some c => decide (wrapInt (t.i + 1) = t.buflen ∨ c = newline)

/-- A task after the character `c`, or after the end of file. -/
def KbdTask.receive (t : KbdTask) (c : Option UInt8) : KbdTask :=
  if t.waitingOnRead then
    match c with
    | none => { t with waitingOnRead := false }
    | some _ => { t with i := wrapInt (t.i + 1), waitingOnRead := !t.ends c }
  else t

theorem KbdTask.receive_pcb (t : KbdTask) (c : Option UInt8) : (t.receive c).pcb = t.pcb := by
  unfold receive
  split_ifs
  · cases c <;> rfl
  · rfl

/-- Memory after the task received `c`. -/
def KbdTask.write (t : KbdTask) (c : Option UInt8) (m : Memory) : Memory :=
  if t.waitingOnRead then
    match c with
    | none => m
    | some c => store8 m (toWord (t.buf + t.i)) c
  else m

/-- A process whose read is over with `r` bytes. -/
def Pcb.released (x : Pcb) (r : ℤ) : Pcb :=
  if x.currState = .blocked then
    { x with ret := r, currState := .ready, blockingQueueName := .noBlocker }
  else { x with ret := r }

theorem Pcb.sameData_released (x : Pcb) (r : ℤ) : x.SameData (x.released r) := by
  unfold released
  split_ifs <;> rfl

/-- The driver after the task at `i` received `c`. -/
def Keyboard.deliver (k : Keyboard) (c : Option UInt8) (i : Fin kbdTaskListSize) : Keyboard :=
  { k with
    gKbdTaskList := Function.update k.gKbdTaskList i ((k.gKbdTaskList i).receive c)
    gKbdTaskRefcount :=
      if (k.gKbdTaskList i).ends c then wrapInt (k.gKbdTaskRefcount - 1) else k.gKbdTaskRefcount }

namespace KernelOf

variable {Q : Type} {s s' s'' : KernelOf Q} {p : PcbPtr}

/-- One task receives `c`. -/
structure Delivered (c : Option UInt8) (i : Fin kbdTaskListSize) (s s' : KernelOf Q) : Prop where
  image : s'.image = s.image
  gFreeList : s'.gFreeList = s.gFreeList
  gDeviceTable : s'.gDeviceTable = s.gDeviceTable
  currproc : s'.currproc = s.currproc
  mem : s'.mem = (s.kbd.gKbdTaskList i).write c s.mem
  kbd : s'.kbd = s.kbd.deliver c i
  finished : ∀ p, (s.kbd.gKbdTaskList i).ends c = true → (s.kbd.gKbdTaskList i).pcb = some p →
    s'.pcb p = (s.pcb p).released ((s.kbd.gKbdTaskList i).receive c).i
  other : ∀ p, ((s.kbd.gKbdTaskList i).ends c = true → (s.kbd.gKbdTaskList i).pcb ≠ some p) →
    s'.pcb p = s.pcb p

/-- No process has two tasks. -/
def TasksOwned (s : KernelOf Q) : Prop :=
  ∀ i j p, (s.kbd.gKbdTaskList i).pcb = some p → (s.kbd.gKbdTaskList j).pcb = some p → i = j

/-- The tasks of `l` receive `c`. -/
structure Broadcast (c : Option UInt8) (l : List (Fin kbdTaskListSize)) (s s' : KernelOf Q) :
    Prop where
  image : s'.image = s.image
  gFreeList : s'.gFreeList = s.gFreeList
  gDeviceTable : s'.gDeviceTable = s.gDeviceTable
  currproc : s'.currproc = s.currproc
  mem : s'.mem = l.foldl (fun m i => (s.kbd.gKbdTaskList i).write c m) s.mem
  tasks : ∀ i, s'.kbd.gKbdTaskList i =
    if i ∈ l then (s.kbd.gKbdTaskList i).receive c else s.kbd.gKbdTaskList i
  refcount : s'.kbd.gKbdTaskRefcount = (fun n => wrapInt (n - 1))^[(l.filter fun i =>
    (s.kbd.gKbdTaskList i).ends c).length] s.kbd.gKbdTaskRefcount
  rest : s'.kbd = { s.kbd with
    gKbdTaskList := s'.kbd.gKbdTaskList
    gKbdTaskRefcount := s'.kbd.gKbdTaskRefcount }
  finished : ∀ p, ∀ i ∈ l, (s.kbd.gKbdTaskList i).ends c = true →
    (s.kbd.gKbdTaskList i).pcb = some p →
    s'.pcb p = (s.pcb p).released ((s.kbd.gKbdTaskList i).receive c).i
  other : ∀ p, (∀ i ∈ l, (s.kbd.gKbdTaskList i).ends c = true →
    (s.kbd.gKbdTaskList i).pcb ≠ some p) → s'.pcb p = s.pcb p

variable [ProcLists Q]

/-- The read of the task at `i` is over. -/
theorem keyboardUnblockProc_eq {i : Fin kbdTaskListSize} (h : s.keyboardUnblockProc i = some s') :
    ∃ p k, (s.kbd.gKbdTaskList i).pcb = some p ∧
      s' = ((s.setQueues k).setKbd { s.kbd with
        gKbdTaskRefcount := wrapInt (s.kbd.gKbdTaskRefcount - 1)
        gKbdTaskList := Function.update s.kbd.gKbdTaskList i
          { s.kbd.gKbdTaskList i with waitingOnRead := false } }).setPcb p fun x =>
        x.released (s.kbd.gKbdTaskList i).i := by
  unfold keyboardUnblockProc at h
  dsimp only at h
  obtain ⟨p, hp, h⟩ := Option.bind_eq_some_iff.mp h
  obtain ⟨u, hu⟩ : ∃ u : KernelOf Q, u = s.setKbd { s.kbd with
      gKbdTaskRefcount := wrapInt (s.kbd.gKbdTaskRefcount - 1)
      gKbdTaskList := Function.update s.kbd.gKbdTaskList i
        { s.kbd.gKbdTaskList i with waitingOnRead := false } } := ⟨_, rfl⟩
  have hu' : (s.setKbd { s.kbd with
      gKbdTaskRefcount := wrapInt (s.kbd.gKbdTaskRefcount - 1) }).setKbd
      ((s.setKbd { s.kbd with
        gKbdTaskRefcount := wrapInt (s.kbd.gKbdTaskRefcount - 1) }).kbd.setTask i
          fun t => { t with waitingOnRead := false }) = u := hu.symm
  rw [hu'] at hp h
  have htask : u.kbd.gKbdTaskList i = { s.kbd.gKbdTaskList i with waitingOnRead := false } := by
    rw [hu]
    exact Function.update_self _ _ _
  rw [htask] at hp h
  have hpcb : u.pcb = s.pcb := by rw [hu]; rfl
  have hstate : ((u.setPcb p fun x => { x with ret := (s.kbd.gKbdTaskList i).i }).pcb p).currState =
      (s.pcb p).currState := by
    rw [setPcb_toCore, Core.setPcb_pcb_self, hpcb]
  rw [hstate] at h
  split_ifs at h with hb
  · obtain ⟨v, hv, h⟩ := Option.bind_eq_some_iff.mp h
    obtain ⟨-, k, rfl⟩ := addPcbToQueue_eq hv
    obtain rfl := Option.some.inj h
    refine ⟨p, k, hp, ?_⟩
    have hset : ((u.setPcb p fun x => { x with ret := (s.kbd.gKbdTaskList i).i }).setQueues k) =
      (u.setQueues k).setPcb p fun x => { x with ret := (s.kbd.gKbdTaskList i).i } := rfl
    rw [hset, setPcb_setPcb, setPcb_setPcb, hu]
    refine setPcb_congr ?_
    have hb' : (s.pcb p).currState = .blocked := hb
    unfold Pcb.released
    rw [if_pos]
    exact hb'
  · obtain rfl := Option.some.inj h
    refine ⟨p, s.queues, hp, ?_⟩
    rw [hu]
    refine setPcb_congr ?_
    unfold Pcb.released
    rw [if_neg]
    exact hb

/-- What is left to say once the driver's variables are known. -/
theorem delivered_of_unblock {c : Option UInt8} {i : Fin kbdTaskListSize} {u : KernelOf Q}
    (hheap : u.image = s.image ∧ u.gFreeList = s.gFreeList)
    (hrest : u.gDeviceTable = s.gDeviceTable ∧ u.currproc = s.currproc ∧ u.pcb = s.pcb)
    (hmem : u.mem = (s.kbd.gKbdTaskList i).write c s.mem)
    (hends : (s.kbd.gKbdTaskList i).ends c = true)
    (htask : (u.kbd.gKbdTaskList i).pcb = (s.kbd.gKbdTaskList i).pcb ∧
      (u.kbd.gKbdTaskList i).i = ((s.kbd.gKbdTaskList i).receive c).i)
    (hkbd : ({ u.kbd with
        gKbdTaskRefcount := wrapInt (u.kbd.gKbdTaskRefcount - 1)
        gKbdTaskList := Function.update u.kbd.gKbdTaskList i
          { u.kbd.gKbdTaskList i with waitingOnRead := false } } : Keyboard) = s.kbd.deliver c i)
    (h : u.keyboardUnblockProc i = some s') : Delivered c i s s' := by
  obtain ⟨p, k, hp, rfl⟩ := keyboardUnblockProc_eq h
  rw [htask.1] at hp
  rw [htask.2, hkbd]
  refine ⟨hheap.1, hheap.2, hrest.1, hrest.2.1, hmem, rfl, fun q _ hq => ?_, fun q hq => ?_⟩
  · rw [hp] at hq
    obtain rfl := Option.some.inj hq
    rw [setPcb_toCore, Core.setPcb_pcb_self]
    show (u.pcb p).released _ = _
    rw [hrest.2.2]
  · have hne : q ≠ p := by
      rintro rfl
      exact hq hends hp
    rw [setPcb_toCore, Core.setPcb_pcb_ne _ _ hne]
    show u.pcb q = _
    rw [hrest.2.2]

theorem handleEofRound_delivered {i : Fin kbdTaskListSize} (h : s.handleEofRound i = some s') :
    Delivered none i s s' := by
  unfold handleEofRound at h
  split_ifs at h with hw
  · have hends : (s.kbd.gKbdTaskList i).ends none = true := by
      unfold KbdTask.ends
      rw [hw]
      rfl
    have hrec : (s.kbd.gKbdTaskList i).receive none =
        { s.kbd.gKbdTaskList i with waitingOnRead := false } := by
      unfold KbdTask.receive
      rw [if_pos hw]
    refine delivered_of_unblock ⟨rfl, rfl⟩ ⟨rfl, rfl, rfl⟩ ?_ hends ⟨rfl, ?_⟩ ?_ h
    · unfold KbdTask.write
      rw [if_pos hw]
    · rw [hrec]
    · unfold Keyboard.deliver
      rw [hrec, hends]
      rfl
  · obtain rfl := Option.some.inj h
    have hends : (s.kbd.gKbdTaskList i).ends none = false := by
      unfold KbdTask.ends
      rw [Bool.eq_false_iff.mpr hw]
      rfl
    have hrec : (s.kbd.gKbdTaskList i).receive none = s.kbd.gKbdTaskList i := if_neg hw
    refine ⟨rfl, rfl, rfl, rfl, (if_neg hw).symm, ?_, fun q he => ?_, fun q _ => rfl⟩
    · unfold Keyboard.deliver
      rw [hrec, hends, Function.update_eq_self]
      rfl
    · rw [hends] at he
      exact absurd he (by simp)

theorem processCharRound_delivered {c : UInt8} {i : Fin kbdTaskListSize}
    (h : s.processCharRound c i = some s') : Delivered (some c) i s s' := by
  unfold processCharRound at h
  dsimp only at h
  by_cases hw : (s.kbd.gKbdTaskList i).waitingOnRead
  · rw [if_pos hw] at h
    obtain ⟨u, hu⟩ : ∃ u : KernelOf Q, u = (s.setMem (store8 s.mem
        (toWord ((s.kbd.gKbdTaskList i).buf + (s.kbd.gKbdTaskList i).i)) c)).setKbd
        (s.kbd.setTask i fun t => { t with i := wrapInt (t.i + 1) }) := ⟨_, rfl⟩
    have htask : u.kbd.gKbdTaskList i =
        { s.kbd.gKbdTaskList i with i := wrapInt ((s.kbd.gKbdTaskList i).i + 1) } := by
      rw [hu]
      exact Function.update_self _ _ _
    have hsame : u.image = s.image ∧ u.gFreeList = s.gFreeList ∧
        u.gDeviceTable = s.gDeviceTable ∧ u.currproc = s.currproc ∧ u.pcb = s.pcb := by
      rw [hu]
      exact ⟨rfl, rfl, rfl, rfl, rfl⟩
    obtain ⟨himage, hfree, htable, hcurr, hpcb⟩ := hsame
    have hmem : u.mem = (s.kbd.gKbdTaskList i).write (some c) s.mem := by
      unfold KbdTask.write
      rw [if_pos hw, hu]
      rfl
    have hends : (s.kbd.gKbdTaskList i).ends (some c) = decide
        (wrapInt ((s.kbd.gKbdTaskList i).i + 1) = (s.kbd.gKbdTaskList i).buflen ∨ c = newline) := by
      unfold KbdTask.ends
      rw [hw]
      rfl
    have hrec : (s.kbd.gKbdTaskList i).receive (some c) =
        { s.kbd.gKbdTaskList i with
          i := wrapInt ((s.kbd.gKbdTaskList i).i + 1)
          waitingOnRead := !(s.kbd.gKbdTaskList i).ends (some c) } := by
      unfold KbdTask.receive
      rw [if_pos hw]
    have hukbd : u.kbd = s.kbd.setTask i fun t => { t with i := wrapInt (t.i + 1) } := by rw [hu]; rfl
    have h' : (if (u.kbd.gKbdTaskList i).i = (u.kbd.gKbdTaskList i).buflen ∨ c = newline then
        u.keyboardUnblockProc i else some u) = some s' := by
      rw [hu]
      exact h
    rw [htask] at h'
    dsimp only at h'
    split_ifs at h' with hend
    · have hendsT : (s.kbd.gKbdTaskList i).ends (some c) = true := by
        rw [hends]
        exact decide_eq_true hend
      refine delivered_of_unblock ⟨himage, hfree⟩ ⟨htable, hcurr, hpcb⟩ hmem hendsT ?_ ?_ h'
      · rw [htask, hrec]
        exact ⟨rfl, rfl⟩
      · rw [htask, hukbd]
        unfold Keyboard.deliver Keyboard.setTask
        rw [hrec, hendsT]
        dsimp only
        rw [Function.update_idem]
        rfl
    · obtain rfl := Option.some.inj h'
      have hendsF : (s.kbd.gKbdTaskList i).ends (some c) = false := by
        rw [hends]
        exact decide_eq_false hend
      refine ⟨himage, hfree, htable, hcurr, hmem, ?_, fun q he => ?_, fun q _ => by rw [hpcb]⟩
      · rw [hukbd]
        unfold Keyboard.deliver Keyboard.setTask
        rw [hrec, hendsF]
        simp [hw]
      · rw [hendsF] at he
        exact absurd he (by simp)
  · rw [if_neg hw] at h
    obtain rfl := Option.some.inj h
    have hends : (s.kbd.gKbdTaskList i).ends (some c) = false := by
      unfold KbdTask.ends
      rw [Bool.eq_false_iff.mpr hw]
      rfl
    have hrec : (s.kbd.gKbdTaskList i).receive (some c) = s.kbd.gKbdTaskList i := if_neg hw
    refine ⟨rfl, rfl, rfl, rfl, (if_neg hw).symm, ?_, fun q he => ?_, fun q _ => rfl⟩
    · unfold Keyboard.deliver
      rw [hrec, hends, Function.update_eq_self]
      rfl
    · rw [hends] at he
      exact absurd he (by simp)

omit [ProcLists Q] in
/-- A loop over distinct tasks gives each of them what it has to give. -/
theorem broadcast_of_rounds {c : Option UInt8}
    {round : KernelOf Q → Fin kbdTaskListSize → Option (KernelOf Q)}
    (hround : ∀ {u u' : KernelOf Q} {i}, round u i = some u' → Delivered c i u u')
    {l : List (Fin kbdTaskListSize)} (hnd : l.Nodup) (hown : TasksOwned s)
    (h : l.foldlM round s = some s') : Broadcast c l s s' := by
  induction l generalizing s with
  | nil =>
    obtain rfl := Option.some.inj h
    exact ⟨rfl, rfl, rfl, rfl, rfl, fun i => by simp, rfl, rfl, by simp, fun _ _ => rfl⟩
  | cons i l ih =>
    obtain ⟨hi, hnd⟩ := List.nodup_cons.mp hnd
    rw [List.foldlM_cons] at h
    obtain ⟨u, hu, h⟩ := Option.bind_eq_some_iff.mp h
    have hd := hround hu
    have htask : ∀ j, u.kbd.gKbdTaskList j =
        if j = i then (s.kbd.gKbdTaskList i).receive c else s.kbd.gKbdTaskList j := by
      intro j
      rw [hd.kbd]
      unfold Keyboard.deliver
      simp only [Function.update_apply]
    have hpcb : ∀ j, (u.kbd.gKbdTaskList j).pcb = (s.kbd.gKbdTaskList j).pcb := by
      intro j
      rw [htask]
      split_ifs with hj
      · rw [hj, KbdTask.receive_pcb]
      · rfl
    have hne : ∀ j ∈ l, u.kbd.gKbdTaskList j = s.kbd.gKbdTaskList j := by
      intro j hj
      rw [htask, if_neg (ne_of_mem_of_not_mem hj hi)]
    have hb := ih (s := u) hnd (fun a b p ha hb => hown a b p (hpcb a ▸ ha) (hpcb b ▸ hb)) h
    refine ⟨hb.image.trans hd.image, hb.gFreeList.trans hd.gFreeList,
      hb.gDeviceTable.trans hd.gDeviceTable, hb.currproc.trans hd.currproc, ?_, fun j => ?_, ?_, ?_,
      fun p j hj he hp => ?_, fun p hp => ?_⟩
    · rw [hb.mem, hd.mem, List.foldl_cons]
      exact List.foldl_ext _ _ _ fun m j hj => by rw [hne j hj]
    · rw [hb.tasks, htask]
      by_cases hji : j = i
      · rw [hji, if_neg hi, if_pos rfl, if_pos (by simp)]
      · simp [hji]
    · have hfilter : (l.filter fun j => (u.kbd.gKbdTaskList j).ends c) =
          l.filter fun j => (s.kbd.gKbdTaskList j).ends c :=
        List.filter_congr fun j hj => by rw [hne j hj]
      rw [hb.refcount, hfilter, hd.kbd, List.filter_cons]
      unfold Keyboard.deliver
      dsimp only
      split_ifs with he
      · rw [List.length_cons, Function.iterate_succ_apply]
      · rfl
    · rw [hb.rest, hd.kbd]
      rfl
    · rcases List.mem_cons.mp hj with rfl | hjl
      · rw [hb.other p fun k hk _ hkp => ?_]
        · exact hd.finished p he hp
        · rw [hpcb] at hkp
          exact hi (hown j k p hp hkp ▸ hk)
      · have hu1 : u.pcb p = s.pcb p := hd.other p fun _ hip => hi (hown i j p hip hp ▸ hjl)
        rw [← hu1, ← hne j hjl]
        refine hb.finished p j hjl ?_ ?_
        · rw [hne j hjl]
          exact he
        · rw [hne j hjl]
          exact hp
    · have hu1 : u.pcb p = s.pcb p := hd.other p (hp i (by simp))
      rw [← hu1]
      refine hb.other p fun j hj he => ?_
      rw [hne j hj] at he ⊢
      exact hp j (by simp [hj]) he

/-- The kernel state when the end of file is noticed. -/
def atEof (s : KernelOf Q) : KernelOf Q :=
  s.setKbd { s.kbd with irqEnabled := false, gKbdDone := true }

theorem keyboardHandleEof_broadcast (hown : TasksOwned s) (h : s.keyboardHandleEof = some s') :
    Broadcast none (List.finRange kbdTaskListSize) s.atEof s' :=
  broadcast_of_rounds handleEofRound_delivered (List.nodup_finRange _) hown h

end KernelOf

end Xeros.Model
