import Xeros.Analysis.OpenCounts
import Xeros.Analysis.ReadBounds

/-!
# End of file

The turn in which the end of file character is processed ends every read that is in progress, and
no read blocks any more until all users have closed the device and it is opened again.
-/

set_option autoImplicit false

namespace Xeros.Analysis

open Xeros.Foundations Xeros.Model Xeros.Abstract KernelOf

variable {s u v w s' : Kernel}

/-- The driver processes the character `c` in the kernel state `u`, in the turn that begins with the
handler of `req` in `s`: from the interrupt, or in the middle of the flush of a read. -/
inductive Processes (s : Kernel) (t : Trap) : SyscallRequest → Kernel → UInt8 → Prop where
  | key (hc : (s.scanned t.control t.data).1 ≠ 0) (hr : 0 < s.kbd.gKbdTaskRefcount) :
      Processes s t .keyboardInt
        (s.setKbd { s.kbd with gKeyboardKeystateFlag := (s.scanned t.control t.data).2 })
        (s.scanned t.control t.data).1
  | flush (u : Kernel) (hd : s.ReachesDriver)
      (hu : Rounds (s.startRead s.currproc (s.arg 1) (toInt (s.arg 2))) u)
      (hr : 0 < u.kbd.gKbdTaskRefcount)
      (hne : u.kbd.gKeyboardBufferTail ≠ u.kbd.gKeyboardBufferHead) :
      Processes s t .read u (u.kbd.gKeyboardBuffer u.kbd.gKeyboardBufferTail)

/-- The process `p` is blocked in a read, and `i` is its registered task. -/
structure InRead (u : Kernel) (p : PcbPtr) (i : Fin kbdTaskListSize) : Prop where
  reading : u.Reading p
  waiting : (u.kbd.gKbdTaskList i).waitingOnRead = true
  owner : (u.kbd.gKbdTaskList i).pcb = some p

/-- Every read in progress in `u` is over in `s'`, with the bytes stored so far. -/
structure ReadsEnded (u s' : Kernel) : Prop where
  woken : ∀ p i, InRead u p i →
    (s'.pcb p).currState = .ready ∧ (s'.pcb p).ret = (u.kbd.gKbdTaskList i).i
  unregistered : ∀ i, (s'.kbd.gKbdTaskList i).waitingOnRead = false

/-- The kernel after the first `k` rounds of `keyboard_handle_eof`. -/
def eofRounds (u : Kernel) (k : ℕ) : Option Kernel :=
  (allTasks.take k).foldlM handleEofRound u.atEof

/-- The process becomes ready in the round `k` of `keyboard_handle_eof`. -/
def WokenInRound (u : Kernel) (p : PcbPtr) (k : ℕ) : Prop :=
  k < kbdTaskListSize ∧ ∃ a b, eofRounds u k = some a ∧ eofRounds u (k + 1) = some b ∧
    (a.pcb p).currState ≠ .ready ∧ (b.pcb p).currState = .ready

/-- Step `k` opens the device while no process has it open. -/
def Reopens (r : Run Links) (k : ℕ) : Prop :=
  liveOpenFds (r.state k) = 0 ∧ ∃ flag, OpensAs r k flag

/-- A read that reaches the driver in step `m` does not block. -/
def ReadDoesNotBlock (r : Run Links) (m : ℕ) : Prop :=
  ∀ s ret u, (r.state m).atTrap (r.input m) = some s → (r.input m).request = some .read →
    s.ReachesDriver → s.kbdRead s.currproc (s.arg 1) (toInt (s.arg 2)) = some (ret, u) →
    ret ≠ blockerr

/-! ## Handling the end of file -/

theorem mem_take_allTasks {i : Fin kbdTaskListSize} {k : ℕ} : i ∈ allTasks.take k ↔ i.val < k := by
  rw [List.mem_take_iff_getElem]
  constructor
  · rintro ⟨j, hj, rfl⟩
    rw [List.getElem_finRange]
    exact lt_of_lt_of_le hj (min_le_left _ _)
  · intro h
    refine ⟨i.val, ?_, by rw [List.getElem_finRange]; rfl⟩
    rw [List.length_finRange]
    exact lt_min h i.isLt

/-- The loop up to some round, when all of it returns. -/
theorem eofRounds_broadcast (hown : TasksOwned u) (h : u.keyboardHandleEof = some v) (k : ℕ) :
    ∃ a, eofRounds u k = some a ∧ Broadcast none (allTasks.take k) u.atEof a := by
  have hsplit : (allTasks.take k ++ allTasks.drop k).foldlM handleEofRound u.atEof = some v := by
    rw [List.take_append_drop]
    exact h
  rw [List.foldlM_append] at hsplit
  obtain ⟨a, ha, -⟩ := Option.bind_eq_some_iff.mp hsplit
  have hnd : (allTasks.take k).Nodup := (List.nodup_finRange _).sublist (List.take_sublist k _)
  exact ⟨a, ha, broadcast_of_rounds handleEofRound_delivered hnd hown ha⟩

theorem ends_eof {i : Fin kbdTaskListSize} (hw : (u.kbd.gKbdTaskList i).waitingOnRead = true) :
    (u.kbd.gKbdTaskList i).ends none = true := by
  unfold KbdTask.ends
  rw [hw]
  rfl

/-- A process in a read is released in the round of its task, and not before. -/
theorem inRead_eofRounds (hown : TasksOwned u) {p : PcbPtr} {i : Fin kbdTaskListSize}
    (hp : InRead u p i) {k : ℕ} {a : Kernel} (ha : Broadcast none (allTasks.take k) u.atEof a) :
    a.pcb p = if i.val < k then (u.pcb p).released (u.kbd.gKbdTaskList i).i else u.pcb p := by
  have hends := ends_eof hp.waiting
  have hrec : ((u.kbd.gKbdTaskList i).receive none).i = (u.kbd.gKbdTaskList i).i := by
    unfold KbdTask.receive
    rw [if_pos hp.waiting]
  split_ifs with hik
  · rw [← hrec]
    exact ha.finished p i (mem_take_allTasks.mpr hik) hends hp.owner
  · apply ha.other
    intro j hj _ hjp
    rw [hown j i p hjp hp.owner] at hj
    exact hik (mem_take_allTasks.mp hj)

theorem wokenInRound (hown : TasksOwned u) {p : PcbPtr} {i : Fin kbdTaskListSize}
    (hp : InRead u p i) (h : u.keyboardHandleEof = some v) : ∃! k, WokenInRound u p k := by
  have hready : ((u.pcb p).released (u.kbd.gKbdTaskList i).i).currState = .ready := by
    unfold Pcb.released
    rw [if_pos hp.reading.1]
  have hblocked : (u.pcb p).currState ≠ .ready := by
    rw [hp.reading.1]
    simp
  refine ⟨i.val, ⟨i.isLt, ?_⟩, ?_⟩
  · obtain ⟨a, ha, hba⟩ := eofRounds_broadcast hown h i.val
    obtain ⟨b, hb, hbb⟩ := eofRounds_broadcast hown h (i.val + 1)
    refine ⟨a, b, ha, hb, ?_, ?_⟩
    · rw [inRead_eofRounds hown hp hba, if_neg (lt_irrefl _)]
      exact hblocked
    · rw [inRead_eofRounds hown hp hbb, if_pos (Nat.lt_succ_self _)]
      exact hready
  · rintro k ⟨-, a, b, ha, hb, hna, hrb⟩
    obtain ⟨a', ha', hba⟩ := eofRounds_broadcast hown h k
    obtain rfl : a = a' := Option.some.inj (ha.symm.trans ha')
    obtain ⟨b', hb', hbb⟩ := eofRounds_broadcast hown h (k + 1)
    obtain rfl : b = b' := Option.some.inj (hb.symm.trans hb')
    have hle : ¬ i.val < k := by
      intro hik
      rw [inRead_eofRounds hown hp hba, if_pos hik] at hna
      exact hna hready
    have hlt : i.val < k + 1 := by
      by_contra hik
      rw [inRead_eofRounds hown hp hbb, if_neg hik] at hrb
      exact hblocked hrb
    omega

theorem readsEnded (hown : TasksOwned u) (h : u.keyboardHandleEof = some v) : ReadsEnded u v := by
  have hb := keyboardHandleEof_broadcast hown h
  constructor
  · intro p i hp
    have hall : Broadcast none (allTasks.take kbdTaskListSize) u.atEof v := by
      rw [List.take_of_length_le (by rw [List.length_finRange])]
      exact hb
    rw [inRead_eofRounds hown hp hall, if_pos i.isLt]
    unfold Pcb.released
    rw [if_pos hp.reading.1]
    exact ⟨rfl, rfl⟩
  · intro i
    rw [hb.kbd]
    show ((u.kbd.gKbdTaskList i).receive none).waitingOnRead = false
    rw [KbdTask.receive_waiting]
    cases hw : (u.kbd.gKbdTaskList i).waitingOnRead with
    | false => rfl
    | true =>
      rw [ends_eof hw]
      rfl

/-! ## The rest of the turn -/

/-- Characters reach nobody when nobody is registered. -/
theorem charStep_unregistered {c : UInt8}
    (hnone : ∀ i, (s.kbd.gKbdTaskList i).waitingOnRead = false) (h : CharStep s c s') :
    s'.pcb = s.pcb ∧ s'.kbd.gKbdTaskList = s.kbd.gKbdTaskList := by
  have hb := h.broadcast
  have htask : (s.setKbd (Keyboard.noticed s.kbd c)).kbd.gKbdTaskList = s.kbd.gKbdTaskList :=
    (noticed_tasks s.kbd c).1
  constructor
  · funext p
    apply hb.other
    intro i _ he
    have hw := KbdTask.ends_waiting he
    rw [htask, hnone i] at hw
    exact absurd hw (by simp)
  · rw [hb.kbd]
    funext i
    show ((s.setKbd (Keyboard.noticed s.kbd c)).kbd.gKbdTaskList i).receive _ = _
    rw [htask, KbdTask.receive_of_not_waiting (hnone i)]

theorem flushes_unregistered (hnone : ∀ i, (s.kbd.gKbdTaskList i).waitingOnRead = false)
    (h : Flushes s s') : s'.pcb = s.pcb ∧ s'.kbd.gKbdTaskList = s.kbd.gKbdTaskList := by
  induction h with
  | refl => exact ⟨rfl, rfl⟩
  | @tail a b _ hstep ih =>
    obtain ⟨hpcb, htask⟩ := ih
    obtain ⟨-, -, v, hv, rfl⟩ := hstep
    obtain ⟨hpcb', htask'⟩ := charStep_unregistered (fun i => by rw [htask]; exact hnone i) hv
    exact ⟨hpcb'.trans hpcb, htask'.trans htask⟩

/-- A read that returned went through every round of its flush. -/
theorem kbdRead_round {p : PcbPtr} {buf : ℕ} {buflen ret : ℤ}
    (hown : TasksOwned (s.startRead p buf buflen)) (h : s.kbdRead p buf buflen = some (ret, w))
    (hu : Rounds (s.startRead p buf buflen) u) (hr : 0 < u.kbd.gKbdTaskRefcount)
    (hne : u.kbd.gKeyboardBufferTail ≠ u.kbd.gKeyboardBufferHead) :
    ∃ v, u.keyboardProcessChar (u.kbd.gKeyboardBuffer u.kbd.gKeyboardBufferTail) = some v ∧
      Flushes (v.setKbd v.kbd.advance) w := by
  obtain ⟨hflush, -⟩ := kbdRead_eq h
  obtain ⟨m, hm⟩ := loop_after_rounds hu hflush
  have hownu := (hu.flushes hown).2
  have hround := flushRound_again hr hne
  cases m with
  | zero => simp [loop] at hm
  | succ m =>
    cases hv : u.keyboardProcessChar (u.kbd.gKeyboardBuffer u.kbd.gKeyboardBufferTail) with
    | none =>
      rw [hv] at hround
      simp [loop, hround] at hm
    | some v =>
      rw [hv] at hround
      rw [loop_succ_again m hround] at hm
      have hownv := (keyboardProcessChar_step hownu hv).tasksOwned hownu
      exact ⟨v, rfl, (flushLoop_flushes (s := v.setKbd v.kbd.advance) hownv hm).1⟩

/-! ## No read blocks afterwards -/

/-- The end of file stays noticed while the device is used. -/
theorem KbdUses.done {k k' : Keyboard} (h : KbdUses k k') (hdone : k.gKbdDone = true) :
    k'.gKbdDone = true := by
  apply kbdUses_inv ?_ h hdone
  intro k k' hk huse
  cases huse with
  | closed pid hpos =>
    rw [kbdClose_eq hpos]
    exact hk
  | ioctl e f => exact hk
  | keystate flag => exact hk
  | register i p buf buflen hlen => exact hk
  | eof => rfl
  | char c hc => exact hk
  | advance hne => exact hk
  | push c hr hroom => exact hk

/-- Only the first opener of the device forgets the end of file. -/
theorem done_kept (r : Run Links) {n : ℕ} (hn : n < r.len)
    (hdone : (r.state n).kbd.gKbdDone = true) (hno : ¬ Reopens r n) :
    (r.state (n + 1)).kbd.gKbdDone = true := by
  obtain ⟨s, req, hs, hreq, hsame, hsane, -, hdis, hdev⟩ := r.device hn
  rw [← hsame.kbd] at hdone
  rcases hdev.kbdUses hsane with huses | ⟨rfl, -⟩
  · exact KbdUses.done huses hdone
  · have hopen : s.dispatchSyscallOpen.map setRetOf = some (r.state (n + 1)) := hdis
    obtain ⟨⟨fd, s'⟩, hopen, hstate⟩ := Option.map_eq_some_iff.mp hopen
    rw [← hstate]
    show s'.kbd.gKbdDone = true
    cases diOpen_cases hopen with
    | refused => exact hdone
    | opened e fd k he hfd hk =>
      show k.gKbdDone = true
      rcases kbdOpen_cases hk with ⟨-, -, heq⟩ | ⟨hzero, -, -⟩
      · rw [heq]
        exact hdone
      · exfalso
        apply hno
        constructor
        · have hcount := (openAccounting_of_tidy (r.tidy hn.le)).count
          rw [hsame.kbd, hcount] at hzero
          omega
        · exact ⟨_, s, e, _, _, hs, hreq, he, rfl, hopen, by omega⟩

theorem done_until_reopened (r : Run Links) {n m : ℕ} (hdone : (r.state n).kbd.gKbdDone = true)
    (hnm : n ≤ m) (hm : m ≤ r.len) (hno : ∀ k, n ≤ k → k < m → ¬ Reopens r k) :
    (r.state m).kbd.gKbdDone = true := by
  induction m, hnm using Nat.le_induction with
  | base => exact hdone
  | succ m hnm ih =>
    apply done_kept r hm
    · exact ih (by omega) fun k hk hkm => hno k hk (by omega)
    · exact hno m hnm (by omega)

/-- A read does not block once the end of file is noticed. -/
theorem readResult_done {k : Keyboard} (hb : InBounds k) (hdone : k.gKbdDone = true)
    {i : Fin kbdTaskListSize} {buflen : ℤ} (hlen : 1 ≤ buflen) :
    readResult k i buflen ≠ blockerr := by
  have hneg : blockerr < 0 := by decide
  have hi := (hb.index i).1
  unfold readResult
  split_ifs <;> omega

/-- A read that ends with the end of file noticed does not block. -/
theorem kbdRead_done {i : Fin pcbTableSize} {buf : ℕ} {buflen ret : ℤ} (hs : Sane s)
    (hb : InBounds s.kbd) (hlen : 1 ≤ buflen ∧ buflen < kernelStack)
    (h : s.kbdRead (.table i) buf buflen = some (ret, w)) (hdone : w.kbd.gKbdDone = true) :
    ret ≠ blockerr := by
  obtain ⟨hf, -, hret⟩ := kbdRead_flushes (hs.startRead _ _).tasksOwned h
  rw [hret]
  apply readResult_done ?_ hdone hlen.1
  apply kbdSteps_inv (fun _ _ => InBounds.step) hf.kbdUses.kbdSteps
  exact hb.step (.register _ _ _ _ hlen)

/-! ## Runs -/

/-- What the turn that processes the end of file in `u` leads to. -/
structure EofTurn (u s' : Kernel) : Prop where
  handled : ∃ v, u.keyboardProcessChar u.kbd.gKeyboardEof = some v ∧ ReadsEnded u v
  once : ∀ p i, InRead u p i → ∃! k, WokenInRound u p k
  ended : ReadsEnded u s'

theorem handleEof_done (hown : TasksOwned u) (h : u.keyboardHandleEof = some v) :
    v.kbd.gKbdDone = true := by
  rw [(keyboardHandleEof_broadcast hown h).kbd]
  rfl

theorem processChar_eof : u.keyboardProcessChar u.kbd.gKeyboardEof = u.keyboardHandleEof := if_pos rfl

/-- The end of file reached from the interrupt. -/
theorem eof_key (hown : TasksOwned s) {control data : ℕ}
    (hc : (s.scanned control data).1 ≠ 0) (hr : 0 < s.kbd.gKbdTaskRefcount)
    (hu : u = s.setKbd { s.kbd with gKeyboardKeystateFlag := (s.scanned control data).2 })
    (heof : (s.scanned control data).1 = u.kbd.gKeyboardEof)
    (h : s.keyboardIsr control data = some s') : EofTurn u s' ∧ s'.kbd.gKbdDone = true := by
  rw [keyboardIsr_processes hc hr, ← hu, heof] at h
  have hownu : TasksOwned u := by
    rw [hu]
    exact hown
  have heofu := processChar_eof.symm.trans h
  have hended := readsEnded hownu heofu
  exact ⟨⟨⟨s', h, hended⟩, fun p i hp => wokenInRound hownu hp heofu, hended⟩,
    handleEof_done hownu heofu⟩

/-- The end of file reached in the flush of a read. -/
theorem eof_flush {i : Fin pcbTableSize} (hs : Sane s) (hi : s.currproc = .table i)
    (hb : InBounds s.kbd) (hd : s.ReachesDriver)
    (hu : Rounds (s.startRead s.currproc (s.arg 1) (toInt (s.arg 2))) u)
    (hr : 0 < u.kbd.gKbdTaskRefcount) (hne : u.kbd.gKeyboardBufferTail ≠ u.kbd.gKeyboardBufferHead)
    (heof : u.kbd.gKeyboardBuffer u.kbd.gKeyboardBufferTail = u.kbd.gKeyboardEof)
    (h : s.dispatchSyscallRead = some s') :
    EofTurn u s' ∧ s'.kbd.gKbdDone = true ∧ ∀ ret w,
      s.kbdRead s.currproc (s.arg 1) (toInt (s.arg 2)) = some (ret, w) → ret ≠ blockerr := by
  obtain ⟨ret, w, hread, -, hreturn⟩ := dispatchSyscallRead_driver hd h
  rw [hi] at hu hread
  have hsane := hs.startRead (i := i) (s.arg 1) (toInt (s.arg 2))
  obtain ⟨v, hv, hvw⟩ := kbdRead_round hsane.tasksOwned hread hu hr hne
  obtain ⟨hfu, hown⟩ := hu.flushes hsane.tasksOwned
  rw [heof] at hv
  have heofv : u.keyboardHandleEof = some v := processChar_eof.symm.trans hv
  have hended := readsEnded hown heofv
  have hdone : w.kbd.gKbdDone = true := 
    KbdUses.done (k := v.kbd.advance) hvw.kbdUses (handleEof_done hown heofv)
  have hret : ret ≠ blockerr := kbdRead_done hs hb (length_of_verified hd.verified) hread hdone
  obtain ⟨hpcb, htask⟩ := flushes_unregistered (s := v.setKbd v.kbd.advance) hended.unregistered hvw
  have hcur : w.currproc = u.currproc :=
    hvw.currproc.trans (keyboardProcessChar_step hown hv).broadcast.currproc
  rw [hreturn hret]
  refine ⟨⟨⟨v, hv, hended⟩, fun p i hp => wokenInRound hown hp heofv, ?_, fun j => ?_⟩, hdone,
    fun ret' w' hread' => ?_⟩
  · intro p j hp
    have hpne : p ≠ w.currproc := by
      rw [hcur]
      rintro rfl
      have hrun := (hsane.flushes hfu).running
      exact hrun.not_reading hp.reading
    obtain ⟨hstate, hbytes⟩ := hended.woken p j hp
    have hkept : w.pcb p = v.pcb p := congrFun hpcb p
    have hsame : (w.setRet ret).pcb p = v.pcb p := by
      rw [← hkept]
      exact Core.setPcb_pcb_ne w.toCore (fun x => { x with ret := ret }) hpne
    rw [hsame]
    exact ⟨hstate, hbytes⟩
  · show (w.kbd.gKbdTaskList j).waitingOnRead = false
    rw [htask]
    exact hended.unregistered j
  · rw [hi, hread] at hread'
    rw [← (Prod.mk.inj (Option.some.inj hread')).1]
    exact hret

section Runs

variable (r : Run Links) {n : ℕ} {req : SyscallRequest}

theorem readDoesNotBlock_of_done {m : ℕ} (hm : m < r.len)
    (hdone : (r.state m).kbd.gKbdDone = true) : ReadDoesNotBlock r m := by
  intro s ret w hs hreq hd hread
  obtain ⟨s', req, hs', hreq', hsame, hsane, hcur, -, -⟩ := r.device hm
  obtain rfl : s = s' := Option.some.inj (hs.symm.trans hs')
  obtain rfl : req = .read := Option.some.inj (hreq'.symm.trans hreq)
  cases hi : s.currproc with
  | idle => exact absurd hi (hcur rfl)
  | table i =>
    rw [hi] at hread
    have hb : InBounds s.kbd := by
      rw [hsame.kbd]
      exact r.kbd_inv inBounds_boot (fun _ _ => InBounds.step) hm.le
    have hlen := length_of_verified hd.verified
    apply kbdRead_done hsane hb hlen hread
    obtain ⟨hf, -⟩ := kbdRead_flushes (hsane.startRead _ _).tasksOwned hread
    apply KbdUses.done (.head (.register _ _ _ _ hlen) hf.kbdUses)
    rw [hsame.kbd]
    exact hdone

/-- In every run, the end of file ends all reads, and no read blocks until the device has been
closed by all and is opened again. -/
theorem end_of_file (hn : n < r.len) (hs : (r.state n).atTrap (r.input n) = some s)
    (hreq : (r.input n).request = some req)
    (hu : Processes s (r.input n) req u u.kbd.gKeyboardEof) :
    EofTurn u (r.state (n + 1)) ∧ ∀ m, n ≤ m → m < r.len →
      (∀ k, n < k → k < m → ¬ Reopens r k) → ReadDoesNotBlock r m := by
  obtain ⟨s', req', hs', hreq', hsame, hsane, hcur, hdis, -⟩ := r.device hn
  obtain rfl : s = s' := Option.some.inj (hs.symm.trans hs')
  obtain rfl : req' = req := Option.some.inj (hreq'.symm.trans hreq)
  have hb : InBounds s.kbd := by
    rw [hsame.kbd]
    exact r.kbd_inv inBounds_boot (fun _ _ => InBounds.step) hn.le
  have hturn : EofTurn u (r.state (n + 1)) ∧ (r.state (n + 1)).kbd.gKbdDone = true ∧
      ReadDoesNotBlock r n := by
    generalize hc : u.kbd.gKeyboardEof = c at hu
    cases hu with
    | key hc0 hr =>
      obtain ⟨hturn, hdone⟩ := eof_key hsane.tasksOwned hc0 hr rfl hc.symm hdis
      refine ⟨hturn, hdone, ?_⟩
      intro _ _ _ _ hread
      rw [hreq] at hread
      exact absurd (Option.some.inj hread) (by simp)
    | flush _ hd hu hr hne =>
      cases hi : s.currproc with
      | idle => exact absurd hi (hcur rfl)
      | table i =>
        obtain ⟨hturn, hdone, hret⟩ := eof_flush hsane hi hb hd hu hr hne hc.symm hdis
        refine ⟨hturn, hdone, fun s' ret w hs' _ _ hread => ?_⟩
        obtain rfl : s = s' := Option.some.inj (hs.symm.trans hs')
        exact hret ret w hread
  obtain ⟨hturn, hdone, hnow⟩ := hturn
  refine ⟨hturn, fun m hnm hm hno => ?_⟩
  rcases Nat.eq_or_lt_of_le hnm with rfl | hlt
  · exact hnow
  · apply readDoesNotBlock_of_done r hm
    exact done_until_reopened r hdone hlt hm.le hno

end Runs

/-- The root process opens the keyboard and reads; an `a` and the end of file are typed. -/
def eofScript : List Act :=
  [.call [15, 1] [], .call [18, 0, 2000000, 10] [], .key 0x1E, .key 0x1D, .key 0x20]

/-- The end of file wakes a reader that has one byte. -/
theorem end_of_file_typed : ∃ r : Run Links, r.len = 5 ∧
    ((r.state 4).pcb (.table 0)).currState = .blocked ∧
    ((r.state 5).pcb (.table 0)).currState = .ready ∧ ((r.state 5).pcb (.table 0)).ret = 1 := by
  obtain ⟨r, hlen, hcheck, hin, htest⟩ := exists_run (Q := Links) smallPc 40300
    (fun s t => ∀ u ∈ s.atTrap t, t.data = 0x20 → (u.scanned t.control t.data).1 ≠ 0 ∧
      0 < u.kbd.gKbdTaskRefcount ∧ u.kbd.gKeyboardEof = (u.scanned t.control t.data).1)
    eofScript (fun n s => match n with
      | 4 => decide (((s.pcb (.table 0)).currState = .blocked ∧
          (s.pcb (.table 0)).blockingQueueName = .device) ∧
          (s.kbd.gKbdTaskList 1).waitingOnRead = true ∧
          (s.kbd.gKbdTaskList 1).pcb = some (.table 0) ∧ (s.kbd.gKbdTaskList 1).i = 1)
      | _ => true) (by decide +kernel)
  obtain ⟨hread, hw, hp, hi⟩ := of_decide_eq_true (htest 4 (by decide))
  have hlen' : r.len = 5 := hlen
  obtain ⟨s, -, hs, -, hsame, -⟩ := r.device (n := 4) (by omega)
  have hkey : r.input 4 = (Act.key 0x20).trap (r.state 4) := hin 4 _ rfl
  have hreq : (r.input 4).request = some .keyboardInt := by
    rw [hkey]
    rfl
  have hdata : (r.input 4).data = 0x20 := by
    rw [hkey]
    rfl
  obtain ⟨hc, hr, heof⟩ := hcheck 4 (by omega) s hs hdata
  have hpressed : InRead s (.table 0) 1 := by
    refine ⟨(hsame.reading _).mpr hread, ?_, ?_⟩
    · rw [hsame.kbd]
      exact hw
    · rw [hsame.kbd]
      exact hp
  have hturn := (end_of_file r (n := 4) (by omega) hs hreq
    (u := s.setKbd { s.kbd with
      gKeyboardKeystateFlag := (s.scanned (r.input 4).control (r.input 4).data).2 })
    (heof ▸ .key hc hr)).1
  obtain ⟨hready, hret⟩ := hturn.ended.woken (.table 0) 1
    ⟨hpressed.reading, hpressed.waiting, hpressed.owner⟩
  rw [← hsame.kbd] at hi
  exact ⟨r, hlen', hread.1, hready, hret.trans hi⟩

end Xeros.Analysis
