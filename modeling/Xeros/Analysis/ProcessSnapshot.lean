import Xeros.Analysis.OpenCounts
import Xeros.Analysis.UserPointers

/-!
# The process snapshot

`get_all_proc_info` writes one row for the idle process and one for each live process of the table.
The arrays of `processStatuses` have as many elements as the table has slots, so that the row of the
idle process leaves room for all but one of them.
-/

set_option autoImplicit false

namespace Xeros.Analysis

open Xeros.Foundations Xeros.Model Xeros.Abstract KernelOf

/-- `detailed_states`, the table in which the shell looks up a status (user.c). -/
def detailedStates : List String :=
  ["READY", "STOPPED", "RUNNING", "BLOCKED: SENDING", "BLOCKED: RECEIVING", "BLOCKED: WAITING",
    "BLOCKED: RECEIVE ANY", "BLOCKED: SLEEPING", "BLOCKED: IO"]

/-- What a user should read of a process in the given state, blocked in the given way. -/
def stateLabel : ProcState → BlockingQueue → Option String
  | .ready, _ => "READY"
  | .stopped, _ => "STOPPED"
  | .running, _ => "RUNNING"
  | .blocked, .sender => "BLOCKED: SENDING"
  | .blocked, .receiver => "BLOCKED: RECEIVING"
  | .blocked, .waiting => "BLOCKED: WAITING"
  | .blocked, .receiveAny => "BLOCKED: RECEIVE ANY"
  | .blocked, .sleep => "BLOCKED: SLEEPING"
  | .blocked, .device => "BLOCKED: IO"
  | .blocked, .noBlocker => none

/-- The status that `fill_proc_info` reports. -/
def statusOf (x : Pcb) : ℤ :=
  x.currState.toInt + if x.currState = .blocked then x.blockingQueueName.toInt else 0

/-- The processes to report: the idle process, then the live ones in the order of the table. -/
def reported (c : Core) : List PcbPtr :=
  .idle :: ((List.finRange pcbTableSize).filter fun i =>
    (c.pcb (.table i)).currState ≠ .stopped).map .table

/-- The byte at `a` belongs to the element `k` of one of the arrays of the block at `ps`. -/
def InRow (ps k a : ℕ) : Prop :=
  ∃ j < 4, a % 4294967296 = (ps + 4 * k + j) % 4294967296 ∨
    a % 4294967296 = (ps + 128 + 4 * k + j) % 4294967296 ∨
    a % 4294967296 = (ps + 256 + 4 * k + j) % 4294967296

/-- The elements `k` of the arrays describe the process `x`. -/
structure Row (m : Memory) (ps k : ℕ) (x : Pcb) : Prop where
  pid : load32 m (ps + 4 * k) = toWord x.pid
  status : load32 m (ps + 128 + 4 * k) = toWord (statusOf x)
  cpuTime : load32 m (ps + 256 + 4 * k) = toWord (x.cpuTime * tickLengthInMs)

/-- The block at `ps` is filled up to the index `slot`, and nothing else is written. -/
structure Snapshot (s : Kernel) (ps slot : ℕ) (s' : Kernel) : Prop where
  memoryOnly : s' = s.setMem s'.mem
  inBounds : ∀ a, load8 s'.mem a ≠ load8 s.mem a → ∃ k < pcbTableSize, InRow ps k a
  filled : slot + 1 = (reported s.toCore).length
  rows : ∀ (k : ℕ) p, (reported s.toCore)[k]? = some p → Row s'.mem ps k (s.pcb p)
  decoded : ∀ i, (s.pcb (.table i)).currState ≠ .stopped →
    0 ≤ statusOf (s.pcb (.table i)) ∧ statusOf (s.pcb (.table i)) < detailedStates.length ∧
    detailedStates[(statusOf (s.pcb (.table i))).toNat]? =
      stateLabel (s.pcb (.table i)).currState (s.pcb (.table i)).blockingQueueName

/-! ## Status codes -/

/-- A process that is blocked somewhere has a status of the table. -/
theorem status_decoded {x : Pcb} (hx : x.currState = .blocked → x.blockingQueueName ≠ .noBlocker) :
    0 ≤ statusOf x ∧ statusOf x < detailedStates.length ∧
      detailedStates[(statusOf x).toNat]? = stateLabel x.currState x.blockingQueueName := by
  unfold statusOf
  cases hst : x.currState <;> cases hq : x.blockingQueueName
  case blocked.noBlocker => exact absurd hq (hx hst)
  all_goals decide

/-! ## Rows -/

/-- Memory after `fill_proc_info` for the process `x`. -/
def writeRow (ps k : ℕ) (x : Pcb) (m : Memory) : Memory :=
  store32 (store32 (store32 m (ps + 4 * k) (toWord x.pid)) (ps + 256 + 4 * k)
    (toWord (x.cpuTime * tickLengthInMs))) (ps + 128 + 4 * k) (toWord (statusOf x))

/-- Memory after the rows of the processes of `l`, from the index `k` on; `f` gives their control
blocks. -/
def writeRows (f : PcbPtr → Pcb) (ps : ℕ) : ℕ → List PcbPtr → Memory → Memory
  | _, [], m => m
  | k, p :: l, m => writeRows f ps (k + 1) l (writeRow ps k (f p) m)

variable {m : Memory} {ps k a : ℕ} {x : Pcb} {f : PcbPtr → Pcb} {l : List PcbPtr} {s : Kernel}

theorem load8_writeRow (h : ¬ InRow ps k a) : load8 (writeRow ps k x m) a = load8 m a := by
  unfold writeRow
  rw [load8_store32_of_ne, load8_store32_of_ne, load8_store32_of_ne]
  · intro j hj heq
    exact h ⟨j, hj, .inl heq⟩
  · intro j hj heq
    exact h ⟨j, hj, .inr (.inr heq)⟩
  · intro j hj heq
    exact h ⟨j, hj, .inr (.inl heq)⟩

theorem writeRow_row (ps k : ℕ) (x : Pcb) (m : Memory) (hk : k < pcbTableSize) :
    Row (writeRow ps k x m) ps k x := by
  have hk' : k < 32 := hk
  have hword : ∀ z : ℤ, toWord z % 4294967296 = toWord z := fun z => Nat.mod_eq_of_lt (toWord_lt z)
  unfold writeRow
  constructor
  · rw [load32_store32_of_disjoint, load32_store32_of_disjoint, load32_store32_same, hword]
    · intro i hi j hj
      omega
    · intro i hi j hj
      omega
  · rw [load32_store32_same, hword]
  · rw [load32_store32_of_disjoint, load32_store32_same, hword]
    intro i hi j hj
    omega

/-- Different elements do not share a byte. -/
theorem not_inRow {i : ℕ} (hk : k < pcbTableSize) (hi : i < pcbTableSize) (hne : i ≠ k) {j : ℕ}
    (hj : j < 4) {off : ℕ} (hoff : off = 0 ∨ off = 128 ∨ off = 256) :
    ¬ InRow ps i (ps + off + 4 * k + j) := by
  have hk' : k < 32 := hk
  have hi' : i < 32 := hi
  rintro ⟨b, hb, h | h | h⟩
  all_goals
    rcases hoff with rfl | rfl | rfl <;> omega

theorem load8_writeRows (h : ∀ i, k ≤ i → i < k + l.length → ¬ InRow ps i a) :
    load8 (writeRows f ps k l m) a = load8 m a := by
  induction l generalizing k m with
  | nil => rfl
  | cons p l ih =>
    have hlen : (p :: l).length = l.length + 1 := List.length_cons
    unfold writeRows
    rw [ih, load8_writeRow]
    · exact h k (le_refl k) (by omega)
    · intro i hi hlt
      exact h i (by omega) (by omega)

theorem Row.writeRows (h : Row m ps k x) {n : ℕ} (hn : k < n)
    (hlen : n + l.length ≤ pcbTableSize) : Row (writeRows f ps n l m) ps k x := by
  have hkeep : ∀ off, off = 0 ∨ off = 128 ∨ off = 256 →
      load32 (Analysis.writeRows f ps n l m) (ps + off + 4 * k) = load32 m (ps + off + 4 * k) := by
    intro off hoff
    apply load32_congr
    intro j hj
    apply load8_writeRows
    intro i hi hlt
    exact not_inRow (by omega) (by omega) (by omega) hj hoff
  constructor
  · exact (hkeep 0 (by simp)).trans h.pid
  · exact (hkeep 128 (by simp)).trans h.status
  · exact (hkeep 256 (by simp)).trans h.cpuTime

theorem writeRows_row (hlen : k + l.length ≤ pcbTableSize) {j : ℕ} {p : PcbPtr}
    (hp : l[j]? = some p) : Row (writeRows f ps k l m) ps (k + j) (f p) := by
  induction l generalizing k m j with
  | nil => simp at hp
  | cons q l ih =>
    rw [List.length_cons] at hlen
    unfold writeRows
    cases j with
    | zero =>
      obtain rfl : q = p := by simpa using hp
      exact (writeRow_row ps k _ m (by omega)).writeRows (Nat.lt_succ_self k) (by omega)
    | succ j =>
      rw [List.getElem?_cons_succ] at hp
      have hrow := ih (k := k + 1) (m := writeRow ps k (f q) m) (by omega) hp
      rwa [Nat.add_right_comm] at hrow

/-! ## The function -/

theorem fillProcInfo_writes (hps : ps ≠ 0) (p : PcbPtr) :
    s.fillProcInfo ps k p =
      if k < pcbTableSize then some (s.setMem (writeRow ps k (s.pcb p) s.mem)) else none := by
  unfold fillProcInfo
  rw [cAssert_pos hps]
  split_ifs with hk
  · rw [cAssert_pos hk]
    rfl
  · rw [cAssert_eq_none.mpr hk]
    rfl

/-- The loop writes the rows of the live processes, if there is room for all of them. -/
theorem procInfoRounds (hps : ps ≠ 0) (l : List (Fin pcbTableSize)) (hk : k < pcbTableSize) :
    l.foldlM (procInfoRound ps) (k, s) =
      if k + (l.filter fun i => (s.pcb (.table i)).currState ≠ .stopped).length < pcbTableSize then
        some (k + (l.filter fun i => (s.pcb (.table i)).currState ≠ .stopped).length,
          s.setMem (writeRows s.pcb ps (k + 1) ((l.filter fun i =>
            (s.pcb (.table i)).currState ≠ .stopped).map .table) s.mem))
      else none := by
  induction l generalizing k s with
  | nil =>
    rw [List.filter_nil, List.length_nil, Nat.add_zero, if_pos hk]
    rfl
  | cons i l ih =>
    rw [List.foldlM_cons]
    unfold procInfoRound
    by_cases hlive : (s.pcb (.table i)).currState ≠ .stopped
    · rw [List.filter_cons_of_pos (by simpa using hlive), if_pos hlive, fillProcInfo_writes hps,
        List.length_cons]
      by_cases hroom : k + 1 < pcbTableSize
      · rw [if_pos hroom]
        show l.foldlM (procInfoRound ps) (k + 1, s.setMem _) = _
        rw [ih hroom, Nat.add_right_comm, Nat.add_assoc]
        rfl
      · rw [if_neg hroom, if_neg (by omega)]
        rfl
    · rw [List.filter_cons_of_neg (by simpa using hlive), if_neg hlive]
      exact ih hk

/-- `get_all_proc_info` fails exactly when there is no room for the last row. -/
theorem getAllProcInfo_writes (hps : ps ≠ 0) :
    s.getAllProcInfo ps =
      if (reported s.toCore).length ≤ pcbTableSize then
        some ((reported s.toCore).length - 1,
          s.setMem (writeRows s.pcb ps 0 (reported s.toCore) s.mem))
      else none := by
  unfold getAllProcInfo
  rw [cAssert_pos hps, fillProcInfo_writes hps, if_pos (by decide)]
  show (List.finRange pcbTableSize).foldlM (procInfoRound ps) (0, s.setMem _) = _
  rw [procInfoRounds hps _ (by decide)]
  unfold reported
  rw [List.length_cons, List.length_map, Nat.zero_add]
  rfl

theorem reported_length (c : Core) : (reported c).length ≤ pcbTableSize ↔
    ∃ i, (c.pcb (.table i)).currState = .stopped := by
  have hle := List.length_filter_le (fun i => decide ((c.pcb (.table i)).currState ≠ .stopped))
    (List.finRange pcbTableSize)
  have hall := List.length_filter_eq_length_iff
    (p := fun i => decide ((c.pcb (.table i)).currState ≠ .stopped))
    (l := List.finRange pcbTableSize)
  rw [List.length_finRange] at hle hall
  unfold reported
  rw [List.length_cons, List.length_map]
  constructor
  · intro hroom
    by_contra hno
    have hfull := hall.mpr fun i _ => by simpa using fun hi => hno ⟨i, hi⟩
    omega
  · rintro ⟨i, hi⟩
    have hne : _ ≠ pcbTableSize := fun heq => by simpa [hi] using hall.mp heq i (List.mem_finRange i)
    omega

theorem verified_ne_zero {h : Heap} {len : ℤ} (hok : h.verifyUsrptr ps len = some ok) : ps ≠ 0 := by
  rintro rfl
  obtain ⟨h1, h2⟩ := length_of_verified hok
  exact absurd ((verifyUsrptr_eq_ok (by omega) h2).mp hok).1 (by decide)

/-- The snapshot of a state in which every blocked process is blocked somewhere. -/
theorem snapshot_of_room (hps : ps ≠ 0)
    (hnamed : ∀ p, (s.pcb p).currState = .blocked → (s.pcb p).blockingQueueName ≠ .noBlocker)
    (hroom : (reported s.toCore).length ≤ pcbTableSize) :
    ∃ slot s', s.getAllProcInfo ps = some (slot, s') ∧ Snapshot s ps slot s' := by
  have hpos : 0 < (reported s.toCore).length := List.length_pos_of_ne_nil (by simp [reported])
  refine ⟨_, _, (getAllProcInfo_writes hps).trans (if_pos hroom), rfl, ?_, by omega, ?_, ?_⟩
  · intro a ha
    by_contra hno
    apply ha
    apply load8_writeRows
    intro i _ hi hrow
    exact hno ⟨i, by omega, hrow⟩
  · intro k p hp
    have hrow : Row (writeRows s.pcb ps 0 (reported s.toCore) s.mem) ps (0 + k) (s.pcb p) :=
      writeRows_row (by omega) hp
    rwa [Nat.zero_add] at hrow
  · intro i _
    exact status_decoded (hnamed _)

/-- In every state of every run the snapshot is taken, completely and inside its arrays, if and only
if some slot of the process table is not in use. -/
theorem snapshot_complete_iff (r : Run Links) {n : ℕ} (hn : n ≤ r.len) {t : Trap}
    (hs : (r.state n).atTrap t = some s)
    (hok : s.verifyUsrptr ps sizeofProcessStatuses = some ok) :
    (∃ slot s', s.getAllProcInfo ps = some (slot, s') ∧ Snapshot s ps slot s') ↔
      ∃ i, (s.pcb (.table i)).currState = .stopped := by
  have hps := verified_ne_zero hok
  have htidy := (atTrap_sameDevices hs).tidy (r.tidy hn)
  rw [← reported_length]
  constructor
  · rintro ⟨slot, s', hinfo, -⟩
    by_contra hfull
    rw [getAllProcInfo_writes hps, if_neg hfull] at hinfo
    simp at hinfo
  · apply snapshot_of_room hps
    intro p
    exact htidy.orderly.named p (by simp)

/-- The root process creates a child and asks for the process information. -/
def snapshotScript : List Act := [.call [2, 40400, 8192] []]

/-- Two processes of the table are reported. -/
theorem snapshot_complete_two : ∃ r : Run Links, ∃ s slot s', r.len = 1 ∧
    (r.state 1).atTrap ((Act.call [12, 2000000] []).trap (r.state 1)) = some s ∧
    s.getAllProcInfo 2000000 = some (slot, s') ∧ Snapshot s 2000000 slot s' := by
  obtain ⟨r, hlen, -, -, htest⟩ := exists_run (Q := Links) smallPc 40300 (fun _ _ => True)
    snapshotScript (fun n s => match n with
      | 1 => (s.atTrap ((Act.call [12, 2000000] []).trap s)).any fun u =>
          decide (u.verifyUsrptr 2000000 sizeofProcessStatuses = some ok ∧
            (u.pcb (.table 5)).currState = .stopped)
      | _ => true) (by decide +kernel)
  have hlen' : r.len = 1 := hlen
  obtain ⟨s, hs, htest⟩ := (Option.any_eq_true _ _).mp (htest 1 (by decide))
  obtain ⟨hok, hstop⟩ := of_decide_eq_true htest
  obtain ⟨slot, s', hinfo, hsnap⟩ :=
    (snapshot_complete_iff r (n := 1) (by omega) hs hok).mpr ⟨5, hstop⟩
  exact ⟨r, s, slot, s', hlen', hs, hinfo, hsnap⟩

/-- The root process creates as many children as there are slots left. -/
def fullTableScript : List Act := List.replicate 31 (.call [2, 40400, 8192] [])

/-- With the whole table in use the request for the process information fails an assertion. -/
theorem snapshot_full_table : ∃ r : Run Links, ∃ s, r.len = 31 ∧
    (∀ i, (s.pcb (.table i)).currState ≠ .stopped) ∧
    (r.state 31).atTrap ((Act.call [12, 2000000] []).trap (r.state 31)) = some s ∧
    s.verifyUsrptr (s.arg 0) sizeofProcessStatuses = some ok ∧
    s.getAllProcInfo (s.arg 0) = none ∧ s.dispatchSyscallGetcputimes = none := by
  obtain ⟨r, hlen, -, -, htest⟩ := exists_run (Q := Links) smallPc 40300 (fun _ _ => True)
    fullTableScript (fun n s => match n with
      | 31 => (s.atTrap ((Act.call [12, 2000000] []).trap s)).any fun u =>
          decide ((∀ i, (u.pcb (.table i)).currState ≠ .stopped) ∧
            u.verifyUsrptr (u.arg 0) sizeofProcessStatuses = some ok)
      | _ => true) (by decide +kernel)
  have hlen' : r.len = 31 := hlen
  obtain ⟨s, hs, htest⟩ := (Option.any_eq_true _ _).mp (htest 31 (by decide))
  obtain ⟨hlive, hok⟩ := of_decide_eq_true htest
  have hfull : ¬ (reported s.toCore).length ≤ pcbTableSize := by
    rw [reported_length]
    rintro ⟨i, hi⟩
    exact hlive i hi
  have hnone : s.getAllProcInfo (s.arg 0) = none := by
    rw [getAllProcInfo_writes (verified_ne_zero hok), if_neg hfull]
  refine ⟨r, s, hlen', hlive, hs, hok, hnone, ?_⟩
  unfold dispatchSyscallGetcputimes
  dsimp only
  rw [hok]
  show (if ok ≠ ok then some (-1, s) else s.getAllProcInfo (s.arg 0) >>= _) = none
  rw [if_neg (by simp), hnone]
  rfl

end Xeros.Analysis
