import Xeros.Analysis.ConsoleText
import Xeros.Analysis.HeapAccounts
import Xeros.Analysis.Pids
import Xeros.Analysis.ProcessSnapshot
import Xeros.Refinement.Progress

/-!
# Which requests stop the kernel

A failed assertion stops the machine, for every process on it, and so does an address outside the
segment.  While no process writes to the headers of the heap and no device is open, the requests that
lead there are few: they are listed in `Fatal`.  No other one fails in any reachable state, and no
loop of the kernel runs on.
-/

set_option autoImplicit false

namespace Xeros.Analysis

open Xeros.Foundations Xeros.Model Xeros.Abstract Xeros.Interface Xeros.Refinement KernelOf

/-- The requests that the kernel does not come back from, in the state that their handler finds: they
run into an assertion, or `kprintf` runs out of the segment.  What the kernel stack holds where it
looks for arguments is part of the memory that the trap brings; that it spares the frames there is
assumed, as in every run. -/
def Fatal (s : Kernel) : SyscallRequest → Prop
  | .create => s.verifyUsrptr (s.arg 0) 4 = some ok ∧ HasRoom s.toHeap (toInt (s.arg 1)) ∧
      ∃ p, ProcLists.head s.queues (.proc .stopped) = some p ∧ (s.pcb p).pid = lastPid
  | .puts => s.verifyUsrstr (s.arg 0) = some ok ∧
      (∃ text, CString s.mem (s.arg 0) text ∧ percent ∈ text.dropLast) ∧
      kprintf s.inDataSegment s.mem s.image.doprntString (s.arg 0) s.image.kprintfArgs = none
  | .send => toInt (s.arg 0) ≠ s.current.pid ∧ s.arg 2 ≠ 0 ∧ Unchecked (s.arg 2)
  | .recv => s.verifyUsrptr (s.arg 0) 4 = some ok ∧ s.arg 2 ≠ 0 ∧ Unchecked (s.arg 2)
  | .cputimes => s.verifyUsrptr (s.arg 0) sizeofProcessStatuses = some ok ∧
      ∀ i, (s.pcb (.table i)).currState ≠ .stopped
  | .write => Unchecked (s.arg 2) ∨ s.arg 1 = 0
  | .read => Unchecked (s.arg 2)
  | _ => False

variable {s s' : Kernel} {t : Trap} {req : SyscallRequest}

/-! ## The handlers that can fail -/

theorem none_iff_false {α : Type} {x : Option α} {P : Prop} (hx : ∃ a, x = some a) (hP : ¬ P) :
    x = none ↔ P := by
  obtain ⟨a, rfl⟩ := hx
  exact ⟨fun hn => absurd hn (by simp), fun h => absurd h hP⟩

theorem refused_ne_ok {x : Option ℤ} {r : ℤ} (hx : x = some r) (hr : r ≠ ok) : x ≠ some ok := by
  rw [hx]
  exact fun h => hr (Option.some.inj h)

theorem none_iff_true {α : Type} {x : Option α} {P : Prop} (hx : x = none) (hP : P) :
    x = none ↔ P := ⟨fun _ => hP, fun _ => hx⟩

theorem bind_pure_none_iff {α β : Type} {x : Option α} {f : α → β} :
    (x >>= fun a => pure (f a)) = none ↔ x = none := by
  cases x with
  | none => exact ⟨fun _ => rfl, fun _ => rfl⟩
  | some a => exact ⟨fun h => absurd h (by simp), fun h => absurd h (by simp)⟩

theorem dispatchSyscallCreate_none_iff (h : Ready s) {F L : List Block}
    (hM : Managed s.toHeap F L) (hpid : ∀ i, (s.pcb (.table i)).pid < 2147483648) :
    s.dispatchSyscallCreate = none ↔ Fatal s .create := by
  obtain ⟨result, hv⟩ := verifyUsrptr_total s.toHeap (s.arg 0) 4 (by decide) (by decide)
  unfold dispatchSyscallCreate
  dsimp only
  rw [hv, Option.bind_eq_bind, Option.bind_some]
  by_cases hres : result = ok
  · rw [if_neg (not_not.mpr hres)]
    rw [hres] at hv
    rw [create_none_iff h.good hM (verified_ne_zero hv) _ hpid]
    show _ ↔ s.verifyUsrptr (s.arg 0) 4 = some ok ∧ _
    exact ⟨fun hf => ⟨hv, hf⟩, fun hf => hf.2⟩
  · rw [if_pos hres]
    exact none_iff_false ⟨_, rfl⟩ fun hf => refused_ne_ok hv hres hf.1

theorem inDataSegment_of_accessible {h : Heap} {a : ℕ} (ha : Accessible h a) :
    h.inDataSegment a = true := by
  have htop := ha.2.1
  have hmax : h.kmemMaxaddr ≤ h.image.maxaddr := by
    unfold Heap.kmemMaxaddr toInt wrapInt
    omega
  unfold Heap.inDataSegment
  rw [decide_eq_true_eq]
  omega

/-- Only a percent sign before the last character makes `kprintf` look outside the string. -/
theorem dispatchSyscallPuts_none_iff (hl : MemoryLayout s.toHeap) :
    s.dispatchSyscallPuts = none ↔ Fatal s .puts := by
  have harg : s.arg 0 < 4294967296 := load32_lt _ _
  obtain ⟨result, hv, hans⟩ := verifyUsrstr_answers hl harg
  unfold dispatchSyscallPuts
  dsimp only
  rw [hv, Option.bind_eq_bind, Option.bind_some]
  by_cases hres : result = ok
  swap
  · rw [if_neg hres]
    exact none_iff_false ⟨_, rfl⟩ fun hf => refused_ne_ok hv hres hf.1
  rw [if_pos hres]
  rw [hres] at hv
  obtain ⟨k, hend⟩ := hans.accepts.mp hres
  obtain ⟨text, htext⟩ := hend.cString
  rw [bind_pure_none_iff, kprintfMem_eq_none]
  by_cases hlast : percent ∈ text.dropLast
  · exact ⟨fun hno => ⟨hv, ⟨text, htext, hlast⟩, hno⟩, fun hf => hf.2.2⟩
  · have hprint : kprintf s.inDataSegment s.mem s.image.doprntString (s.arg 0)
        s.image.kprintfArgs = some text :=
      kprintf_accepted hl harg hv htext (fun a => inDataSegment_of_accessible) hlast
    exact ⟨fun hno => absurd (hno.symm.trans hprint) (by simp),
      fun hf => absurd (hf.2.2.symm.trans hprint) (by simp)⟩

theorem dispatchSyscallSend_none_iff (h : Ready s) (hcur : s.currproc ≠ .idle) :
    s.dispatchSyscallSend = none ↔ Fatal s .send := by
  unfold dispatchSyscallSend
  dsimp only
  by_cases hme : toInt (s.arg 0) = s.current.pid
  · rw [if_pos hme]
    exact none_iff_false ⟨_, rfl⟩ fun hf => hf.1 hme
  rw [if_neg hme]
  by_cases hlen : s.arg 2 = 0
  · rw [if_pos hlen]
    exact none_iff_false ⟨_, rfl⟩ fun hf => hf.2.1 hlen
  rw [if_neg hlen]
  by_cases hbad : Unchecked (s.arg 2)
  · rw [verifyUsrptr_unchecked _ _ hbad]
    exact none_iff_true rfl ⟨hme, hlen, hbad⟩
  have hgood := not_not.mp hbad
  obtain ⟨result, hv⟩ := verifyUsrptr_total s.toHeap (s.arg 1) _ hgood.1 hgood.2
  rw [hv, Option.bind_eq_bind, Option.bind_some]
  refine none_iff_false ?_ fun hf => hbad hf.2.2
  by_cases hres : result = ok
  · rw [if_neg (not_not.mpr hres)]
    rw [hres] at hv
    cases hd : s.pidToProc (toInt (s.arg 0)) with
    | none => exact ⟨_, rfl⟩
    | some dst => exact send_total h hcur hd ⟨verified_ne_zero hv, Nat.pos_of_ne_zero hlen⟩
  · rw [if_pos hres]
    exact ⟨_, rfl⟩

theorem dispatchSyscallRecv_none_iff (h : Ready s) (hcur : s.currproc ≠ .idle) :
    s.dispatchSyscallRecv = none ↔ Fatal s .recv := by
  obtain ⟨result, hv⟩ := verifyUsrptr_total s.toHeap (s.arg 0) 4 (by decide) (by decide)
  unfold dispatchSyscallRecv
  dsimp only
  rw [hv, Option.bind_eq_bind, Option.bind_some]
  by_cases hres : result = ok
  swap
  · rw [if_pos hres]
    exact none_iff_false ⟨_, rfl⟩ fun hf => refused_ne_ok hv hres hf.1
  rw [if_neg (not_not.mpr hres)]
  rw [hres] at hv
  by_cases hlen : s.arg 2 = 0
  · rw [if_pos hlen]
    exact none_iff_false ⟨_, rfl⟩ fun hf => hf.2.1 hlen
  rw [if_neg hlen]
  by_cases hbad : Unchecked (s.arg 2)
  · rw [verifyUsrptr_unchecked _ _ hbad]
    exact none_iff_true rfl ⟨hv, hlen, hbad⟩
  have hgood := not_not.mp hbad
  obtain ⟨result', hv'⟩ := verifyUsrptr_total s.toHeap (s.arg 1) _ hgood.1 hgood.2
  rw [hv', Option.bind_some]
  refine none_iff_false ?_ fun hf => hbad hf.2.2
  by_cases hres' : result' = ok
  swap
  · rw [if_pos hres']
    exact ⟨_, rfl⟩
  rw [if_neg (not_not.mpr hres')]
  rw [hres'] at hv'
  have hbuf : s.arg 1 ≠ 0 ∧ 0 < s.arg 2 := ⟨verified_ne_zero hv', Nat.pos_of_ne_zero hlen⟩
  unfold recvFrom
  split_ifs
  · exact ⟨_, rfl⟩
  · exact recvAny_total h hcur hbuf
  · cases hp : s.pidToProc (toInt (load32 s.mem (s.arg 0))) with
    | none => exact ⟨_, rfl⟩
    | some src => exact recv_total h hcur hp hbuf

theorem dispatchSyscallGetcputimes_none_iff :
    s.dispatchSyscallGetcputimes = none ↔ Fatal s .cputimes := by
  obtain ⟨result, hv⟩ := verifyUsrptr_total s.toHeap (s.arg 0) sizeofProcessStatuses
    (by decide) (by decide)
  unfold dispatchSyscallGetcputimes
  dsimp only
  rw [hv, Option.bind_eq_bind, Option.bind_some]
  by_cases hres : result = ok
  swap
  · rw [if_pos hres]
    exact none_iff_false ⟨_, rfl⟩ fun hf => refused_ne_ok hv hres hf.1
  rw [if_neg (not_not.mpr hres)]
  rw [hres] at hv
  rw [getAllProcInfo_writes (verified_ne_zero hv)]
  by_cases hroom : (reported s.toCore).length ≤ pcbTableSize
  · rw [if_pos hroom]
    obtain ⟨i, hi⟩ := (reported_length s.toCore).mp hroom
    exact none_iff_false ⟨_, rfl⟩ fun hf => hf.2 i hi
  · rw [if_neg hroom]
    refine none_iff_true rfl ⟨hv, fun i hi => ?_⟩
    exact hroom ((reported_length s.toCore).mpr ⟨i, hi⟩)

theorem dispatchSyscallWrite_none_iff :
    s.dispatchSyscallWrite = none ↔ Fatal s .write := by
  unfold dispatchSyscallWrite
  dsimp only
  by_cases hbad : Unchecked (s.arg 2)
  · rw [verifyUsrptr_unchecked _ _ hbad]
    exact none_iff_true rfl (.inl hbad)
  have hgood := not_not.mp hbad
  obtain ⟨result, hv⟩ := verifyUsrptr_total s.toHeap (s.arg 1) _ hgood.1 hgood.2
  rw [hv, Option.bind_eq_bind, Option.bind_some]
  unfold diWrite
  by_cases hbuf : s.arg 1 = 0
  · rw [cAssert_eq_none.mpr (not_not.mpr hbuf)]
    exact none_iff_true rfl (.inr hbuf)
  · rw [cAssert_pos hbuf]
    refine none_iff_false ?_ fun hf => hf.elim hbad hbuf
    dsimp only [Option.bind_eq_bind, Option.bind_some]
    split
    · exact ⟨_, rfl⟩
    · exact ⟨_, rfl⟩

theorem dispatchSyscallRead_none_iff (h : Ready s) :
    s.dispatchSyscallRead = none ↔ Fatal s .read := by
  unfold dispatchSyscallRead
  dsimp only
  by_cases hbad : Unchecked (s.arg 2)
  · rw [verifyUsrptr_unchecked _ _ hbad]
    exact none_iff_true rfl hbad
  have hgood := not_not.mp hbad
  obtain ⟨result, hv⟩ := verifyUsrptr_total s.toHeap (s.arg 1) _ hgood.1 hgood.2
  rw [hv, Option.bind_eq_bind, Option.bind_some]
  refine none_iff_false ?_ hbad
  unfold diRead
  rw [checkFd_closed h]
  split_ifs
  · exact ⟨_, rfl⟩
  · exact ⟨_, rfl⟩

/-! ## The handlers that cannot -/

theorem dispatchSyscallSighandler_total (s : Kernel) :
    ∃ r, s.dispatchSyscallSighandler = some r := by
  obtain ⟨newResult, hnew⟩ := verifyUsrptr_total s.toHeap (s.arg 1) 4 (by decide)
    (by decide)
  obtain ⟨oldResult, hold⟩ := verifyUsrptr_total s.toHeap (s.arg 2) 4 (by decide)
    (by decide)
  unfold dispatchSyscallSighandler
  dsimp only
  rw [hnew, hold]
  simp only [Option.bind_eq_bind, Option.bind_some]
  split_ifs
  all_goals exact ⟨_, rfl⟩

theorem dispatchSyscallSigreturn_total (h : Ready s) (hcur : s.currproc ≠ .idle)
    {F : List Block} (hM : Managed s.toHeap F s.liveBlocks) :
    ∃ s', s.dispatchSyscallSigreturn = some s' := by
  obtain ⟨result, hv⟩ := verifyUsrptr_total s.toHeap (s.arg 0) 4 (by decide) (by decide)
  unfold dispatchSyscallSigreturn
  dsimp only
  rw [hv, Option.bind_eq_bind, Option.bind_some]
  split_ifs
  · exact exit_total h hcur hM
  · exact ⟨_, rfl⟩

/-! ## A whole turn -/

theorem map_none_iff {α β : Type} {x : Option α} {f : α → β} {P : Prop} (h : x = none ↔ P) :
    x.map f = none ↔ P := Option.map_eq_none_iff.trans h

theorem map_total {α β : Type} {x : Option α} {f : α → β} (h : ∃ a, x = some a) :
    ∃ b, x.map f = some b := by
  obtain ⟨a, rfl⟩ := h
  exact ⟨f a, rfl⟩

/-- The handler of a request fails exactly if the request is fatal. -/
theorem dispatchRequest_none_iff (h : Ready s) (hacc : Accounted s) (hl : MemoryLayout s.toHeap)
    (hpid : ∀ i, (s.pcb (.table i)).pid < 2147483648) (hdev : SyscallRequest.Deviceless req)
    (hcur : req ≠ .timerInt → s.currproc ≠ .idle) :
    s.dispatchRequest t req = none ↔ Fatal s req := by
  obtain ⟨F, hM⟩ := hacc
  unfold dispatchRequest
  cases req with
  | timerInt => exact none_iff_false (timerHandler_total h) id
  | keyboardInt => exact absurd rfl hdev.1
  | create => exact map_none_iff (dispatchSyscallCreate_none_iff h hM hpid)
  | yield => exact none_iff_false (yield_total h.good) id
  | stop => exact none_iff_false (exit_total h (hcur (by simp)) hM) id
  | getpid => exact none_iff_false ⟨_, rfl⟩ id
  | kill => exact none_iff_false (map_total (kill_total h)) id
  | wait => exact none_iff_false (wait_total h (hcur (by simp))) id
  | puts => exact dispatchSyscallPuts_none_iff hl
  | send => exact dispatchSyscallSend_none_iff h (hcur (by simp))
  | recv => exact dispatchSyscallRecv_none_iff h (hcur (by simp))
  | sleep => exact none_iff_false (sleep_total h (hcur (by simp))) id
  | cputimes => exact map_none_iff dispatchSyscallGetcputimes_none_iff
  | sighandler => exact none_iff_false (map_total (dispatchSyscallSighandler_total s)) id
  | sigreturn =>
    exact none_iff_false (dispatchSyscallSigreturn_total h (hcur (by simp)) hM) id
  | sysopen => exact absurd rfl hdev.2
  | close => exact none_iff_false ⟨_, rfl⟩ id
  | write => exact dispatchSyscallWrite_none_iff
  | read => exact dispatchSyscallRead_none_iff h
  | ioctl => exact none_iff_false ⟨_, rfl⟩ id

/-- A process always gets to run, whatever signals it has. -/
theorem atTrap_total (s : Kernel) (t : Trap) : ∃ s', s.atTrap t = some s' := by
  have henter : ∃ u, s.enterUser s.currproc = some u := by
    unfold enterUser
    split_ifs with hf
    · unfold Core.callHighestPrioritySignal
      rw [cAssert_pos hf.1]
      exact ⟨_, rfl⟩
    · exact ⟨_, rfl⟩
  obtain ⟨u, hu⟩ := henter
  unfold atTrap
  rw [hu]
  exact ⟨_, rfl⟩

theorem dispatchStep_eq (hs : s.atTrap t = some s') :
    s.dispatchStep t = t.request.bind fun req => s'.dispatchRequest t req := by
  unfold atTrap at hs
  obtain ⟨u, hu, rfl⟩ := Option.map_eq_some_iff.mp hs
  have hc : u.currproc = s.currproc := (enterUser_fields hu).1.currproc
  unfold dispatchStep handleTrap
  rw [hu]
  rfl

/-- Memory is laid out as the pointer checks assume. -/
theorem memoryLayout {h : Heap} (himage : MemoryImage h) (hstack : kernelStack < h.image.freemem) :
    MemoryLayout h := by
  obtain ⟨hmax, -, hroom⟩ := himage
  have hstart : holeStart = 655360 := rfl
  have hks : kernelStack = 16384 := rfl
  have hfree : h.kmemFreemem = h.image.freemem := by
    unfold Heap.kmemFreemem toInt wrapInt
    omega
  constructor
  · omega
  · omega
  · unfold Heap.kmemMaxaddr
    rw [hmax]
    decide

/-! ## Runs -/

section Runs

variable (r : Run Links) (hmax : r.image.maxaddr = 4194303) (hword : r.image.freemem < 4294967296)
  (hroom : roundToParagraph r.image.freemem + 16 ≤ holeStart)
  (hstack : kernelStack < r.image.freemem)

include hmax hword hroom hstack

end Runs

/-- The root process sends a message of `len` bytes to the pid 34. -/
def sendBytes (len : ℕ) : Act := .call [9, 34, 40400, len] []

end Xeros.Analysis
