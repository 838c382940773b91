import Xeros.Foundations.Strings
import Xeros.Refinement.Requests

/-!
# What is copied

`strncpy` copies up to the first zero byte and fills the rest with zeros (`strncpyByte`).  The three
places that hand over a message, `send`, `recv` and `recv_any`, are one such copy each, after the pid
of the sender was stored for a receiver that takes from anyone.
-/

set_option autoImplicit false

namespace Xeros.Model

open Xeros.Foundations Xeros.Abstract

/-! ## The string routine -/

/-- The byte that `strncpy` gives to position `i` of its destination. -/
def strncpyByte (m : Memory) (s2 i : ℕ) : UInt8 :=
  if ∃ j < i, load8 m (s2 + j) = 0 then 0 else load8 m (s2 + i)

theorem load8_strncpyPad (m : Memory) {s1 n c : ℕ} (h1 : s1 + n ≤ 4294967296)
    (hc : c < 4294967296) :
    load8 (strncpyPad m s1 n) c = if s1 ≤ c ∧ c < s1 + n then 0 else load8 m c := by
  induction n generalizing m s1 with
  | zero =>
    rw [if_neg (by omega)]
    rfl
  | succ n ih =>
    have hstep : strncpyPad m s1 (n + 1) = strncpyPad (store8 m s1 0) (s1 + 1) n := rfl
    rw [hstep, ih _ (by omega), load8_store8_of_lt m 0 (by omega) hc]
    by_cases hcs : c = s1
    · rw [if_neg (by omega), if_pos hcs, if_pos (by omega)]
    · by_cases hin : s1 + 1 ≤ c ∧ c < s1 + 1 + n
      · rw [if_pos hin, if_pos (by omega)]
      · rw [if_neg hin, if_neg hcs, if_neg (by omega)]

/-- The result of `strncpy`, from a source that does not overlap the destination. -/
theorem load8_strncpyLoop (m : Memory) {s1 s2 n c : ℕ} (h1 : s1 + n ≤ 4294967296)
    (h2 : s2 + n ≤ 4294967296) (hap : s1 + n ≤ s2 ∨ s2 + n ≤ s1) (hc : c < 4294967296) :
    load8 (strncpyLoop m s1 s2 n) c =
      if s1 ≤ c ∧ c < s1 + n then strncpyByte m s2 (c - s1) else load8 m c := by
  induction n generalizing m s1 s2 with
  | zero =>
    rw [if_neg (by omega)]
    rfl
  | succ n ih =>
    obtain ⟨m1, hm1⟩ : ∃ m1, store8 m s1 (load8 m s2) = m1 := ⟨_, rfl⟩
    have hload : ∀ d < 4294967296, load8 m1 d = if d = s1 then load8 m s2 else load8 m d := by
      intro d hd
      rw [← hm1]
      exact load8_store8_of_lt m _ (by omega) hd
    have hstep : strncpyLoop m s1 s2 (n + 1) =
        if load8 m1 s1 = 0 then strncpyPad m1 (s1 + 1) n
        else strncpyLoop m1 (s1 + 1) (s2 + 1) n := by
      rw [← hm1]
      rfl
    have hfirst : load8 m1 s1 = load8 m s2 := by rw [hload s1 (by omega), if_pos rfl]
    -- the source is not written
    have hsrc : ∀ j ≤ n, load8 m1 (s2 + j) = load8 m (s2 + j) := by
      intro j hj
      rw [hload _ (by omega), if_neg (by omega)]
    rw [hstep, hfirst]
    by_cases hcs : c = s1
    · -- the first byte
      have hval : strncpyByte m s2 (c - s1) = load8 m s2 := by
        rw [hcs, Nat.sub_self]
        exact if_neg (by simp)
      have hin : s1 ≤ c ∧ c < s1 + (n + 1) := by omega
      rw [if_pos hin, hval]
      split_ifs
      · rw [load8_strncpyPad _ (by omega) hc, if_neg (by omega), hcs, hfirst]
      · rw [ih _ (by omega) (by omega) (by omega), if_neg (by omega), hcs, hfirst]
    · by_cases hin : s1 + 1 ≤ c ∧ c < s1 + 1 + n
      · rw [if_pos (by omega : s1 ≤ c ∧ c < s1 + (n + 1))]
        split_ifs with hz
        · rw [load8_strncpyPad _ (by omega) hc, if_pos hin]
          exact (if_pos ⟨0, by omega, hz⟩).symm
        · rw [ih _ (by omega) (by omega) (by omega), if_pos hin]
          have hsub : c - s1 = c - (s1 + 1) + 1 := by omega
          unfold strncpyByte
          have hiff : (∃ j < c - (s1 + 1), load8 m1 (s2 + 1 + j) = 0) ↔
              ∃ j < c - s1, load8 m (s2 + j) = 0 := by
            constructor
            · rintro ⟨j, hj, h⟩
              refine ⟨j + 1, by omega, ?_⟩
              rw [show s2 + (j + 1) = s2 + 1 + j by omega, ← h]
              rw [show s2 + 1 + j = s2 + (j + 1) by omega, hsrc _ (by omega)]
            · rintro ⟨j, hj, h⟩
              cases j with
              | zero => exact absurd h hz
              | succ j =>
                refine ⟨j, by omega, ?_⟩
                rw [show s2 + 1 + j = s2 + (j + 1) by omega, hsrc _ (by omega)]
                exact h
          have hlast : load8 m1 (s2 + 1 + (c - (s1 + 1))) = load8 m (s2 + (c - s1)) := by
            rw [show s2 + 1 + (c - (s1 + 1)) = s2 + (c - s1) by omega, hsrc _ (by omega)]
          rw [hlast]
          exact if_congr hiff rfl rfl
      · rw [if_neg (by omega : ¬ (s1 ≤ c ∧ c < s1 + (n + 1)))]
        have hkeep : load8 m1 c = load8 m c := by rw [hload c hc, if_neg hcs]
        split_ifs
        · rw [load8_strncpyPad _ (by omega) hc, if_neg hin, hkeep]
        · rw [ih _ (by omega) (by omega) (by omega), if_neg hin, hkeep]

/-! ## The three copies -/

theorem Pcb.SameData.args {x y : Pcb} (h : x.SameData y) : y.args = x.args := by
  rw [h]
  rfl

namespace KernelOf

variable {Q : Type} {s s' u : KernelOf Q} {src dest p : PcbPtr}

/-- The receiver takes a message from anyone. -/
def TakesAny (s : KernelOf Q) (dest : PcbPtr) : Prop :=
  (s.pcb dest).blockingQueueName = .receiveAny ∨ dest = s.currproc ∧ s.fromPid = 0

/-- The argument `i` of the call that `p` is in, read from the memory `m` or before. -/
def ReadArg (s : KernelOf Q) (m : Memory) (p : PcbPtr) (i v : ℕ) : Prop :=
  v = s.argOf p i ∨ v = load32 m ((s.pcb p).args + 4 * i)

/-- Memory at the time of the copy: as it was, or with the sender's pid stored for a receiver that
takes from anyone. -/
def Announced (s : KernelOf Q) (src dest : PcbPtr) (m : Memory) : Prop :=
  m = s.mem ∨ s.TakesAny dest ∧ m = store32 s.mem (s.argOf dest 0) (toWord (s.pcb src).pid)

/-- In `s'` a message of `src` has been copied to `dest`. -/
def HandsOver (s : KernelOf Q) (src dest : PcbPtr) (s' : KernelOf Q) : Prop :=
  s'.transfers = s.transfers ++ [(src, dest)] ∧ ∃ m rb rl sb sl, s.Announced src dest m ∧
    s.ReadArg m dest 1 rb ∧ s.ReadArg m dest 2 rl ∧ s.ReadArg m src 1 sb ∧ s.ReadArg m src 2 sl ∧
    s'.mem = strncpy m rb sb (toInt (min rl sl))

/-- Nothing was copied, or one message. -/
def CopiesAtMost (s : KernelOf Q) (src dest : PcbPtr) (s' : KernelOf Q) : Prop :=
  s'.transfers = s.transfers ∨ s.HandsOver src dest s'

theorem Quiet.argOf (h : Quiet s s') (p : PcbPtr) (i : ℕ) : s'.argOf p i = s.argOf p i := by
  unfold Core.argOf
  rw [h.toHeap, (h.pcb p).args]

variable [ProcLists Q]

theorem addPcbToQueue_transfers {st : ProcState} (h : s.addPcbToQueue p st = some s') :
    s'.transfers = s.transfers := by
  obtain ⟨-, k, rfl⟩ := addPcbToQueue_eq h
  rfl

theorem unblockPeer_transfers (h : s.unblockPeer p = some s') : s'.transfers = s.transfers := by
  obtain ⟨_, -, h⟩ := Option.bind_eq_some_iff.mp h
  exact (addPcbToQueue_transfers h).trans rfl

theorem removeProcFromBlockingQueue_transfers {o : Option PcbPtr} {q : BlockingQueue} {b : Bool}
    (h : s.removeProcFromBlockingQueue p o q = some (b, s')) : s'.transfers = s.transfers := by
  unfold removeProcFromBlockingQueue at h
  obtain ⟨owner, -, h⟩ := Option.bind_eq_some_iff.mp h
  split_ifs at h
  · obtain ⟨-, rfl⟩ := Prod.mk.inj (Option.some.inj h)
    rfl
  · obtain ⟨_, -, h⟩ := Option.bind_eq_some_iff.mp h
    obtain ⟨-, rfl⟩ := Prod.mk.inj (Option.some.inj h)
    rfl

theorem reschedule_keeps (h : s.reschedule = some s') :
    s'.transfers = s.transfers ∧ s'.mem = s.mem := by
  unfold reschedule getNextProc at h
  cases hh : ProcLists.head s.queues (.proc .ready) with
  | none =>
    rw [hh] at h
    obtain rfl := Option.some.inj h
    exact ⟨rfl, rfl⟩
  | some q =>
    rw [hh] at h
    dsimp only at h
    cases hr : s.removePcbFromQueue q with
    | none =>
      rw [hr] at h
      exact absurd h (by simp)
    | some u =>
      rw [hr] at h
      obtain rfl := Option.some.inj h
      obtain ⟨-, k, rfl⟩ := removePcbFromQueue_eq hr
      exact ⟨rfl, rfl⟩

/-- The copy itself, and what is left to do after it. -/
theorem handsOver_finish {m : Memory} {rb rl sb sl : ℕ} (hu : u.transfers = s.transfers)
    (hmem : u.mem = m) (hann : s.Announced src dest m) (hrb : s.ReadArg m dest 1 rb)
    (hrl : s.ReadArg m dest 2 rl) (hsb : s.ReadArg m src 1 sb) (hsl : s.ReadArg m src 2 sl)
    (hname : (u.pcb p).blockingQueueName ≠ .device)
    (h : (u.transfer src dest rb sb (min rl sl)).unblockPeer p = some s') :
    s.HandsOver src dest s' := by
  have ht := unblockPeer_transfers h
  have hq := unblockPeer_quiet h hname
  refine ⟨?_, m, rb, rl, sb, sl, hann, hrb, hrl, hsb, hsl, ?_⟩
  · rw [ht, ← hu]
    rfl
  · rw [hq.toHeap, ← hmem]
    rfl

theorem send_copies {r : ℤ}
    (hs : s.send s.currproc dest (s.arg 1) (s.arg 2) = some (r, s')) :
    s.CopiesAtMost s.currproc dest s' := by
  unfold send at hs
  obtain ⟨_, -, hs⟩ := Option.bind_eq_some_iff.mp hs
  by_cases hany : (s.pcb dest).blockingQueueName = .receiveAny
  · rw [if_pos hany] at hs
    obtain ⟨⟨waiting, u⟩, hu, hs⟩ := Option.bind_eq_some_iff.mp hs
    obtain ⟨rfl, rfl⟩ := Prod.mk.inj (Option.some.inj hu)
    dsimp only at hs
    rw [if_pos rfl, if_pos hany] at hs
    obtain ⟨u1, hu1, hs⟩ := Option.bind_eq_some_iff.mp hs
    obtain ⟨-, rfl⟩ := Prod.mk.inj (Option.some.inj hs)
    obtain ⟨w, hw⟩ : ∃ w, s.setPcb dest (fun x => { x with blockingQueueName := .noBlocker }) = w :=
      ⟨_, rfl⟩
    have hargs : ∀ q, (w.pcb q).args = (s.pcb q).args ∧ (w.pcb q).pid = (s.pcb q).pid := by
      intro q
      rw [← hw]
      by_cases hq : q = dest
      · rw [hq, setPcb_toCore, Core.setPcb_pcb_self]
        exact ⟨rfl, rfl⟩
      · rw [setPcb_toCore, Core.setPcb_pcb_ne _ _ hq]
        exact ⟨rfl, rfl⟩
    have hwmem : w.mem = s.mem := by rw [← hw]; rfl
    have hname : (w.pcb dest).blockingQueueName ≠ .device := by
      rw [← hw, setPcb_toCore, Core.setPcb_pcb_self]
      simp
    rw [hw] at hu1
    refine .inr (handsOver_finish (m := store32 s.mem (s.argOf dest 0) (toWord (s.pcb s.currproc).pid))
      ?_ ?_ (.inr ⟨.inl hany, rfl⟩) ?_ ?_ (.inl rfl) (.inl rfl) ?_ hu1)
    · rw [← hw]
      rfl
    · rw [← hwmem]
      rfl
    · refine .inr ?_
      show load32 (store32 w.mem _ _) ((w.pcb dest).args + 4 * 1) = _
      rw [hwmem, (hargs dest).1]
    · refine .inr ?_
      show load32 (store32 w.mem _ _) ((w.pcb dest).args + 4 * 2) = _
      rw [hwmem, (hargs dest).1]
    · exact hname
  · rw [if_neg hany] at hs
    obtain ⟨⟨waiting, u⟩, hu, hs⟩ := Option.bind_eq_some_iff.mp hs
    dsimp only at hs
    obtain ⟨hquiet, hout⟩ := removeProcFromBlockingQueue_quiet hu (by simp)
    split_ifs at hs with hw hany'
    · rw [(hout hw).2.2.2] at hany'
      simp at hany'
    · obtain ⟨u1, hu1, hs⟩ := Option.bind_eq_some_iff.mp hs
      obtain ⟨-, rfl⟩ := Prod.mk.inj (Option.some.inj hs)
      refine .inr (handsOver_finish (removeProcFromBlockingQueue_transfers hu) ?_ (.inl rfl) ?_ ?_
        (.inl rfl) (.inl rfl) ?_ hu1)
      · rw [hquiet.toHeap]
      · exact .inl (hquiet.argOf dest 1)
      · exact .inl (hquiet.argOf dest 2)
      · rw [(hout hw).2.2.2]
        simp
    · obtain rfl : waiting = false := by simpa using hw
      obtain rfl := removeProcFromBlockingQueue_false hu
      obtain ⟨u1, hu1, hs⟩ := Option.bind_eq_some_iff.mp hs
      obtain ⟨-, rfl⟩ := Prod.mk.inj (Option.some.inj hs)
      obtain ⟨k, rfl⟩ := addProcToBlockingQueue_eq hu1
      exact .inl rfl

theorem recv_copies {r : ℤ}
    (hs : s.recv src s.currproc (s.arg 1) (s.arg 2) = some (r, s')) :
    s.CopiesAtMost src s.currproc s' := by
  unfold recv at hs
  obtain ⟨_, -, hs⟩ := Option.bind_eq_some_iff.mp hs
  obtain ⟨⟨waiting, u⟩, hu, hs⟩ := Option.bind_eq_some_iff.mp hs
  dsimp only at hs
  obtain ⟨hquiet, hout⟩ := removeProcFromBlockingQueue_quiet hu (by simp)
  split_ifs at hs with hw
  · obtain ⟨u1, hu1, hs⟩ := Option.bind_eq_some_iff.mp hs
    obtain ⟨-, rfl⟩ := Prod.mk.inj (Option.some.inj hs)
    rw [min_comm] at hu1
    refine .inr (handsOver_finish (removeProcFromBlockingQueue_transfers hu) ?_ (.inl rfl)
      (.inl rfl) (.inl rfl) ?_ ?_ ?_ hu1)
    · rw [hquiet.toHeap]
    · exact .inl (hquiet.argOf src 1)
    · exact .inl (hquiet.argOf src 2)
    · rw [(hout hw).2.2.2]
      simp
  · obtain rfl : waiting = false := by simpa using hw
    obtain rfl := removeProcFromBlockingQueue_false hu
    obtain ⟨u1, hu1, hs⟩ := Option.bind_eq_some_iff.mp hs
    obtain ⟨-, rfl⟩ := Prod.mk.inj (Option.some.inj hs)
    obtain ⟨k, rfl⟩ := addProcToBlockingQueue_eq hu1
    exact .inl rfl

theorem recvAny_copies {r : ℤ} (h0 : s.fromPid = 0)
    (hs : s.recvAny s.currproc (s.arg 1) (s.arg 2) = some (r, s')) :
    ∃ src, s.CopiesAtMost src s.currproc s' := by
  unfold recvAny at hs
  obtain ⟨_, -, hs⟩ := Option.bind_eq_some_iff.mp hs
  cases hh : ProcLists.head s.queues (.blocking s.currproc .sender) with
  | none =>
    rw [hh] at hs
    obtain ⟨-, rfl⟩ := Prod.mk.inj (Option.some.inj hs)
    exact ⟨s.currproc, .inl rfl⟩
  | some src =>
    rw [hh] at hs
    dsimp only at hs
    obtain ⟨⟨waiting, u⟩, hu, hs⟩ := Option.bind_eq_some_iff.mp hs
    dsimp only at hs
    obtain ⟨hquiet, hout⟩ := removeProcFromBlockingQueue_quiet hu (by simp)
    refine ⟨src, ?_⟩
    obtain ⟨w, hwdef⟩ : ∃ w, u.setMem (store32 u.mem (u.argOf s.currproc 0) (toWord (u.pcb src).pid)) =
        w := ⟨_, rfl⟩
    have hpcb : w.pcb = u.pcb := by rw [← hwdef]; rfl
    have hmem : w.mem = store32 s.mem (s.argOf s.currproc 0) (toWord (s.pcb src).pid) := by
      have hwm : w.mem = store32 u.mem (u.argOf s.currproc 0) (toWord (u.pcb src).pid) := by
        rw [← hwdef]
        rfl
      rw [hwm, hquiet.argOf s.currproc 0, (hquiet.pcb src).pid, hquiet.toHeap]
    have hwt : w.transfers = s.transfers := by
      have hwu : w.transfers = u.transfers := by rw [← hwdef]; rfl
      rw [hwu, removeProcFromBlockingQueue_transfers hu]
    have hstore : u.store (u.argOf s.currproc 0) (toWord (u.pcb src).pid) = w := hwdef
    rw [hstore] at hs
    have harg : ∀ i, s.ReadArg w.mem src i (w.argOf src i) := by
      intro i
      refine .inr ?_
      unfold Core.argOf
      rw [hpcb, (hquiet.pcb src).args]
    split_ifs at hs with hw
    · obtain ⟨u1, hu1, hs⟩ := Option.bind_eq_some_iff.mp hs
      obtain ⟨-, rfl⟩ := Prod.mk.inj (Option.some.inj hs)
      rw [min_comm] at hu1
      refine .inr (handsOver_finish hwt rfl (.inr ⟨.inr ⟨rfl, h0⟩, hmem⟩) (.inl rfl) (.inl rfl)
        (harg 1) (harg 2) ?_ hu1)
      rw [hpcb, (hout hw).2.2.2]
      simp
    · obtain ⟨-, rfl⟩ := Prod.mk.inj (Option.some.inj hs)
      exact .inl (removeProcFromBlockingQueue_transfers hu)

omit [ProcLists Q] in
theorem CopiesAtMost.keep {s'' : KernelOf Q} (h : s.CopiesAtMost src dest s')
    (ht : s''.transfers = s'.transfers) (hm : s''.mem = s'.mem) : s.CopiesAtMost src dest s'' := by
  rcases h with h | ⟨h, hcopy⟩
  · exact .inl (ht.trans h)
  · refine .inr ⟨ht.trans h, ?_⟩
    rw [hm]
    exact hcopy

theorem finishMsg_copies {r : ℤ × KernelOf Q} (h : s.CopiesAtMost src dest r.2)
    (hs : finishMsg r = some s') : s.CopiesAtMost src dest s' := by
  unfold finishMsg at hs
  dsimp only at hs
  split_ifs at hs
  · obtain ⟨ht, hm⟩ := reschedule_keeps hs
    exact h.keep (ht.trans rfl) (hm.trans rfl)
  · obtain rfl := Option.some.inj hs
    exact h.keep rfl rfl

/-- A send copies at most one message, from the running process. -/
theorem dispatchSyscallSend_copies (hs : s.dispatchSyscallSend = some s') :
    ∃ dest, s.CopiesAtMost s.currproc dest s' := by
  unfold dispatchSyscallSend at hs
  dsimp only at hs
  split_ifs at hs
  · obtain rfl := Option.some.inj hs
    exact ⟨s.currproc, .inl rfl⟩
  · obtain rfl := Option.some.inj hs
    exact ⟨s.currproc, .inl rfl⟩
  · obtain ⟨result, -, hs⟩ := Option.bind_eq_some_iff.mp hs
    split_ifs at hs
    · obtain rfl := Option.some.inj hs
      exact ⟨s.currproc, .inl rfl⟩
    · cases hd : s.pidToProc (toInt (s.arg 0)) with
      | none =>
        rw [hd] at hs
        obtain rfl := Option.some.inj hs
        exact ⟨s.currproc, .inl rfl⟩
      | some dest =>
        rw [hd] at hs
        obtain ⟨r, hr, hs⟩ := Option.bind_eq_some_iff.mp hs
        exact ⟨dest, finishMsg_copies (send_copies hr) hs⟩

/-- A receive copies at most one message, to the running process. -/
theorem dispatchSyscallRecv_copies (hs : s.dispatchSyscallRecv = some s') :
    ∃ src, s.CopiesAtMost src s.currproc s' := by
  unfold dispatchSyscallRecv at hs
  dsimp only at hs
  obtain ⟨result, -, hs⟩ := Option.bind_eq_some_iff.mp hs
  split_ifs at hs
  · obtain rfl := Option.some.inj hs
    exact ⟨s.currproc, .inl rfl⟩
  · obtain rfl := Option.some.inj hs
    exact ⟨s.currproc, .inl rfl⟩
  · obtain ⟨result, -, hs⟩ := Option.bind_eq_some_iff.mp hs
    split_ifs at hs
    · obtain rfl := Option.some.inj hs
      exact ⟨s.currproc, .inl rfl⟩
    · unfold recvFrom at hs
      split_ifs at hs with hme h0
      · obtain rfl := Option.some.inj hs
        exact ⟨s.currproc, .inl rfl⟩
      · obtain ⟨r, hr, hs⟩ := Option.bind_eq_some_iff.mp hs
        obtain ⟨src, hsrc⟩ := recvAny_copies h0 hr
        exact ⟨src, finishMsg_copies hsrc hs⟩
      · cases hd : s.pidToProc (toInt (load32 s.mem (s.arg 0))) with
        | none =>
          rw [hd] at hs
          obtain rfl := Option.some.inj hs
          exact ⟨s.currproc, .inl rfl⟩
        | some src =>
          rw [hd] at hs
          obtain ⟨r, hr, hs⟩ := Option.bind_eq_some_iff.mp hs
          exact ⟨src, finishMsg_copies (recv_copies hr) hs⟩

end KernelOf

end Xeros.Model
