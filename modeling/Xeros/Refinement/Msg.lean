import Xeros.Abstract.Event
import Xeros.Model.Msg
import Xeros.Refinement.Processes

/-!
# What the messaging system does to the view

A send or a receive either meets a process that is already blocked for it, which is one
`Event.deliver`, or puts the caller into a queue.
-/

set_option autoImplicit false

namespace Xeros.Model.KernelOf

open Xeros.Foundations Xeros.Abstract Xeros.Interface

variable {Q : Type} [ProcLists Q] [LawfulProcLists Q] {s : KernelOf Q} {run : Option PcbPtr}
  {p src dst : PcbPtr} {buffer len : ℕ}

omit [ProcLists Q] [LawfulProcLists Q] in
theorem argOf_setMem (s : KernelOf Q) (m : Memory) (p : PcbPtr) (i : ℕ) :
    (s.setMem m).argOf p i = load32 m ((s.pcb p).args + 4 * i) := rfl

theorem Becomes.setMem {s' : KernelOf Q} {v : View} (h : Becomes s v s') (m : Memory) :
    Becomes (s.setMem m) v (s'.setMem m) :=
  Becomes.of_fields (congrArg (fun heap : Heap => { heap with mem := m }) h.toHeap) h.pcb
    h.currproc h.gDeviceTable h.kbd h.transfers h.wf h.lists

theorem Becomes.record {s' : KernelOf Q} {v : View} (h : Becomes s v s') (a b : PcbPtr) :
    Becomes s (v.record a b) (s'.record a b) :=
  Becomes.of_fields h.toHeap h.pcb h.currproc h.gDeviceTable h.kbd
    (congrArg (· ++ [(a, b)]) h.transfers) h.wf h.lists

/-- The end of a rendezvous, on a process that was taken out. -/
theorem unblockPeer_spec {v : View} {x : ProcView} (hv : Inv run v)
    (hwf : LawfulProcLists.WellFormed s.queues) (hs : s.view = v.take p x) (hp : p ≠ .idle)
    (hpid : x.pid = (v.proc p).pid) (hx : x.state = .blocked)
    (hfree : x.queue = .noBlocker ∧ x.peer = none) :
    ∃ s', s.unblockPeer p = some s' ∧ Becomes s (v.unblock p syspidOk) s' := by
  have hb := becomes_withRet hwf p syspidOk
  have hview : (s.withRet p syspidOk).view = v.take p { x with ret := syspidOk } := by
    rw [hb.view, hs]
    exact View.take_set v p x _
  have hblk : (s.pcb p).currState = .blocked := by
    have hsx : (s.pcb p).view = x := by rw [← view_proc, hs, View.take_proc_self]
    rw [← hx, ← hsx]
    rfl
  obtain ⟨s', hs', hb'⟩ := addPcbToQueue_take (s := s.withRet p syspidOk) hv hb.wf hview hp
    (by rw [hpid]; exact hv.pid_ne_zero hp) (t := .ready) (.inl rfl) (by simp [hx])
  refine ⟨s', ?_, ?_⟩
  · unfold unblockPeer
    rw [cAssert_pos hblk]
    exact hs'
  · have heq : ({ x with state := .ready, ret := syspidOk } : ProcView) =
        View.readied (v.proc p) syspidOk := by
      unfold View.readied
      rw [← hpid, ← hfree.1, ← hfree.2]
    rw [heq] at hb'
    exact hb.trans hb'

/-- The running process takes part in a rendezvous with a process in one of its queues. -/
theorem meet_spec (h : Good run s) (hp : p ≠ .idle) (hblk : (s.pcb p).currState = .blocked)
    {o : PcbPtr} {q : BlockingQueue} (hq : owned q) (hname : (s.pcb p).blockingQueueName = q)
    (hpeer : (s.pcb p).blockingProc = some o) :
    ∃ s1, s.removeProcFromBlockingQueue p (some o) q = some (true, s1) ∧
      s1.toHeap = s.toHeap ∧ (∀ i, s1.argOf p i = s.argOf p i) ∧
      (∀ r, (s1.pcb r).pid = (s.pcb r).pid) ∧
      ∀ (m : Memory) (a b : PcbPtr), ∃ s', ((s1.setMem m).record a b).unblockPeer p = some s' ∧
        Becomes (s.setMem m) ((s.view.record a b).unblock p syspidOk) s' := by
  obtain ⟨s1, hs1, hb1⟩ := removeProcFromBlockingQueue_in h hp hblk hq hname hpeer
  refine ⟨s1, hs1, hb1.toHeap, fun i => ?_, fun r => ?_, fun m a b => ?_⟩
  · have hargs : (s1.pcb p).args = (s.pcb p).args := by
      rw [hb1.pcb]
      rfl
    have hmem : s1.mem = s.mem := by rw [hb1.core]; rfl
    unfold Core.argOf
    rw [hargs, hmem]
  · rw [hb1.pcb]
    by_cases hr : r = p
    · subst hr
      simp [Pcb.withView, Pcb.view]
    · simp [hr, Pcb.withView, Pcb.view]
  · have hview : ((s1.setMem m).record a b).view = (s.view.record a b).take p
        { s.view.proc p with queue := .noBlocker, peer := none } := by
      show s1.view.record a b = _
      rw [hb1.view]
      rfl
    obtain ⟨s', hs', hb'⟩ := unblockPeer_spec (s := (s1.setMem m).record a b)
      (h.inv.record a b) hb1.wf hview hp rfl hblk ⟨rfl, rfl⟩
    refine ⟨s', hs', ?_⟩
    exact ((hb1.setMem m).record a b).trans hb'

/-! ## `send` -/

/-- The memory after the copy of a message. -/
def copied (m : Memory) (receiverBuf senderBuf tocopyLen : ℕ) : Memory :=
  strncpy m receiverBuf senderBuf (toInt tocopyLen)

/-- `send` to a process that receives from the sender. -/
theorem send_receiver (h : Good run s) (hd : dst ≠ .idle) (hblk : (s.pcb dst).currState = .blocked)
    (hname : (s.pcb dst).blockingQueueName = .receiver)
    (hpeer : (s.pcb dst).blockingProc = some src) (hbuf : buffer ≠ 0 ∧ 0 < len) :
    ∃ s', s.send src dst buffer len = some (syspidOk, s') ∧
      Becomes (s.setMem (copied s.mem (s.argOf dst 1) buffer (min (s.argOf dst 2) len)))
        ((s.view.record src dst).unblock dst syspidOk) s' := by
  obtain ⟨s1, hs1, hheap, hargs, -, hmeet⟩ :=
    meet_spec h hd hblk (.inr (.inl rfl) : owned .receiver) hname hpeer
  obtain ⟨s', hs', hb⟩ := hmeet (copied s.mem (s.argOf dst 1) buffer (min (s.argOf dst 2) len)) src dst
  refine ⟨s', ?_, hb⟩
  have hq1 : (s1.pcb dst).blockingQueueName ≠ .receiveAny := by
    have hq := removeProcFromBlockingQueue_in h hd hblk (.inr (.inl rfl) : owned .receiver) hname
      hpeer
    obtain ⟨s2, hs2, hb2⟩ := hq
    rw [hs1] at hs2
    obtain ⟨-, rfl⟩ := hs2
    rw [hb2.pcb]
    simp [Pcb.withView]
  have hmem : s1.mem = s.mem := congrArg Heap.mem hheap
  unfold send transfer
  rw [cAssert_pos hbuf, Option.bind_eq_bind, Option.bind_some,
    if_neg (by rw [hname]; simp), hs1, Option.bind_eq_bind, Option.bind_some]
  dsimp only
  rw [if_pos rfl, if_neg hq1, hargs, hargs, hmem]
  unfold copied at hs'
  rw [hs']
  rfl

/-- The memory after a message to a process that receives from anyone: first its `*from_pid` is
set, then its other arguments are read. -/
def sentToAny (s : KernelOf Q) (src dst : PcbPtr) (buffer len : ℕ) : Memory :=
  let m := store32 s.mem (s.argOf dst 0) (toWord (s.pcb src).pid)
  strncpy m (load32 m ((s.pcb dst).args + 4 * 1)) buffer
    (toInt (min (load32 m ((s.pcb dst).args + 4 * 2)) len))

/-- `send` to a process that receives from anyone. -/
theorem send_any (h : Good run s) (hd : dst ≠ .idle) (hblk : (s.pcb dst).currState = .blocked)
    (hname : (s.pcb dst).blockingQueueName = .receiveAny)
    (hbuf : buffer ≠ 0 ∧ 0 < len) :
    ∃ s', s.send src dst buffer len = some (syspidOk, s') ∧
      Becomes (s.setMem (s.sentToAny src dst buffer len))
        ((s.view.record src dst).unblock dst syspidOk) s' := by
  have hblk' : (s.view.proc dst).state = .blocked := hblk
  have hname' : (s.view.proc dst).queue = .receiveAny := hname
  have hpeer : (s.view.proc dst).peer = none :=
    (h.inv.consistent dst hd).alone hblk' (by rw [hname']; simp [owned])
  have hnot : ∀ i, dst ∉ s.view.lists i := by
    refine h.inv.not_mem ?_
    rw [ProcView.place_blocked hblk', hname']
    simp [owned]
  obtain ⟨m2, hm2⟩ : ∃ m2, s.sentToAny src dst buffer len = m2 := ⟨_, rfl⟩
  have hcopy : strncpy (store32 s.mem (s.argOf dst 0) (toWord (s.pcb src).pid))
      (load32 (store32 s.mem (s.argOf dst 0) (toWord (s.pcb src).pid)) ((s.pcb dst).args + 4 * 1))
      buffer (toInt (min (load32 (store32 s.mem (s.argOf dst 0) (toWord (s.pcb src).pid))
        ((s.pcb dst).args + 4 * 2)) len)) = m2 := by
    rw [← hm2]
    rfl
  rw [hm2]
  have hset : Becomes s (s.view.take dst { s.view.proc dst with queue := .noBlocker })
      (s.setPcb dst fun x => { x with blockingQueueName := .noBlocker }) := by
    rw [View.take_eq_set hnot fun x => { x with queue := .noBlocker }]
    exact becomes_setPcb h.wf dst fun x => { x with queue := .noBlocker }
  have hset := (hset.setMem m2).record src dst
  obtain ⟨s', hs', hb⟩ := unblockPeer_spec (h.inv.record src dst) hset.wf hset.view hd rfl hblk
    ⟨rfl, hpeer⟩
  refine ⟨s', ?_, hset.trans hb⟩
  unfold send transfer
  rw [cAssert_pos hbuf, Option.bind_eq_bind, Option.bind_some, if_pos hname, Option.bind_eq_bind,
    Option.bind_some]
  dsimp only
  rw [if_pos rfl, if_pos hname]
  rw [store_eq, setMem_setMem, argOf_setMem, argOf_setMem, setMem_toCore, Core.setMem_mem,
    setPcb_toCore, Core.setPcb_toHeap, Core.setPcb_pcb_self]
  dsimp only
  rw [hcopy, hs']
  rfl

/-- `send` to a process that does not wait for the sender. -/
theorem send_blocks (h : Good run s) (hnot : ∀ i, src ∉ s.view.lists i)
    (hany : (s.pcb dst).blockingQueueName ≠ .receiveAny)
    (hrecv : (s.pcb dst).blockingQueueName ≠ .receiver ∨ (s.pcb dst).blockingProc ≠ some src)
    (hbuf : buffer ≠ 0 ∧ 0 < len) :
    ∃ s', s.send src dst buffer len = some (blockerr, s') ∧
      Becomes s (s.view.enqueue src dst .sender) s' := by
  obtain ⟨s', hs', hb⟩ := addProcToBlockingQueue_spec h.wf hnot dst .sender
  refine ⟨s', ?_, hb⟩
  unfold send
  rw [cAssert_pos hbuf, Option.bind_eq_bind, Option.bind_some, if_neg hany,
    removeProcFromBlockingQueue_not_in src .receiver hrecv, Option.bind_eq_bind, Option.bind_some]
  dsimp only
  rw [if_neg (by simp), hs']
  rfl

/-! ## `recv` and `recv_any` -/

/-- `recv` from a process that sends to the receiver. -/
theorem recv_sender (h : Good run s) (hs : src ≠ .idle) (hblk : (s.pcb src).currState = .blocked)
    (hname : (s.pcb src).blockingQueueName = .sender)
    (hpeer : (s.pcb src).blockingProc = some dst) (hbuf : buffer ≠ 0 ∧ 0 < len) :
    ∃ s', s.recv src dst buffer len = some (syspidOk, s') ∧
      Becomes (s.setMem (copied s.mem buffer (s.argOf src 1) (min (s.argOf src 2) len)))
        ((s.view.record src dst).unblock src syspidOk) s' := by
  obtain ⟨s1, hs1, hheap, hargs, -, hmeet⟩ :=
    meet_spec h hs hblk (.inl rfl : owned .sender) hname hpeer
  obtain ⟨s', hs', hb⟩ := hmeet (copied s.mem buffer (s.argOf src 1) (min (s.argOf src 2) len)) src dst
  refine ⟨s', ?_, hb⟩
  have hmem : s1.mem = s.mem := congrArg Heap.mem hheap
  unfold recv transfer
  rw [cAssert_pos hbuf, Option.bind_eq_bind, Option.bind_some, hs1, Option.bind_eq_bind,
    Option.bind_some]
  dsimp only
  rw [if_pos rfl, hargs, hargs, hmem]
  unfold copied at hs'
  rw [hs']
  rfl

/-- `recv` from a process that does not send to the receiver. -/
theorem recv_blocks (h : Good run s) (hnot : ∀ i, dst ∉ s.view.lists i)
    (hsend : (s.pcb src).blockingQueueName ≠ .sender ∨ (s.pcb src).blockingProc ≠ some dst)
    (hbuf : buffer ≠ 0 ∧ 0 < len) :
    ∃ s', s.recv src dst buffer len = some (blockerr, s') ∧
      Becomes s (s.view.enqueue dst src .receiver) s' := by
  obtain ⟨s', hs', hb⟩ := addProcToBlockingQueue_spec h.wf hnot src .receiver
  refine ⟨s', ?_, hb⟩
  unfold recv
  rw [cAssert_pos hbuf, Option.bind_eq_bind, Option.bind_some,
    removeProcFromBlockingQueue_not_in dst .sender hsend, Option.bind_eq_bind, Option.bind_some]
  dsimp only
  rw [if_neg (by simp), hs']
  rfl

/-- The memory after `recv_any` took a message: first `*from_pid` is set, then the arguments of the
sender are read. -/
def receivedFromAny (s : KernelOf Q) (src dst : PcbPtr) (buffer len : ℕ) : Memory :=
  let m := store32 s.mem (s.argOf dst 0) (toWord (s.pcb src).pid)
  strncpy m buffer (load32 m ((s.pcb src).args + 4 * 1))
    (toInt (min (load32 m ((s.pcb src).args + 4 * 2)) len))

/-- `recv_any` with a process sending to the receiver. -/
theorem recvAny_sender (h : Good run s) {rest : List PcbPtr}
    (hl : s.view.lists (.queue (.blocking dst .sender)) = src :: rest)
    (hbuf : buffer ≠ 0 ∧ 0 < len) :
    ∃ s', s.recvAny dst buffer len = some (syspidOk, s') ∧
      Becomes (s.setMem (s.receivedFromAny src dst buffer len))
        ((s.view.record src dst).unblock src syspidOk) s' := by
  obtain ⟨hsi, hblk, -, hname, hpeer⟩ := queue_blocked h.inv (p := src) (o := dst) (q := .sender)
    (by rw [hl]; simp)
  have hhead : ProcLists.head s.queues (.blocking dst .sender) = some src :=
    (LawfulProcLists.head h.wf _).trans (congrArg List.head? hl)
  obtain ⟨s1, hs1, hb1⟩ :=
    removeProcFromBlockingQueue_in h hsi hblk (.inl rfl : owned .sender) hname hpeer
  obtain ⟨s2, hs2, hheap, -, hpids, hmeet⟩ :=
    meet_spec h hsi hblk (.inl rfl : owned .sender) hname hpeer
  rw [hs1] at hs2
  obtain ⟨-, rfl⟩ := hs2
  have hmem : s1.mem = s.mem := congrArg Heap.mem hheap
  have hargs : ∀ q, (s1.pcb q).args = (s.pcb q).args := fun q => by
    rw [hb1.pcb]
    rfl
  have hfrom : s1.argOf dst 0 = s.argOf dst 0 := by
    unfold Core.argOf
    rw [hmem, hargs]
  obtain ⟨m2, hm2⟩ : ∃ m2, s.receivedFromAny src dst buffer len = m2 := ⟨_, rfl⟩
  have hcopy : strncpy (store32 s.mem (s.argOf dst 0) (toWord (s.pcb src).pid)) buffer
      (load32 (store32 s.mem (s.argOf dst 0) (toWord (s.pcb src).pid)) ((s.pcb src).args + 4 * 1))
      (toInt (min (load32 (store32 s.mem (s.argOf dst 0) (toWord (s.pcb src).pid))
        ((s.pcb src).args + 4 * 2)) len)) = m2 := by
    rw [← hm2]
    rfl
  rw [hm2]
  obtain ⟨s', hs', hb⟩ := hmeet m2 src dst
  refine ⟨s', ?_, hb⟩
  unfold recvAny transfer
  rw [cAssert_pos hbuf, Option.bind_eq_bind, Option.bind_some, hhead]
  dsimp only
  rw [hs1, Option.bind_eq_bind, Option.bind_some]
  dsimp only
  rw [if_pos rfl, store_eq, setMem_setMem, argOf_setMem, argOf_setMem, setMem_toCore,
    Core.setMem_mem, hargs, hfrom, hpids, hmem]
  rw [hcopy, hs']
  rfl

/-- `recv_any` with nobody sending to the receiver. -/
theorem recvAny_blocks (h : Good run s)
    (hl : s.view.lists (.queue (.blocking dst .sender)) = []) (hbuf : buffer ≠ 0 ∧ 0 < len) :
    s.recvAny dst buffer len =
      some (blockerr, s.setPcb dst fun x => { x with blockingQueueName := .receiveAny }) := by
  have hhead : ProcLists.head s.queues (.blocking dst .sender) = none :=
    (LawfulProcLists.head h.wf _).trans (congrArg List.head? hl)
  unfold recvAny
  rw [cAssert_pos hbuf, Option.bind_eq_bind, Option.bind_some, hhead]

end Xeros.Model.KernelOf
