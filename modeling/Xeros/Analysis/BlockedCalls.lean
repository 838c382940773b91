import Mathlib.Data.Nat.Count
import Xeros.Abstract.Steps
import Xeros.Analysis.Rendezvous
import Xeros.Refinement.Lifetimes

/-!
# Answers of blocked calls

A process that blocks in a call has its return code set in advance, to the one it gets when the
other process ends.  A rendezvous or a signal replaces it.  So the code that the call returns tells
what ended it, and every transfer of a message answers one send and one receive.
-/

set_option autoImplicit false

namespace Xeros.Analysis

open Xeros.Foundations Xeros.Model Xeros.Abstract Xeros.Interface KernelOf

/-- The process that is blocked in the queue `q` waits for another process to act. -/
def WaitsForOther (q : BlockingQueue) : Prop :=
  q = .sender ∨ q = .receiver ∨ q = .receiveAny ∨ q = .waiting

/-- The return code that is set when a process blocks. -/
def presetRet : BlockingQueue → ℤ
  | .sender | .receiver | .receiveAny => syspidDne
  | _ => 0

/-- Processes that wait for another one have the return code set in advance. -/
def Preset (v : View) : Prop :=
  ∀ p, p ≠ .idle → (v.proc p).state = .blocked → WaitsForOther (v.proc p).queue →
    (v.proc p).ret = presetRet (v.proc p).queue

/-- What ends the call in which `p` is blocked, in the turn from `s` to `s'` that handles `req`, and
the code that the call returns. -/
inductive CallEnds (s : Kernel) (req : SyscallRequest) (s' : Kernel) (p : PcbPtr) : ℤ → Prop where
  /-- the running process sends to `p` -/
  | received (hreq : req = .send)
      (hq : (s.pcb p).blockingQueueName = .receiveAny ∨
        (s.pcb p).blockingQueueName = .receiver ∧ (s.pcb p).blockingProc = some s.currproc)
      (ht : s'.transfers = s.transfers ++ [(s.currproc, p)])
      (hret : (s'.pcb s.currproc).ret = syspidOk) : CallEnds s req s' p syspidOk
  /-- the running process receives from `p` -/
  | sent (hreq : req = .recv)
      (hq : (s.pcb p).blockingQueueName = .sender ∧ (s.pcb p).blockingProc = some s.currproc)
      (ht : s'.transfers = s.transfers ++ [(p, s.currproc)])
      (hret : (s'.pcb s.currproc).ret = syspidOk) : CallEnds s req s' p syspidOk
  /-- the running process, for which `p` waits, ends -/
  | otherEnded (hreq : req = .stop ∨ req = .sigreturn)
      (ho : (s.pcb p).blockingProc = some s.currproc)
      (hend : (s'.pcb s.currproc).currState = .stopped) (ht : s'.transfers = s.transfers) :
      CallEnds s req s' p (presetRet (s.pcb p).blockingQueueName)
  | signalled (hreq : req = .kill) (hp : s.Signals p) (ht : s'.transfers = s.transfers) :
      CallEnds s req s' p (signalledRet (s.pcb p).blockingQueueName 0)

variable {s s' : Kernel} {v w : View} {e : Event} {req : SyscallRequest} {p : PcbPtr} {r : ℤ}

/-! ## Codes set in advance -/

/-- Whoever blocks gets its code in the same turn. -/
theorem Handled.preset (hh : Handled s req e) :
    (∀ o q r, e = .block o q r → r = presetRet q) ∧
      ∀ q r, e = .blockAlone q r → r = presetRet q := by
  constructor
  · intro o q r he
    subst he
    cases hh <;> rfl
  · intro q r he
    subst he
    cases hh
    rfl

theorem Preset.step (h : Preset s.view) (hs : Sound s.view) (hh : Handled s req e)
    (he : e.Enabled s.view) : Preset (e.apply s.view) := by
  intro p hp hb hq
  obtain ⟨hqueue, halone⟩ := Handled.preset hh
  have hstep := Event.proc_step hs he p
  generalize (e.apply s.view).proc p = y at hb hq hstep ⊢
  cases hstep with
  | same hy =>
    subst hy
    exact h p hp hb hq
  | counted hsl r hy =>
    have hsleep := (sleeper_state hs.inv hsl).2.2
    subst hy
    have hname : (s.view.proc p).queue = .sender ∨ (s.view.proc p).queue = .receiver ∨
      (s.view.proc p).queue = .receiveAny ∨ (s.view.proc p).queue = .waiting := hq
    rw [hsleep] at hname
    simp at hname
  | resumed _ hy =>
    subst hy
    exact absurd hb (by simp)
  | readied r _ _ _ hy =>
    rcases hy with hy | hy <;> rw [hy] at hb <;> exact absurd hb (by simp [View.readied])
  | reused _ hy => exact absurd hb hy
  | current _ hy =>
    cases hy hb with
    | queue o q r => exact hqueue o q r rfl
    | alone q r => exact halone q r rfl
    | sleep t r =>
      rcases hq with hq | hq | hq | hq <;> exact absurd hq (by simp [View.asleep])

/-- Only the running process has another return code when its handler starts. -/
theorem Preset.setRet_current (h : Preset v) (hv : Inv (some v.currproc) v) (r : ℤ) :
    Preset (v.setRet v.currproc r) := by
  intro p hp hb hq
  by_cases hc : p = v.currproc
  · rw [hc, View.setRet_proc_self] at hb
    have hrun := hv.running_self
    rw [hrun] at hb
    simp at hb
  · rw [View.setRet_proc_ne v r hc] at hb hq ⊢
    exact h p hp hb hq

/-- After booting no process of the table is blocked. -/
theorem boot_unblocked {image : Image} {mem : Memory} {root : ℕ}
    (hs : (boot image mem root : Option Kernel) = some s) (hp : p ≠ .idle) :
    (s.pcb p).currState ≠ .blocked := by
  obtain ⟨s1, b, ⟨r, s2⟩, htable, -, htr, hr, hs⟩ := boot_stages hs
  have h1 : ∀ i, (s1.pcb (.table i)).currState ≠ .blocked := by
    intro i
    rw [htable.table]
    simp [tablePcb]
  have h2 : ∀ i, (s2.pcb (.table i)).currState ≠ .blocked := by
    intro i
    cases create_outcome hr with
    | failed heap => exact h1 i
    | filled q k heap x hq hpid hfd hx =>
      by_cases hqi : .table i = q
      · rw [hqi, withSlot_pcb_self]
        rcases hx with hx | hx <;> rw [hx] <;> simp
      · rw [withSlot_pcb_ne _ _ _ hqi]
        exact h1 i
  have hrest := (htable.atRest htr).create hr
  obtain ⟨s3, hs3, hb3⟩ := (Becomes.refl hrest.good.wf).then_reschedule hrest.good.inv
  rw [hs] at hs3
  obtain rfl := Option.some.inj hs3
  cases p with
  | idle => exact absurd rfl hp
  | table i =>
    rw [hb3.pcb]
    rcases dispatch_proc hrest.good.inv (.table i) with heq | ⟨-, heq⟩
    · rw [heq]
      exact h2 i
    · rw [heq]
      simp [Pcb.withView]

/-- In every state of every run with no device open, blocked processes have their codes. -/
theorem run_preset (r : Run Links) {n : ℕ} (hn : n ≤ r.len) (hd : r.Deviceless n) :
    Preset (r.state n).view := by
  induction n with
  | zero =>
    intro p hp hb
    exact absurd hb (boot_unblocked r.start hp)
  | succ n ih =>
    obtain ⟨s, req, e, -, -, hready, hview, hh, he, hv⟩ := r.event hn hd
    have hpre := ih (by omega) (hd.mono n.le_succ)
    have hinv := (r.ready (by omega) (hd.mono n.le_succ)).sound.inv
    rw [hv]
    refine Preset.step ?_ hready.sound hh he
    rw [hview]
    exact hpre.setRet_current hinv _

/-! ## The end of a blocked call -/

theorem WaitsForOther.ne_sleep {q : BlockingQueue} (h : WaitsForOther q) : q ≠ .sleep := by
  rcases h with h | h | h | h <;> rw [h] <;> simp

/-- A signal gives a process that waits for another one a code of its own. -/
theorem WaitsForOther.signalledRet_eq {q : BlockingQueue} (h : WaitsForOther q) (r : ℤ) :
    signalledRet q r = signalledRet q 0 := by
  rcases h with h | h | h | h <;> rw [h] <;> rfl

/-- The running process of a state in which it ended is stopped. -/
theorem exit_stopped (hs : Sound v) (he : Event.exit.Enabled v) :
    ((Event.exit.apply v).proc v.currproc).state = .stopped := by
  have ht := terminate_spec hs.inv he
  have hstopped : (v.terminate.proc v.currproc).state = .stopped := by rw [ht.self]
  show (v.terminate.dispatch.proc v.currproc).state = _
  rcases dispatch_proc ht.inv v.currproc with heq | ⟨hready | hidle, -⟩
  · rw [heq, hstopped]
  · rw [hstopped] at hready
    exact absurd hready (by simp)
  · exact absurd hidle he

/-- A process that was blocked and is not any more got its return code from what ended its call. -/
theorem callEnds_of_event (hr : Ready s) (hpre : Preset s.view) (hh : Handled s req e)
    (he : e.Enabled s.view) (hv : s'.view = e.apply s.view) (hp : p ≠ .idle)
    (hb : (s.pcb p).currState = .blocked) (hq : WaitsForOther (s.pcb p).blockingQueueName)
    (hn : (s'.pcb p).currState ≠ .blocked) :
    CallEnds s req s' p (s'.pcb p).ret ∧
      ((s'.pcb p).currState = .ready ∨ (s'.pcb p).currState = .running) := by
  have hsound := hr.sound
  have hpc : p ≠ s.currproc := by
    intro hpc
    rw [hpc, hr.running] at hb
    exact absurd hb (by simp)
  have hproc : ∀ x, (s'.pcb x).view = (e.apply s.view).proc x := by
    intro x
    rw [← hv]
    rfl
  have ht : s'.transfers = s.transfers ++ e.transferred := by
    have htr := Event.apply_transfers hsound he
    rw [← hv] at htr
    exact htr
  rcases Event.blocked_step hsound he hp hb hq.ne_sleep with hsame | ⟨r, hu, hy⟩
  · rw [← hproc] at hsame
    have hst : (s'.pcb p).currState = (s.pcb p).currState := congrArg ProcView.state hsame
    rw [hst] at hn
    exact absurd hb hn
  rw [← hproc] at hy
  have hret : (s'.pcb p).ret = r := by rcases hy with hy | hy <;> exact congrArg ProcView.ret hy
  have hstate : (s'.pcb p).currState = .ready ∨ (s'.pcb p).currState = .running := by
    rcases hy with hy | hy
    · exact .inl (congrArg ProcView.state hy)
    · exact .inr (congrArg ProcView.state hy)
  refine ⟨?_, hstate⟩
  rw [hret]
  -- the running process of a rendezvous gets its answer, too
  have hself : ∀ src dst, e = .deliver src dst → (s'.pcb s.currproc).ret = syspidOk := by
    intro src dst hed
    have hc := hproc s.currproc
    rw [hed] at hc
    refine (congrArg ProcView.ret hc).trans ?_
    show ((View.setRet _ s.currproc syspidOk).proc s.currproc).ret = syspidOk
    rw [View.setRet_proc_self]
  cases hu with
  | signalled r hsr =>
    cases hh with
    | kill _ hsig =>
      have heq : r = signalledRet (s.pcb p).blockingQueueName 0 :=
        (hsr hq.ne_sleep).trans (hq.signalledRet_eq _)
      rw [heq]
      exact .signalled rfl hsig (ht.trans (List.append_nil _))
  | met src dst hm hpeer =>
    have hrunning : ∀ x, (s.view.proc x).state = .blocked → x ≠ s.currproc := by
      intro x hx hxc
      rw [hxc] at hx
      exact hr.current_not_blocked hx
    cases hh with
    | sendMeets _ hd =>
      have hpd : dst = p := by
        rw [← hpeer]
        exact (if_pos rfl).symm
      rw [hpd] at hm ht
      rcases hm with ⟨-, -, -, hqueue⟩ | ⟨hpcur, -⟩
      · exact .received rfl hqueue ht (hself _ _ rfl)
      · exact absurd hpcur hpc
    | recvMeets _ hs =>
      rcases hm with ⟨-, -, hblocked, -⟩ | ⟨-, -, hblocked, hqueue, hpeer'⟩
      · exact absurd rfl (hrunning _ hblocked)
      · have hpd : src = p := by
          rw [← hpeer]
          exact (if_neg (hrunning _ hblocked)).symm
        rw [hpd] at hqueue hpeer' ht
        exact .sent rfl ⟨hqueue, hpeer'⟩ ht (hself _ _ rfl)
  | ended hpeer =>
    have hcode : (s.view.proc p).ret = presetRet (s.pcb p).blockingQueueName := hpre p hp hb hq
    rw [hcode]
    have hend : (s'.pcb s.currproc).currState = .stopped :=
      (congrArg ProcView.state (hproc s.currproc)).trans (exit_stopped hsound he)
    have hnone : s'.transfers = s.transfers := ht.trans (List.append_nil _)
    cases hh with
    | stop => exact .otherEnded (.inl rfl) hpeer hend hnone
    | badSigreturn => exact .otherEnded (.inr rfl) hpeer hend hnone
  | due hsleep => exact absurd hsleep hq.ne_sleep
  | read r => cases hh

/-- In every run with no device open, the code that a blocked call returns is the one of the event
that ended it: the rendezvous, the end of the other process, or a signal. -/
theorem blocked_call_answer (r : Run Links) {n : ℕ} (hn : n < r.len) (hd : r.Deviceless (n + 1))
    (i : Fin pcbTableSize) (hb : ((r.state n).pcb (.table i)).currState = .blocked)
    (hq : WaitsForOther ((r.state n).pcb (.table i)).blockingQueueName)
    (hend : ((r.state (n + 1)).pcb (.table i)).currState ≠ .blocked) :
    ∃ s req, (r.state n).atTrap (r.input n) = some s ∧ (r.input n).request = some req ∧
      CallEnds s req (r.state (n + 1)) (.table i) ((r.state (n + 1)).pcb (.table i)).ret ∧
      (((r.state (n + 1)).pcb (.table i)).currState = .ready ∨
        ((r.state (n + 1)).pcb (.table i)).currState = .running) := by
  obtain ⟨s, req, e, hs, hreq, hready, hview, hh, he, hv⟩ := r.event hn hd
  have hprev := r.ready hn.le (hd.mono n.le_succ)
  have hi : PcbPtr.table i ≠ (r.state n).currproc := by
    intro hi
    rw [hi, hprev.running] at hb
    exact absurd hb (by simp)
  have hproc : (s.pcb (.table i)).view = ((r.state n).pcb (.table i)).view := by
    show s.view.proc _ = _
    rw [hview, View.setRet_proc_ne _ _ hi]
    rfl
  have hpre : Preset s.view := by
    rw [hview]
    exact (run_preset r hn.le (hd.mono n.le_succ)).setRet_current hprev.sound.inv _
  have hqueue : (s.pcb (.table i)).blockingQueueName =
      ((r.state n).pcb (.table i)).blockingQueueName := congrArg ProcView.queue hproc
  rw [← hqueue] at hq
  refine ⟨s, req, hs, hreq, ?_⟩
  exact callEnds_of_event hready hpre hh he hv (by simp)
    ((congrArg ProcView.state hproc).trans hb) hq hend

/-- In the run of `rendezvousScript` the send of process 34 ends in success. -/
theorem blocked_call_answer_send : ∃ r : Run Links, ∃ s req,
    (r.state 3).atTrap (r.input 3) = some s ∧ (r.input 3).request = some req ∧
      CallEnds s req (r.state 4) (.table 1) syspidOk := by
  obtain ⟨r, hlen, hcheck, hin, htest⟩ := exists_run (Q := Links) smallPc 40300
    (fun _ t => KernelOf.Deviceless t) rendezvousScript (fun n s => decide
      ((n = 3 → (s.pcb (.table 1)).currState = .blocked ∧
        (s.pcb (.table 1)).blockingQueueName = .sender) ∧
      (n = 4 → (s.pcb (.table 1)).currState ≠ .blocked ∧ (s.pcb (.table 1)).ret = syspidOk)))
    (by decide +kernel)
  obtain ⟨hb, hq⟩ := (of_decide_eq_true (htest 3 (by decide))).1 rfl
  obtain ⟨hn, hret⟩ := (of_decide_eq_true (htest 4 (by decide))).2 rfl
  have hlen4 : r.len = 4 := hlen
  have hd : r.Deviceless 4 := fun k hk => hcheck k (by omega)
  obtain ⟨s, req, hs, hreq, hends, -⟩ := blocked_call_answer r (by omega) hd 1 hb (.inl hq) hn
  rw [hret] at hends
  exact ⟨r, s, req, hs, hreq, hends⟩

/-! ## Every transfer answers two calls -/

/-- In step `k` the process `p` is answered with success: its request `call`, or the call in which it
is blocked in one of the queues. -/
def CompletesCall (r : Run Links) (call : SyscallRequest) (queues : List BlockingQueue)
    (p : PcbPtr) (k : ℕ) : Prop :=
  ((r.state (k + 1)).pcb p).ret = syspidOk ∧ ((r.state (k + 1)).pcb p).currState ≠ .blocked ∧
    ((r.state k).currproc = p ∧ (r.input k).request = some call ∨
      ((r.state k).pcb p).currState = .blocked ∧ ((r.state k).pcb p).blockingQueueName ∈ queues)

instance (r : Run Links) (call : SyscallRequest) (queues : List BlockingQueue) (p : PcbPtr) :
    DecidablePred (CompletesCall r call queues p) := fun _ =>
  inferInstanceAs (Decidable (_ ∧ _ ∧ (_ ∨ _)))

/-- In step `k` a `syssend` of `p` is answered with success. -/
abbrev CompletesSend (r : Run Links) : PcbPtr → ℕ → Prop := CompletesCall r .send [.sender]

/-- In step `k` a `sysrecv` of `p` is answered with success. -/
abbrev CompletesReceive (r : Run Links) : PcbPtr → ℕ → Prop :=
  CompletesCall r .recv [.receiver, .receiveAny]

/-- Whoever blocks in a call is blocked when the next process is dispatched. -/
theorem block_blocked {o : PcbPtr} {q : BlockingQueue} (hs : Sound v)
    (he : (Event.block o q r).Enabled v) :
    (((Event.block o q r).apply v).proc v.currproc).state = .blocked := by
  obtain ⟨hcur, ho, hos, hq⟩ := he
  have hb : ((v.block o q r).proc v.currproc).state = .blocked := by
    rw [View.block, View.move_proc_self]
  show ((v.block o q r).dispatch.proc v.currproc).state = _
  rcases dispatch_proc (hs.inv.block hcur ho hos hq r) v.currproc with heq | ⟨hready | hidle, -⟩
  · rw [heq, hb]
  · rw [hb] at hready
    exact absurd hready (by simp)
  · exact absurd hidle hcur

theorem blockAlone_blocked {q : BlockingQueue} (hs : Sound v)
    (he : (Event.blockAlone q r).Enabled v) :
    (((Event.blockAlone q r).apply v).proc v.currproc).state = .blocked := by
  obtain ⟨hcur, hq⟩ := he
  have hb : ((v.blockAlone q r).proc v.currproc).state = .blocked := by
    rw [View.blockAlone, View.move_proc_self]
  show ((v.blockAlone q r).dispatch.proc v.currproc).state = _
  rcases dispatch_proc (hs.inv.blockAlone hcur hq r) v.currproc with heq | ⟨hready | hidle, -⟩
  · rw [heq, hb]
  · rw [hb] at hready
    exact absurd hready (by simp)
  · exact absurd hidle hcur

/-- A message call that is answered at once fails, or is a rendezvous. -/
theorem Handled.message (hs : Sound s.view) (hh : Handled s req e) (he : e.Enabled s.view)
    (hreq : req = .send ∨ req = .recv)
    (hn : ((e.apply s.view).proc s.currproc).state ≠ .blocked)
    (hret : ((e.apply s.view).proc s.currproc).ret = syspidOk) :
    ∃ src dst, e = .deliver src dst := by
  cases hh with
  | immediate _ r hr =>
    have hrr : ((s.view.setRet s.currproc r).proc s.currproc).ret = syspidOk := hret
    rw [View.setRet_proc_self] at hrr
    obtain rfl : r = syspidOk := hrr
    have hcode : syspidOk = syspidMe ∨ syspidOk = syserrOther ∨ syspidOk = syspidDne := by
      rcases hreq with hreq | hreq <;> subst hreq <;> exact hr
    exact absurd hcode (by decide)
  | sendBlocks o ho hno => exact absurd (block_blocked hs he) hn
  | recvBlocks o ho hno => exact absurd (block_blocked hs he) hn
  | recvAnyBlocks h0 hno => exact absurd (blockAlone_blocked hs he) hn
  | sendMeets dst hd => exact ⟨_, _, rfl⟩
  | recvMeets src hs => exact ⟨_, _, rfl⟩
  | _ => simp at hreq

/-- The two processes of a rendezvous: the one that runs and makes the request `req`, and the one
that is blocked. -/
inductive Meeting (s : Kernel) : SyscallRequest → PcbPtr → PcbPtr → Prop where
  | send (dst : PcbPtr) (hb : (s.pcb dst).currState = .blocked)
      (hq : (s.pcb dst).blockingQueueName ∈ [BlockingQueue.receiver, .receiveAny]) :
      Meeting s .send s.currproc dst
  | recv (src : PcbPtr) (hb : (s.pcb src).currState = .blocked)
      (hq : (s.pcb src).blockingQueueName = .sender) : Meeting s .recv src s.currproc

theorem Handled.meeting (hr : Ready s) {src dst : PcbPtr}
    (hh : Handled s req (.deliver src dst)) (he : (Event.deliver src dst).Enabled s.view) :
    Meeting s req src dst := by
  have hrunning : (s.pcb s.currproc).currState ≠ .blocked := hr.current_not_blocked
  obtain ⟨-, hm⟩ := he
  cases hh with
  | sendMeets _ hd =>
    rcases hm with ⟨-, -, hb, hq⟩ | ⟨-, -, hb, -⟩
    · refine .send dst hb ?_
      rcases hq with hq | ⟨hq, -⟩
      · rw [show (s.pcb dst).blockingQueueName = _ from hq]
        simp
      · rw [show (s.pcb dst).blockingQueueName = _ from hq]
        simp
    · exact absurd hb hrunning
  | recvMeets _ hs =>
    rcases hm with ⟨-, -, hb, -⟩ | ⟨-, -, hb, hq, -⟩
    · exact absurd hb hrunning
    · exact .recv src hb hq

/-- After a rendezvous its two processes have their answers, and nobody else stopped waiting. -/
theorem deliver_answers {src dst : PcbPtr} (hr : Ready s)
    (he : (Event.deliver src dst).Enabled s.view)
    (hv : s'.view = (Event.deliver src dst).apply s.view) (p : PcbPtr) :
    (p = src ∨ p = dst → (s'.pcb p).ret = syspidOk ∧ (s'.pcb p).currState ≠ .blocked) ∧
      (p ≠ src → p ≠ dst → (s.pcb p).currState = .blocked → (s'.pcb p).currState = .blocked) := by
  have hpc : Event.peer s.view src dst ≠ s.currproc :=
    (Event.peer_state hr.sound.inv he.2).2.2.2
  have hproc : ∀ x, (s'.pcb x).view = ((Event.deliver src dst).apply s.view).proc x := by
    intro x
    rw [← hv]
    rfl
  -- the view before the running process gets its answer
  obtain ⟨w, hw⟩ : ∃ w, w = (s.view.record src dst).unblock (Event.peer s.view src dst) syspidOk :=
    ⟨_, rfl⟩
  have happ : (Event.deliver src dst).apply s.view = w.setRet s.currproc syspidOk := by
    rw [hw]
    rfl
  rw [happ] at hproc
  have hother : ∀ x, x ≠ Event.peer s.view src dst → w.proc x = s.view.proc x := by
    intro x hx
    rw [hw]
    exact View.move_proc_ne _ _ hx
  have hcur : (s'.pcb s.currproc).ret = syspidOk ∧ (s'.pcb s.currproc).currState ≠ .blocked := by
    have hc := hproc s.currproc
    rw [View.setRet_proc_self, hother _ hpc.symm] at hc
    refine ⟨congrArg ProcView.ret hc, ?_⟩
    rw [show (s'.pcb s.currproc).currState = _ from congrArg ProcView.state hc]
    exact hr.current_not_blocked
  have hpeer : (s'.pcb (Event.peer s.view src dst)).ret = syspidOk ∧
      (s'.pcb (Event.peer s.view src dst)).currState ≠ .blocked := by
    have hp := hproc (Event.peer s.view src dst)
    rw [View.setRet_proc_ne _ _ hpc, hw, View.unblock, View.move_proc_self] at hp
    refine ⟨congrArg ProcView.ret hp, ?_⟩
    rw [show (s'.pcb _).currState = _ from congrArg ProcView.state hp]
    simp [View.readied]
  have hends : ∀ x, x = src ∨ x = dst ↔ x = s.currproc ∨ x = Event.peer s.view src dst := by
    intro x
    unfold Event.peer
    rcases he.2 with ⟨hsrc, -⟩ | ⟨hdst, -, hb, -⟩
    · rw [if_pos hsrc, hsrc]
      rfl
    · have hne : src ≠ s.view.currproc := by
        intro h
        rw [h] at hb
        exact hr.current_not_blocked hb
      rw [if_neg hne, hdst]
      exact or_comm
  constructor
  · intro hp
    rcases (hends p).mp hp with hp | hp
    · rw [hp]
      exact hcur
    · rw [hp]
      exact hpeer
  · intro hsrc hdst hb
    have hne : ¬ (p = s.currproc ∨ p = Event.peer s.view src dst) := fun h =>
      ((hends p).mpr h).elim hsrc hdst
    have hp := hproc p
    rw [View.setRet_proc_ne _ _ fun h => hne (.inl h), hother p fun h => hne (.inr h)] at hp
    exact (congrArg ProcView.state hp).trans hb

/-- In the turn from `s` to `s'` the process `p` is answered with success, as in `CompletesCall`. -/
def Completes (s : Kernel) (req : SyscallRequest) (s' : Kernel) (call : SyscallRequest)
    (queues : List BlockingQueue) (p : PcbPtr) : Prop :=
  (s'.pcb p).ret = syspidOk ∧ (s'.pcb p).currState ≠ .blocked ∧
    (s.currproc = p ∧ req = call ∨
      (s.pcb p).currState = .blocked ∧ (s.pcb p).blockingQueueName ∈ queues)

instance (s : Kernel) (req : SyscallRequest) (s' : Kernel) (call : SyscallRequest)
    (queues : List BlockingQueue) (p : PcbPtr) : Decidable (Completes s req s' call queues p) :=
  inferInstanceAs (Decidable (_ ∧ _ ∧ (_ ∨ _)))

/-- A rendezvous answers the send of its one process and the receive of the other. -/
theorem Meeting.completes {src dst : PcbPtr} (hm : Meeting s req src dst) (hr : Ready s)
    (he : (Event.deliver src dst).Enabled s.view)
    (hv : s'.view = (Event.deliver src dst).apply s.view) (p : PcbPtr) :
    (Completes s req s' .send [.sender] p ↔ src = p) ∧
      (Completes s req s' .recv [.receiver, .receiveAny] p ↔ dst = p) := by
  obtain ⟨hanswered, hother⟩ := deliver_answers hr he hv p
  have hrunning := hr.current_not_blocked
  -- whoever completes a call is one of the two
  have hone : ∀ {call queues}, Completes s req s' call queues p → p = src ∨ p = dst := by
    rintro call queues ⟨-, hn, hp⟩
    by_contra hno
    obtain ⟨hsrc, hdst⟩ := not_or.mp hno
    rcases hp with ⟨hc, -⟩ | ⟨hb, -⟩
    · cases hm with
      | send => exact hsrc hc.symm
      | recv => exact hdst hc.symm
    · exact hn (hother hsrc hdst hb)
  constructor
  · constructor
    · intro h
      rcases hone h with hp | hp
      · exact hp.symm
      · obtain ⟨-, -, hp'⟩ := h
        cases hm with
        | send _ hb hq =>
          rw [hp] at hp'
          rcases hp' with ⟨hc, -⟩ | ⟨-, hq'⟩
          · rw [← hc] at hb
            exact absurd hb hrunning
          · rw [List.mem_singleton.mp hq'] at hq
            simp at hq
        | recv _ hb hq =>
          rw [hp] at hp'
          rcases hp' with ⟨-, hreq⟩ | ⟨hb', -⟩
          · simp at hreq
          · exact absurd hb' hrunning
    · intro hp
      obtain ⟨hret, hst⟩ := hanswered (.inl hp.symm)
      refine ⟨hret, hst, ?_⟩
      cases hm with
      | send => exact .inl ⟨hp, rfl⟩
      | recv _ hb hq =>
        rw [← hp]
        exact .inr ⟨hb, List.mem_singleton.mpr hq⟩
  · constructor
    · intro h
      rcases hone h with hp | hp
      · obtain ⟨-, -, hp'⟩ := h
        cases hm with
        | send _ hb hq =>
          rw [hp] at hp'
          rcases hp' with ⟨-, hreq⟩ | ⟨hb', -⟩
          · simp at hreq
          · exact absurd hb' hrunning
        | recv _ hb hq =>
          rw [hp] at hp'
          rcases hp' with ⟨hc, -⟩ | ⟨-, hq'⟩
          · rw [← hc] at hb
            exact absurd hb hrunning
          · rw [hq] at hq'
            simp at hq'
      · exact hp.symm
    · intro hp
      obtain ⟨hret, hst⟩ := hanswered (.inr hp.symm)
      refine ⟨hret, hst, ?_⟩
      cases hm with
      | send _ hb hq =>
        rw [← hp]
        exact .inr ⟨hb, hq⟩
      | recv => exact .inl ⟨hp, rfl⟩

/-- Without a rendezvous no message call is answered with success. -/
theorem not_completes (hr : Ready s) (hpre : Preset s.view) (hh : Handled s req e)
    (he : e.Enabled s.view) (hv : s'.view = e.apply s.view) (hno : ∀ src dst, e ≠ .deliver src dst)
    {call : SyscallRequest} (hcall : call = .send ∨ call = .recv) {queues : List BlockingQueue}
    (hqueues : ∀ q ∈ queues, q = .sender ∨ q = .receiver ∨ q = .receiveAny) (hp : p ≠ .idle) :
    ¬ Completes s req s' call queues p := by
  rintro ⟨hret, hn, ⟨hc, hreq⟩ | ⟨hb, hq⟩⟩
  · have hproc : (s'.pcb p).view = (e.apply s.view).proc p := by
      rw [← hv]
      rfl
    rw [← hc] at hproc hret hn
    rw [show (s'.pcb _).ret = _ from congrArg ProcView.ret hproc] at hret
    rw [show (s'.pcb _).currState = _ from congrArg ProcView.state hproc] at hn
    obtain ⟨src, dst, hed⟩ := Handled.message hr.sound hh he (hreq.symm ▸ hcall) hn hret
    exact hno src dst hed
  · have hname := hqueues _ hq
    have hwaits : WaitsForOther (s.pcb p).blockingQueueName :=
      hname.imp id fun h => h.imp id .inl
    have ht : s'.transfers = s.transfers ++ e.transferred := by
      have htr := Event.apply_transfers hr.sound he
      rw [← hv] at htr
      exact htr
    have hnone : e.transferred = [] := by
      cases e with
      | deliver src dst => exact absurd rfl (hno src dst)
      | _ => rfl
    rw [hnone, List.append_nil] at ht
    obtain ⟨hends, -⟩ := callEnds_of_event hr hpre hh he hv hp hb hwaits hn
    generalize (s'.pcb p).ret = x at hends hret
    cases hends with
    | received _ _ htr _ =>
      rw [ht] at htr
      simp at htr
    | sent _ _ htr _ =>
      rw [ht] at htr
      simp at htr
    | otherEnded => rcases hname with h | h | h <;> rw [h] at hret <;> simp [presetRet] at hret
    | signalled => rcases hname with h | h | h <;> rw [h] at hret <;> simp [signalledRet] at hret

/-- What a turn transfers, and whose calls it answers. -/
theorem turn_completes (hr : Ready s) (hpre : Preset s.view) (hh : Handled s req e)
    (he : e.Enabled s.view) (hv : s'.view = e.apply s.view) (hp : p ≠ .idle) :
    (e.transferred.countP fun t => t.1 = p) =
        (if Completes s req s' .send [.sender] p then 1 else 0) ∧
      (e.transferred.countP fun t => t.2 = p) =
        (if Completes s req s' .recv [.receiver, .receiveAny] p then 1 else 0) := by
  by_cases hdel : ∃ src dst, e = .deliver src dst
  · obtain ⟨src, dst, rfl⟩ := hdel
    obtain ⟨hsend, hrecv⟩ := (Handled.meeting hr hh he).completes hr he hv p
    have hlist : (Event.deliver src dst).transferred = [(src, dst)] := rfl
    rw [hlist, List.countP_singleton, List.countP_singleton]
    simp [hsend, hrecv]
  · have hno : ∀ src dst, e ≠ .deliver src dst := fun src dst h => hdel ⟨src, dst, h⟩
    have hnone : e.transferred = [] := by
      cases e with
      | deliver src dst => exact absurd rfl (hno src dst)
      | _ => rfl
    have hsend : ¬ Completes s req s' .send [.sender] p :=
      not_completes hr hpre hh he hv hno (.inl rfl) (by simp) hp
    have hrecv : ¬ Completes s req s' .recv [.receiver, .receiveAny] p :=
      not_completes hr hpre hh he hv hno (.inr rfl) (by simp) hp
    rw [hnone, if_neg hsend, if_neg hrecv]
    exact ⟨rfl, rfl⟩

/-- What the handler of step `k` finds is what the step before left, but for a return code. -/
theorem completes_iff (r : Run Links) {k : ℕ} {call : SyscallRequest} {queues : List BlockingQueue}
    (hview : s.view = (r.state k).view.setRet (r.state k).currproc (Trap.eax (r.input k)))
    (hreq : (r.input k).request = some req) :
    Completes s req (r.state (k + 1)) call queues p ↔ CompletesCall r call queues p k := by
  have hc : s.currproc = (r.state k).currproc := congrArg View.currproc hview
  have hpcb : (s.pcb p).currState = ((r.state k).pcb p).currState ∧
      (s.pcb p).blockingQueueName = ((r.state k).pcb p).blockingQueueName := by
    have hp : (s.pcb p).view = _ := congrArg (View.proc · p) hview
    by_cases hpc : p = (r.state k).currproc
    · rw [hpc] at hp ⊢
      rw [View.setRet_proc_self] at hp
      exact ⟨congrArg ProcView.state hp, congrArg ProcView.queue hp⟩
    · rw [View.setRet_proc_ne _ _ hpc] at hp
      exact ⟨congrArg ProcView.state hp, congrArg ProcView.queue hp⟩
  unfold Completes CompletesCall
  rw [hc, hpcb.1, hpcb.2, hreq, Option.some_inj]

theorem boot_transfers (r : Run Links) : (r.state 0).transfers = [] := by
  obtain ⟨s, hrest, hb⟩ := boot_atRest r.start
  rw [hb.transfers]
  exact hrest.transfers

/-- In every run with no device open, each process has sent as many messages as it completed sends,
and it was sent as many as it completed receives: no success is reported without a transfer, and no
message is transferred that its sender and its receiver do not get to know about. -/
theorem transfers_counted (r : Run Links) {n : ℕ} (hn : n ≤ r.len) (hd : r.Deviceless n)
    (i : Fin pcbTableSize) :
    ((r.state n).transfers.countP fun t => t.1 = .table i) =
        Nat.count (CompletesSend r (.table i)) n ∧
      ((r.state n).transfers.countP fun t => t.2 = .table i) =
        Nat.count (CompletesReceive r (.table i)) n := by
  induction n with
  | zero =>
    rw [boot_transfers, Nat.count_zero, Nat.count_zero]
    exact ⟨rfl, rfl⟩
  | succ n ih =>
    obtain ⟨hsent, hreceived⟩ := ih (by omega) (hd.mono n.le_succ)
    obtain ⟨s, req, e, -, hreq, hready, hview, hh, he, hv⟩ := r.event hn hd
    have hprev := r.ready (by omega) (hd.mono n.le_succ)
    have hpre : Preset s.view := by
      rw [hview]
      exact (run_preset r (by omega) (hd.mono n.le_succ)).setRet_current hprev.sound.inv _
    obtain ⟨hsend, hrecv⟩ := turn_completes hready hpre hh he hv (p := .table i) (by simp)
    have ht : (r.state (n + 1)).transfers = (r.state n).transfers ++ e.transferred := by
      have htr := Event.apply_transfers hready.sound he
      rw [← hv, hview] at htr
      exact htr
    simp only [completes_iff r hview hreq] at hsend hrecv
    rw [ht, List.countP_append, List.countP_append, Nat.count_succ, Nat.count_succ, hsent, hsend,
      hreceived, hrecv]
    exact ⟨rfl, rfl⟩

/-- In the run of `rendezvousScript` process 34 completes one send and the root one receive. -/
theorem transfers_counted_rendezvous : ∃ r : Run Links, r.len = 4 ∧
    Nat.count (CompletesSend r (.table 1)) 4 = 1 ∧
    Nat.count (CompletesReceive r (.table 0)) 4 = 1 := by
  obtain ⟨r, hlen, hcheck, -, htest⟩ := exists_run (Q := Links) smallPc 40300
    (fun _ t => KernelOf.Deviceless t) rendezvousScript
    (fun n s => decide (n = 4 → s.transfers = [(.table 1, .table 0)])) (by decide +kernel)
  have htransfers := of_decide_eq_true (htest 4 (by decide)) rfl
  have hlen4 : r.len = 4 := hlen
  have hd : r.Deviceless 4 := fun k hk => hcheck k (by omega)
  have hsend := (transfers_counted r (by omega) hd 1).1
  have hrecv := (transfers_counted r (by omega) hd 0).2
  rw [htransfers] at hsend hrecv
  exact ⟨r, hlen4, hsend.symm, hrecv.symm⟩

end Xeros.Analysis
