import Xeros.Analysis.Runs
import Xeros.Interface.Links

/-!
# Rendezvous

A sender and a receiver that are willing to meet are never both blocked: the one that calls last
finds the other one.
-/

set_option autoImplicit false

namespace Xeros.Analysis

open Xeros.Foundations Xeros.Model Xeros.Abstract KernelOf

/-- The process `p` is blocked in the queue `q` of `o`. -/
def BlockedOn (v : View) (p : PcbPtr) (q : BlockingQueue) (o : PcbPtr) : Prop :=
  (v.proc p).state = .blocked ∧ (v.proc p).queue = q ∧ (v.proc p).peer = some o

instance (v : View) (p : PcbPtr) (q : BlockingQueue) (o : PcbPtr) : Decidable (BlockedOn v p q o) :=
  inferInstanceAs (Decidable (_ ∧ _ ∧ _))

/-- The process `p` is blocked until anyone sends it a message. -/
def BlockedForAny (v : View) (p : PcbPtr) : Prop :=
  (v.proc p).state = .blocked ∧ (v.proc p).queue = .receiveAny

/-- No sender and receiver wait for each other. -/
structure NoMissedRendezvous (v : View) : Prop where
  named : ∀ i j : Fin pcbTableSize,
    ¬ (BlockedOn v (.table j) .sender (.table i) ∧ BlockedOn v (.table i) .receiver (.table j))
  any : ∀ i j : Fin pcbTableSize,
    ¬ (BlockedForAny v (.table i) ∧ BlockedOn v (.table j) .sender (.table i))

variable {s : Kernel} {v : View} {p q o : PcbPtr}

theorem blockedOn_setRet (r : ℤ) (c p : PcbPtr) (b : BlockingQueue) (o : PcbPtr) :
    BlockedOn (v.setRet c r) p b o ↔ BlockedOn v p b o := by
  unfold BlockedOn
  by_cases hp : p = c
  · rw [hp, View.setRet_proc_self]
  · rw [View.setRet_proc_ne v r hp]

theorem blockedForAny_setRet (r : ℤ) (c p : PcbPtr) :
    BlockedForAny (v.setRet c r) p ↔ BlockedForAny v p := by
  unfold BlockedForAny
  by_cases hp : p = c
  · rw [hp, View.setRet_proc_self]
  · rw [View.setRet_proc_ne v r hp]

theorem NoMissedRendezvous.setRet (h : NoMissedRendezvous v) (c : PcbPtr) (r : ℤ) :
    NoMissedRendezvous (v.setRet c r) := by
  constructor
  · intro i j
    rw [blockedOn_setRet, blockedOn_setRet]
    exact h.named i j
  · intro i j
    rw [blockedForAny_setRet, blockedOn_setRet]
    exact h.any i j

/-- Who is in a queue after an event was there before, or is the running process and joins it. -/
theorem BlockedOn.before (h : Sound v) {e : Event} (he : e.Enabled v) {b : BlockingQueue}
    (hb : BlockedOn (e.apply v) p b o) :
    BlockedOn v p b o ∨ p = v.currproc ∧ ∃ r, e = .block o b r := by
  obtain ⟨hst, hq, ho⟩ := hb
  rcases Event.blocked_before h he hst with ⟨hst', hq', ho'⟩ | ⟨hp, hbl⟩
  · exact .inl ⟨hst', hq'.symm.trans hq, ho'.symm.trans ho⟩
  · refine .inr ⟨hp, ?_⟩
    generalize (e.apply v).proc p = y at hbl hq ho
    cases hbl with
    | queue o' q' r =>
      obtain rfl : q' = b := hq
      obtain rfl := Option.some.inj ho
      exact ⟨r, rfl⟩
    | alone q' r => simp at ho
    | sleep t r => simp [View.asleep] at ho

theorem BlockedForAny.before (h : Sound v) {e : Event} (he : e.Enabled v)
    (hb : BlockedForAny (e.apply v) p) :
    BlockedForAny v p ∨ p = v.currproc ∧ ∃ r, e = .blockAlone .receiveAny r := by
  obtain ⟨hst, hq⟩ := hb
  rcases Event.blocked_before h he hst with ⟨hst', hq', -⟩ | ⟨hp, hbl⟩
  · exact .inl ⟨hst', hq'.symm.trans hq⟩
  · refine .inr ⟨hp, ?_⟩
    cases e with
    | block o q' r =>
      have hown := he.2.2.2
      generalize ((Event.block o q' r).apply v).proc p = y at hbl hq
      cases hbl
      rw [show q' = _ from hq] at hown
      simp [owned] at hown
    | blockAlone q' r =>
      generalize ((Event.blockAlone q' r).apply v).proc p = y at hbl hq
      cases hbl
      obtain rfl : q' = .receiveAny := hq
      exact ⟨r, rfl⟩
    | sleep t =>
      generalize ((Event.sleep t).apply v).proc p = y at hbl hq
      cases hbl
      simp [View.asleep] at hq
    | _ => cases hbl

/-- Whoever blocks in a call has looked for its partner. -/
theorem Handled.not_meets {req : SyscallRequest} {e : Event} (hh : Handled s req e) :
    (∀ o r, e = .block o .sender r → ¬ Event.Meets s.view s.currproc o) ∧
    (∀ o r, e = .block o .receiver r → ¬ Event.Meets s.view o s.currproc) ∧
    (∀ r, e = .blockAlone .receiveAny r → ∀ o, ¬ Event.Meets s.view o s.currproc) := by
  refine ⟨fun o r he => ?_, fun o r he => ?_, fun r he => ?_⟩
  · subst he
    cases hh with
    | sendBlocks _ _ hno => exact hno
  · subst he
    cases hh with
    | recvBlocks _ _ hno => exact hno
  · subst he
    cases hh with
    | recvAnyBlocks _ hno => exact hno

/-- A turn of the dispatcher misses no rendezvous. -/
theorem NoMissedRendezvous.step {req : SyscallRequest} {e : Event} (hs : Sound s.view)
    (hh : Handled s req e) (he : e.Enabled s.view) (h : NoMissedRendezvous s.view) :
    NoMissedRendezvous (e.apply s.view) := by
  constructor
  · rintro i j ⟨hsend, hrecv⟩
    rcases hsend.before hs he with hsend | ⟨hj, r, hej⟩
    · rcases hrecv.before hs he with hrecv | ⟨hi, r, hei⟩
      · exact h.named i j ⟨hsend, hrecv⟩
      · -- the receiver calls last
        refine (Handled.not_meets hh).2.1 _ r hei (.inr ⟨rfl, by simp, hsend.1, hsend.2.1, ?_⟩)
        exact hsend.2.2.trans (congrArg some hi)
    · rcases hrecv.before hs he with hrecv | ⟨hi, r', hei⟩
      · -- the sender calls last
        refine (Handled.not_meets hh).1 _ r hej (.inl ⟨rfl, by simp, hrecv.1, .inr ⟨hrecv.2.1, ?_⟩⟩)
        exact hrecv.2.2.trans (congrArg some hj)
      · rw [hej] at hei
        simp at hei
  · rintro i j ⟨hany, hsend⟩
    rcases hsend.before hs he with hsend | ⟨hj, r, hej⟩
    · rcases hany.before hs he with hany | ⟨hi, r, hei⟩
      · exact h.any i j ⟨hany, hsend⟩
      · refine (Handled.not_meets hh).2.2 r hei _ (.inr ⟨rfl, by simp, hsend.1, hsend.2.1, ?_⟩)
        exact hsend.2.2.trans (congrArg some hi)
    · rcases hany.before hs he with hany | ⟨hi, r', hei⟩
      · exact (Handled.not_meets hh).1 _ r hej (.inl ⟨rfl, by simp, hany.1, .inl hany.2⟩)
      · rw [hej] at hei
        simp at hei

/-- In every state of every run with no device open, no rendezvous was missed. -/
theorem no_missed_rendezvous (r : Run Links) {n : ℕ} (hn : n ≤ r.len) (hd : r.Deviceless n) :
    NoMissedRendezvous (r.state n).view := by
  induction n with
  | zero =>
    have hfree : ∀ p q b, ¬ BlockedOn (r.state 0).view p b q := by
      rintro p q b ⟨hb, -, hp⟩
      rw [show ((r.state 0).view.proc p).peer = none from boot_free r.start hb] at hp
      simp at hp
    exact ⟨fun i j h => hfree _ _ _ h.1, fun i j h => hfree _ _ _ h.2⟩
  | succ n ih =>
    obtain ⟨s, req, e, -, -, hready, hview, hh, he, hv⟩ := r.event hn hd
    have h := (ih (by omega) (hd.mono n.le_succ)).setRet (r.state n).currproc
      (KernelOf.Trap.eax (r.input n))
    rw [← hview] at h
    rw [hv]
    exact h.step hready.sound hh he

/-- The root process creates process 34, which sends it a message; then the root receives it. -/
def rendezvousScript : List Act :=
  [.call [2, 40400, 8192] [], .call [3] [], .call [9, 33, 2000000, 4] [],
    .call [10, 1900000, 2000100, 4] [(1900000, [34])]]

/-- The sender is blocked until the receiver calls, and the call completes the transfer. -/
theorem no_missed_rendezvous_send : ∃ r : Run Links, r.len = 4 ∧
    BlockedOn (r.state 3).view (.table 1) .sender (.table 0) ∧
    (r.state 4).transfers = [(.table 1, .table 0)] ∧ ∀ n ≤ 4, NoMissedRendezvous (r.state n).view := by
  obtain ⟨r, hlen, hcheck, -, htest⟩ := exists_run (Q := Links) smallPc 40300
    (fun _ t => KernelOf.Deviceless t) rendezvousScript (fun n s => match n with
      | 3 => decide ((s.pcb (.table 1)).currState = .blocked ∧
          (s.pcb (.table 1)).blockingQueueName = .sender ∧
          (s.pcb (.table 1)).blockingProc = some (.table 0))
      | 4 => decide (s.transfers = [(.table 1, .table 0)])
      | _ => true) (by decide +kernel)
  have hblocked := of_decide_eq_true (htest 3 (by decide))
  have htransfers := of_decide_eq_true (htest 4 (by decide))
  have hlen4 : r.len = 4 := hlen
  refine ⟨r, hlen4, hblocked, htransfers, fun n hn => ?_⟩
  exact no_missed_rendezvous r (by omega) fun k hk => hcheck k (by omega)

end Xeros.Analysis
