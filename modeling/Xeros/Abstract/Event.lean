import Xeros.Abstract.Release

/-!
# The process core as a transition system

An `Event` is what one turn of the dispatcher does to the processes.  `Event.apply` is its effect,
`Event.Enabled` says when it can happen, and `Sound` is the invariant of the system.
-/

set_option autoImplicit false

namespace Xeros.Abstract

open Xeros.Model Xeros.Foundations

/-- What one turn of the dispatcher does to the processes. -/
inductive Event where
  /-- the running process gets a return code -/
  | ret (r : ℤ)
  /-- a process could not be created, its slot is put back -/
  | recycle (p : PcbPtr)
  | spawn (p : PcbPtr) (pid : ℤ)
  | yield
  | timer
  | exit
  /-- the blocked process `p` is signalled -/
  | signal (p : PcbPtr)
  /-- the running process joins a queue of `o`, with the preset return code `r` -/
  | block (o : PcbPtr) (q : BlockingQueue) (r : ℤ)
  | blockAlone (q : BlockingQueue) (r : ℤ)
  /-- a rendezvous: one of the two runs, the other one is blocked -/
  | deliver (src dst : PcbPtr)
  | sleep (t : ℤ)
  /-- the keyboard driver completes the read of `p` -/
  | reader (p : PcbPtr) (r : ℤ)
  deriving DecidableEq

namespace Event

/-- The process that waits in the rendezvous of `src` and `dst`. -/
def peer (v : View) (src dst : PcbPtr) : PcbPtr := if src = v.currproc then dst else src

/-- The effect of an event. -/
def apply (v : View) : Event → View
  | ret r => v.setRet v.currproc r
  | recycle p => (v.recycle p).setRet v.currproc eproclimit
  | spawn p pid => (v.spawn p pid).setRet v.currproc pid
  | yield => v.preempt.dispatch
  | timer => v.tick.preempt.dispatch
  | exit => v.terminate.dispatch
  | signal p => (v.interrupt p).setRet v.currproc 0
  | block o q r => (v.block o q r).dispatch
  | blockAlone q r => (v.blockAlone q r).dispatch
  | deliver src dst =>
    ((v.record src dst).unblock (peer v src dst) syspidOk).setRet v.currproc syspidOk
  | sleep t => (v.sleep t).dispatch
  | reader p r => v.unblock p r

/-- The running process and the process it meets, as their queues have it. -/
def Meets (v : View) (src dst : PcbPtr) : Prop :=
  (src = v.currproc ∧ dst ≠ .idle ∧ (v.proc dst).state = .blocked ∧
    ((v.proc dst).queue = .receiveAny ∨
      (v.proc dst).queue = .receiver ∧ (v.proc dst).peer = some src)) ∨
  (dst = v.currproc ∧ src ≠ .idle ∧ (v.proc src).state = .blocked ∧
    (v.proc src).queue = .sender ∧ (v.proc src).peer = some dst)

/-- When an event can happen. -/
def Enabled (v : View) : Event → Prop
  | ret _ | yield | timer => True
  | recycle p => p ≠ .idle ∧ (v.proc p).state = .stopped
  | spawn p pid => p ≠ .idle ∧ (v.proc p).state = .stopped ∧ 1 ≤ pid ∧
      slotOfPid pid = slotOfPid (v.proc p).pid
  | exit => v.currproc ≠ .idle
  | signal p => p ≠ .idle ∧ (v.proc p).state = .blocked
  | block o q _ => v.currproc ≠ .idle ∧ o ≠ .idle ∧ (v.proc o).state ≠ .stopped ∧ owned q
  | blockAlone q _ => v.currproc ≠ .idle ∧ (q = .receiveAny ∨ q = .device)
  | deliver src dst => v.currproc ≠ .idle ∧ Meets v src dst
  | sleep t => v.currproc ≠ .idle ∧ 1 ≤ t ∧ t ≤ maxTicks
  | reader p _ => p ≠ .idle ∧ (v.proc p).state = .blocked ∧ (v.proc p).queue = .device

end Event

/-- The invariant of the process core between two turns of the dispatcher. -/
structure Sound (v : View) : Prop where
  inv : Inv (some v.currproc) v
  delta : Delta v
  head : HeadPos v

variable {run : Option PcbPtr} {v w u : View} {p : PcbPtr}

/-! ## Operations that leave the sleepers alone -/

/-- The sleepers of `v` are those of `w`, with the same deadlines. -/
structure SameSleepers (v w : View) : Prop where
  sleepers : w.sleepers = v.sleepers
  delta : ∀ q ∈ v.sleepers, w.delta q = v.delta q

namespace SameSleepers

theorem trans (h : SameSleepers v w) (h' : SameSleepers w u) : SameSleepers v u :=
  ⟨h'.sleepers.trans h.sleepers, fun q hq =>
    (h'.delta q (by rw [h.sleepers]; exact hq)).trans (h.delta q hq)⟩

theorem ticksLeft (h : SameSleepers v w) (q : PcbPtr) : w.ticksLeft q = v.ticksLeft q := by
  unfold View.ticksLeft
  rw [h.sleepers, remaining_congr h.delta]

theorem toDelta (h : SameSleepers v w) (hd : Delta v) : Delta w := by
  refine ⟨fun q hq => ?_, ?_⟩
  · rw [h.sleepers] at hq
    rw [h.delta q hq]
    exact hd.nonneg q hq
  · rw [h.sleepers, total_congr h.delta]
    exact hd.bound

theorem headPos (h : SameSleepers v w) (hh : HeadPos v) : HeadPos w := by
  intro q hq
  rw [h.sleepers] at hq
  rw [h.delta q (List.mem_of_mem_head? hq)]
  exact hh q hq

end SameSleepers

theorem sameSleepers_setRet (hp : p ∉ v.sleepers) (r : ℤ) : SameSleepers v (v.setRet p r) :=
  ⟨rfl, fun _ hq => View.delta_setRet_ne v r (ne_of_mem_of_not_mem hq hp)⟩

theorem sameSleepers_move (hp : p ∉ v.sleepers) {x : ProcView} (hx : x.place ≠ some .sleeping) :
    SameSleepers v (v.move p x) := by
  refine ⟨?_, fun q hq => ?_⟩
  · rw [View.sleepers, View.move_lists, List.erase_of_not_mem hp, if_neg fun hc => hx hc.2]
    simp
  · rw [View.delta, View.move_proc_ne _ _ (ne_of_mem_of_not_mem hq hp)]
    rfl

theorem not_sleeper_of_state (h : Inv run v) (hp : (v.proc p).state ≠ .blocked) :
    p ∉ v.sleepers := fun hmem => hp (sleeper_state h hmem).2.1

theorem not_sleeper_of_queue (h : Inv run v) (hp : (v.proc p).queue ≠ .sleep) :
    p ∉ v.sleepers := fun hmem => hp (sleeper_state h hmem).2.2

theorem not_sleeper_current (h : Inv (some v.currproc) v) : v.currproc ∉ v.sleepers :=
  h.not_mem_current .sleeping

theorem sameSleepers_dispatch (h : Inv none v) : SameSleepers v v.dispatch := by
  have hp : ((v.lists (.queue (.proc .ready))).head?).getD .idle ∉ v.sleepers := by
    rcases h.next_state rfl with hi | hr
    · rw [hi]
      exact h.not_mem_idle _
    · exact not_sleeper_of_state h (by simp [hr])
  have hm := sameSleepers_move (v := v) hp (x := { v.proc
    (((v.lists (.queue (.proc .ready))).head?).getD .idle) with state := .running })
    (by simp [ProcView.place])
  exact ⟨hm.sleepers, hm.delta⟩

theorem sameSleepers_preempt (h : Inv (some v.currproc) v) : SameSleepers v v.preempt :=
  sameSleepers_move (not_sleeper_current h) (by simp [ProcView.place])

theorem sameSleepers_terminate (h : Inv (some v.currproc) v) (hcur : v.currproc ≠ .idle) :
    SameSleepers v v.terminate := by
  have ht := terminate_spec h hcur
  refine ⟨ht.sleepers, fun q hq => ?_⟩
  obtain ⟨hqi, hqb, hqs⟩ := sleeper_state h hq
  have hqc : q ≠ v.currproc := ne_of_mem_of_not_mem hq (not_sleeper_current h)
  have hpeer : (v.proc q).peer = none := (h.consistent q hqi).alone hqb (by rw [hqs]; simp [owned])
  rw [View.delta, ht.other q hqc (.inr (.inr (by rw [hpeer]; simp)))]
  rfl

/-! ## The invariant -/

theorem Sound.of_same (h : Sound v) (hinv : Inv (some w.currproc) w) (hs : SameSleepers v w) :
    Sound w := ⟨hinv, hs.toDelta h.delta, hs.headPos h.head⟩

/-- The next process is dispatched. -/
theorem sound_dispatch (hinv : Inv none v) (hd : Delta v) (hh : HeadPos v) : Sound v.dispatch :=
  have hs := sameSleepers_dispatch hinv
  ⟨hinv.dispatch, hs.toDelta hd, hs.headPos hh⟩

theorem Sound.setRet_current (h : Sound v) (r : ℤ) : Sound (v.setRet v.currproc r) :=
  h.of_same (h.inv.setRet _ r) (sameSleepers_setRet (not_sleeper_current h.inv) r)

/-- An operation on another process, and a return code for the running one. -/
theorem Sound.then_ret (h : Sound w) (hc : w.currproc = v.currproc) (r : ℤ) :
    Sound (w.setRet v.currproc r) := hc ▸ h.setRet_current r

/-- The process that waits in a rendezvous. -/
theorem Event.peer_state {src dst : PcbPtr} (h : Inv (some v.currproc) v)
    (hm : Event.Meets v src dst) :
    Event.peer v src dst ≠ .idle ∧ (v.proc (Event.peer v src dst)).state = .blocked ∧
      (v.proc (Event.peer v src dst)).queue ≠ .sleep ∧ Event.peer v src dst ≠ v.currproc := by
  have hne : ∀ q, (v.proc q).state = .blocked → q ≠ v.currproc := by
    rintro q hq rfl
    rw [h.running_self] at hq
    simp at hq
  rcases hm with ⟨hsrc, hi, hb, hq⟩ | ⟨hdst, hi, hb, hq, -⟩
  · have hpeer : Event.peer v src dst = dst := if_pos hsrc
    rw [hpeer]
    refine ⟨hi, hb, ?_, hne dst hb⟩
    rcases hq with hq | ⟨hq, -⟩ <;> rw [hq] <;> simp
  · have hpeer : Event.peer v src dst = src := if_neg (hne src hb)
    rw [hpeer]
    exact ⟨hi, hb, by rw [hq]; simp, hne src hb⟩

theorem interrupt_currproc (v : View) (p : PcbPtr) : (v.interrupt p).currproc = v.currproc := by
  unfold View.interrupt
  split_ifs <;> simp [View.unblock]

/-- The events that are about the sleeping list. -/
def Event.Timed : Event → Prop
  | .timer | .signal _ | .sleep _ => True
  | _ => False

/-- All other events leave the sleepers and their deadlines alone. -/
theorem Event.sameSleepers (h : Sound v) {e : Event} (he : e.Enabled v) (ht : ¬ e.Timed) :
    SameSleepers v (e.apply v) := by
  have hinv := h.inv
  have hcur := not_sleeper_current hinv
  cases e with
  | ret r => exact sameSleepers_setRet hcur r
  | recycle p =>
    obtain ⟨hp, hs⟩ := he
    have hm : SameSleepers v (v.recycle p) := sameSleepers_move
      (not_sleeper_of_state hinv (by simp [hs])) (by simp [ProcView.place])
    exact hm.trans (sameSleepers_setRet (not_sleeper_current (hinv.recycle hp hs)) _)
  | spawn p pid =>
    obtain ⟨hp, hs, hpid, hslot⟩ := he
    have hm : SameSleepers v (v.spawn p pid) := sameSleepers_move
      (not_sleeper_of_state hinv (by simp [hs])) (by simp [ProcView.place])
    exact hm.trans (sameSleepers_setRet (not_sleeper_current (hinv.spawn hp hs hpid hslot)) _)
  | yield => exact (sameSleepers_preempt hinv).trans (sameSleepers_dispatch hinv.preempt)
  | timer => exact absurd trivial ht
  | exit =>
    exact (sameSleepers_terminate hinv he).trans
      (sameSleepers_dispatch (terminate_spec hinv he).inv)
  | signal p => exact absurd trivial ht
  | block o q r =>
    obtain ⟨hci, ho, hos, hq⟩ := he
    have hs : SameSleepers v (v.block o q r) := by
      refine sameSleepers_move hcur ?_
      rw [ProcView.place_blocked rfl, if_pos hq]
      simp
    exact hs.trans (sameSleepers_dispatch (hinv.block hci ho hos hq r))
  | blockAlone q r =>
    obtain ⟨hci, hq⟩ := he
    have hs : SameSleepers v (v.blockAlone q r) := by
      refine sameSleepers_move hcur ?_
      rcases hq with rfl | rfl <;> simp [ProcView.place, owned]
    exact hs.trans (sameSleepers_dispatch (hinv.blockAlone hci hq r))
  | deliver src dst =>
    obtain ⟨-, hm⟩ := he
    obtain ⟨hpi, hpb, hpq, -⟩ := Event.peer_state hinv hm
    have hr : SameSleepers v (v.record src dst) := ⟨rfl, fun _ _ => rfl⟩
    have hri := hinv.record src dst
    have hu : SameSleepers (v.record src dst)
        ((v.record src dst).unblock (Event.peer v src dst) syspidOk) :=
      sameSleepers_move (not_sleeper_of_queue hri hpq) (by simp [View.readied, ProcView.place])
    have hui := hri.unblock hpi hpb syspidOk
    exact (hr.trans hu).trans (sameSleepers_setRet (not_sleeper_current hui) _)
  | sleep t => exact absurd trivial ht
  | reader p r =>
    obtain ⟨hp, hb, hq⟩ := he
    exact sameSleepers_move (not_sleeper_of_queue hinv (by rw [hq]; simp))
      (by simp [View.readied, ProcView.place])

/-- Every event keeps the queue membership invariant. -/
theorem Event.inv (h : Sound v) {e : Event} (he : e.Enabled v) :
    Inv (some (e.apply v).currproc) (e.apply v) := by
  have hinv := h.inv
  cases e with
  | ret r => exact hinv.setRet _ r
  | recycle p => exact (hinv.recycle he.1 he.2).setRet _ _
  | spawn p pid => exact (hinv.spawn he.1 he.2.1 he.2.2.1 he.2.2.2).setRet _ _
  | yield => exact hinv.preempt.dispatch
  | timer =>
    have ht := tick_spec hinv h.delta h.head
    have hti : Inv (some v.tick.currproc) v.tick := by
      rw [ht.currproc]
      exact ht.inv
    exact hti.preempt.dispatch
  | exit => exact (terminate_spec hinv he).inv.dispatch
  | signal p =>
    have hs := (interrupt_inv hinv he.1 he.2).setRet v.currproc 0
    show Inv (some (v.interrupt p).currproc) _
    rw [interrupt_currproc]
    exact hs
  | block o q r => exact (hinv.block he.1 he.2.1 he.2.2.1 he.2.2.2 r).dispatch
  | blockAlone q r => exact (hinv.blockAlone he.1 he.2 r).dispatch
  | deliver src dst =>
    obtain ⟨hpi, hpb, -, -⟩ := Event.peer_state hinv he.2
    exact ((hinv.record src dst).unblock hpi hpb syspidOk).setRet _ _
  | sleep t => exact (sleep_inv hinv he.1).dispatch
  | reader p r => exact hinv.unblock he.1 he.2.1 r

/-- Every event keeps the invariant. -/
theorem Event.sound (h : Sound v) {e : Event} (he : e.Enabled v) : Sound (e.apply v) := by
  obtain ⟨hinv, hd, hh⟩ := id h
  by_cases ht : e.Timed
  · cases e with
    | timer =>
      have ht := tick_spec hinv hd hh
      have hti : Inv (some v.tick.currproc) v.tick := by
        rw [ht.currproc]
        exact ht.inv
      have hs := sameSleepers_preempt hti
      exact sound_dispatch hti.preempt (hs.toDelta ht.delta) (hs.headPos ht.headPos)
    | signal p =>
      obtain ⟨hd', hh', -⟩ := interrupt_delta hinv hd hh he.1 he.2
      refine Sound.then_ret ⟨?_, hd', hh'⟩ (interrupt_currproc v p) _
      rw [interrupt_currproc]
      exact interrupt_inv hinv he.1 he.2
    | sleep t =>
      obtain ⟨hd', hh'⟩ := sleep_delta hinv hd hh he.2.1 he.2.2
      exact sound_dispatch (sleep_inv hinv he.1) hd' hh'
    | _ => exact absurd ht id
  · exact h.of_same (Event.inv h he) (Event.sameSleepers h he ht)

/-! ## Deadlines -/

/-- The process that the running one becomes ready as, and perhaps is dispatched as. -/
theorem readied_dispatch {x : ProcView} (hp : w.proc p = View.readied x 0) :
    ((w.dispatch).proc p = View.readied x 0 ∨
      (w.dispatch).proc p = { View.readied x 0 with state := .running }) := by
  by_cases hn : p = ((w.lists (.queue (.proc .ready))).head?).getD .idle
  · right
    rw [View.dispatch, ← hn, ← hp]
    simp
  · left
    rw [View.dispatch, ← hp]
    simp [hn]

/-- What an event does to a process that sleeps. -/
inductive SleeperStep (v : View) (p : PcbPtr) (e : Event) (w : View) : Prop where
  | signalled (he : e = .signal p)
  | due (he : e = .timer) (hleft : v.ticksLeft p = 1)
      (hp : w.proc p = View.readied (v.proc p) 0 ∨
        w.proc p = { View.readied (v.proc p) 0 with state := .running })
  | ticked (he : e = .timer) (hleft : w.ticksLeft p = v.ticksLeft p - 1) (hp : p ∈ w.sleepers)
  | kept (he : e ≠ .timer) (hleft : w.ticksLeft p = v.ticksLeft p) (hp : p ∈ w.sleepers)

/-- A process sleeps on until its last tick, or until it is signalled. -/
theorem Event.sleeper_step (h : Sound v) {e : Event} (he : e.Enabled v) (hp : p ∈ v.sleepers) :
    SleeperStep v p e (e.apply v) := by
  have hinv := h.inv
  by_cases ht : e.Timed
  · cases e with
    | timer =>
      have ht := tick_spec hinv h.delta h.head
      have hti : Inv (some v.tick.currproc) v.tick := by
        rw [ht.currproc]
        exact ht.inv
      have hs := (sameSleepers_preempt hti).trans (sameSleepers_dispatch hti.preempt)
      have hcur : p ≠ v.tick.currproc := by
        rw [ht.currproc]
        exact ne_of_mem_of_not_mem hp (not_sleeper_current hinv)
      have hpos := h.delta.ticksLeft_pos h.head hp
      by_cases hleft : v.ticksLeft p = 1
      · refine .due rfl hleft (readied_dispatch ?_)
        rw [View.preempt, View.move_proc_ne _ _ hcur]
        exact ht.due p hp hleft
      · obtain ⟨hmem, hleft', -⟩ := ht.asleep p hp (by omega)
        refine .ticked rfl ?_ ?_
        · exact (hs.ticksLeft p).trans hleft'
        · exact hs.sleepers.symm ▸ hmem
    | signal q =>
      by_cases hq : p = q
      · exact .signalled (by rw [hq])
      · obtain ⟨-, -, hsl, hleft⟩ := interrupt_delta hinv h.delta h.head he.1 he.2
        have hmem : p ∈ (v.interrupt q).sleepers := by
          rw [hsl]
          exact (List.mem_erase_of_ne hq).mpr hp
        have hs : SameSleepers (v.interrupt q) ((v.interrupt q).setRet v.currproc 0) := by
          have hni := not_sleeper_current (v := v.interrupt q)
            (by rw [interrupt_currproc]; exact interrupt_inv hinv he.1 he.2)
          rw [interrupt_currproc] at hni
          exact sameSleepers_setRet hni 0
        refine .kept (by simp) ?_ ?_
        · exact (hs.ticksLeft p).trans (hleft p hp hq)
        · exact hs.sleepers.symm ▸ hmem
    | sleep t =>
      have hs := sameSleepers_dispatch (sleep_inv hinv he.1 (t := t))
      refine .kept (by simp) ?_ ?_
      · exact (hs.ticksLeft p).trans ((sleep_ticksLeft hinv).2 p hp)
      · refine hs.sleepers.symm ▸ ?_
        rw [sleep_sleepers]
        have happ := splitAtDelay_append v.delta t v.sleepers
        rw [← happ] at hp
        rcases List.mem_append.mp hp with hp | hp
        · exact List.mem_append_left _ hp
        · exact List.mem_append_right _ (List.mem_cons_of_mem _ hp)
    | _ => exact absurd ht id
  · have hs := Event.sameSleepers h he ht
    refine .kept ?_ (hs.ticksLeft p) (hs.sleepers.symm ▸ hp)
    rintro rfl
    exact ht trivial

/-- A process that falls asleep has all its ticks before it. -/
theorem Event.sleep_starts (h : Sound v) {t : ℤ} (he : (Event.sleep t).Enabled v) :
    v.currproc ∈ ((Event.sleep t).apply v).sleepers ∧
      ((Event.sleep t).apply v).ticksLeft v.currproc = t := by
  have hs := sameSleepers_dispatch (sleep_inv h.inv he.1 (t := t))
  refine ⟨?_, (hs.ticksLeft _).trans (sleep_ticksLeft h.inv).1⟩
  refine hs.sleepers.symm ▸ ?_
  rw [sleep_sleepers]
  simp

end Xeros.Abstract
