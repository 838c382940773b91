import Xeros.Abstract.Event
import Xeros.Foundations.Fifo

/-!
# The order in which processes wait

In every event the ready queue and the queues of the blocked processes keep their order: processes
leave them wherever they stand and join them at the end.  The process that is dispatched is the
first one of the ready queue.
-/

set_option autoImplicit false

namespace Xeros.Abstract

open Xeros.Model Xeros.Foundations

/-- The ready queue. -/
def View.ready (v : View) : List PcbPtr := v.lists (.queue (.proc .ready))

/-- The queue `q` of the process `o`. -/
def View.blockedOn (v : View) (o : PcbPtr) (q : BlockingQueue) : List PcbPtr :=
  v.lists (.queue (.blocking o q))

variable {run : Option PcbPtr} {v w u : View} {p : PcbPtr}

/-- From `v` to `w`, processes joined the ready queue, and perhaps left other queues for it. -/
structure Wakes (v w : View) : Prop where
  ready : Grows v.ready w.ready
  blocked : ∀ o q, (w.blockedOn o q).Sublist (v.blockedOn o q)

namespace Wakes

theorem of_lists (h : w.lists = v.lists) : Wakes v w := by
  refine ⟨?_, fun o q => ?_⟩
  · rw [View.ready, View.ready, h]
    exact Grows.refl _
  · rw [View.blockedOn, View.blockedOn, h]

theorem refl (v : View) : Wakes v v := of_lists rfl

theorem trans (h : Wakes v w) (h' : Wakes w u) : Wakes v u :=
  ⟨h.ready.trans h'.ready, fun o q => (h'.blocked o q).trans (h.blocked o q)⟩

/-- A process that is not ready moves, but not into a queue of another one. -/
theorem move (hp : p ∉ v.ready) {x : ProcView}
    (hx : ∀ o q, x.place ≠ some (.queue (.blocking o q))) : Wakes v (v.move p x) := by
  refine ⟨?_, fun o q => ?_⟩
  · have hl : (v.move p x).ready = v.ready ++
        if p ≠ .idle ∧ x.place = some (.queue (.proc .ready)) then [p] else [] := by
      rw [View.ready, View.move_lists]
      exact congrArg (· ++ _) (List.erase_of_not_mem hp)
    refine ⟨_, hl, fun y hy => ?_⟩
    split_ifs at hy
    · rw [List.mem_singleton.mp hy]
      exact hp
    · exact absurd hy List.not_mem_nil
  · rw [View.blockedOn, View.move_lists, if_neg fun hc => hx o q hc.2, List.append_nil]
    exact List.erase_sublist ..

theorem unblock (hp : p ∉ v.ready) (r : ℤ) : Wakes v (v.unblock p r) := by
  apply move hp
  intro o q
  simp [View.readied, ProcView.place]

/-- The ready queue after a process was made ready. -/
theorem unblock_ready (hp : p ≠ .idle) (r : ℤ) (q : PcbPtr) :
    q ∈ (v.unblock p r).ready → q ∈ v.ready ∨ q = p := by
  intro hq
  rw [View.ready, unblock_lists hp, if_pos rfl] at hq
  rcases List.mem_append.mp hq with hq | hq
  · exact .inl (List.mem_of_mem_erase hq)
  · exact .inr (List.mem_singleton.mp hq)

theorem release {l : List PcbPtr} (hnd : l.Nodup) (hl : ∀ p ∈ l, p ≠ .idle ∧ p ∉ v.ready) :
    Wakes v (View.release l v) := by
  induction l generalizing v with
  | nil => exact refl v
  | cons p l ih =>
    obtain ⟨hpl, hndl⟩ := List.nodup_cons.mp hnd
    obtain ⟨hpi, hpr⟩ := hl p (List.mem_cons_self ..)
    refine (unblock hpr (v.proc p).ret).trans (ih hndl fun q hq => ?_)
    obtain ⟨hqi, hqr⟩ := hl q (List.mem_cons_of_mem p hq)
    refine ⟨hqi, fun hmem => ?_⟩
    rcases unblock_ready hpi _ q hmem with h | h
    · exact hqr h
    · rw [h] at hq
      exact hpl hq

theorem wake (hpi : p ≠ .idle) (hp : p ∉ v.ready) (n : Option PcbPtr) : Wakes v (v.wake n p) := by
  refine ⟨⟨[p], ?_, fun y hy => ?_⟩, fun o q => ?_⟩
  · rw [View.ready, wake_lists n _ hpi, if_pos rfl]
    exact congrArg (· ++ [p]) (List.erase_of_not_mem hp)
  · rw [List.mem_singleton.mp hy]
    exact hp
  · rw [View.blockedOn, wake_lists n _ hpi, if_neg (by simp), List.append_nil]
    exact List.erase_sublist ..

theorem expire {l : List PcbPtr} (hnd : l.Nodup) (hl : ∀ p ∈ l, p ≠ .idle ∧ p ∉ v.ready) :
    Wakes v (View.expire l v) := by
  induction l generalizing v with
  | nil => exact refl v
  | cons p l ih =>
    obtain ⟨hpl, hndl⟩ := List.nodup_cons.mp hnd
    obtain ⟨hpi, hpr⟩ := hl p (List.mem_cons_self ..)
    unfold View.expire
    split_ifs
    · refine (wake hpi hpr l.head?).trans (ih hndl fun q hq => ?_)
      obtain ⟨hqi, hqr⟩ := hl q (List.mem_cons_of_mem p hq)
      refine ⟨hqi, fun hmem => ?_⟩
      rw [View.ready, wake_lists _ _ hpi, if_pos rfl] at hmem
      rcases List.mem_append.mp hmem with h | h
      · exact hqr (List.mem_of_mem_erase h)
      · rw [List.mem_singleton.mp h] at hq
        exact hpl hq
    · exact refl v

end Wakes

theorem not_ready_of_state (h : Inv run v) (hp : (v.proc p).state ≠ .ready) : p ∉ v.ready := by
  intro hmem
  exact hp (ProcView.place_eq_ready_iff.mp ((h.mem_iff _ _).mp hmem).2)

theorem wakes_tick (h : Inv run v) : Wakes v v.tick := by
  unfold View.tick
  split
  · exact Wakes.refl v
  · next p l hl =>
    have hset : Wakes v (v.setRet p (v.delta p - 1)) := Wakes.of_lists rfl
    have hnd : (p :: l).Nodup := hl ▸ nodup_sleepers h
    refine hset.trans (Wakes.expire hnd fun q hq => ?_)
    rw [← hl] at hq
    obtain ⟨hqi, hqb, -⟩ := sleeper_state h hq
    have hqr : q ∉ v.ready := not_ready_of_state h (by simp [hqb])
    exact ⟨hqi, hqr⟩

theorem wakes_notify (h : Inv run v) (o : PcbPtr) (q : BlockingQueue) : Wakes v (v.notify o q) := by
  refine Wakes.release (h.nodup _) fun p hp => ?_
  obtain ⟨hpi, hpb, -⟩ := queue_blocked h hp
  exact ⟨hpi, not_ready_of_state h (by simp [hpb])⟩

theorem wakes_terminate (h : Inv (some v.currproc) v) : Wakes v v.terminate := by
  have h1 := notify_spec h v.currproc .sender
  have h2 := notify_spec h1.inv v.currproc .receiver
  have h3 := notify_spec h2.inv v.currproc .waiting
  have hw := ((wakes_notify h v.currproc .sender).trans
    (wakes_notify h1.inv v.currproc .receiver)).trans (wakes_notify h2.inv v.currproc .waiting)
  refine hw.trans (Wakes.move ?_ ?_)
  · rw [h3.currproc, h2.currproc, h1.currproc]
    apply not_ready_of_state h3.inv
    rw [(h3.inv.running v.currproc).mpr rfl]
    simp
  · intro o q
    simp [ProcView.place]

theorem wakes_interrupt (h : Inv run v) (hp : p ≠ .idle) (hb : (v.proc p).state = .blocked) :
    Wakes v (v.interrupt p) := by
  have hr : p ∉ v.ready := not_ready_of_state h (by simp [hb])
  unfold View.interrupt
  split_ifs
  · exact Wakes.wake hp hr _
  · exact Wakes.unblock hr _

/-- What an event does to the order of the queues. -/
structure KeepsOrder (v w : View) : Prop where
  ready : Ages v.ready w.ready
  blocked : ∀ o q, Ages (v.blockedOn o q) (w.blockedOn o q)
  dispatched : w.currproc = v.currproc ∨ ∃ l, Grows v.ready l ∧ PcbPtr.idle ∉ l ∧
    w.currproc = l.head?.getD .idle ∧ w.ready = l.tail

theorem Wakes.keepsOrder (h : Wakes v w) (hc : w.currproc = v.currproc) : KeepsOrder v w :=
  ⟨h.ready.ages, fun o q => Ages.of_sublist (h.blocked o q), .inl hc⟩

/-- Dispatching takes the first process out of the ready queue. -/
theorem dispatch_ready (w : View) : w.dispatch.ready = w.ready.tail := by
  have hl : w.dispatch.ready = w.ready.erase (w.ready.head?.getD .idle) := by
    show (w.move _ _).lists _ = _
    rw [View.move_lists, if_neg (by simp [ProcView.place]), List.append_nil]
    rfl
  rw [hl]
  cases hcase : w.ready with
  | nil => rfl
  | cons p l => simp

/-- The first ready process is dispatched. -/
theorem keepsOrder_dispatch (hready : Grows v.ready w.ready)
    (hblocked : ∀ o q, Ages (v.blockedOn o q) (w.blockedOn o q)) (h : Inv none w) :
    KeepsOrder v w.dispatch := by
  have hl : ∀ i, w.dispatch.lists i = (w.lists i).erase (w.ready.head?.getD .idle) := by
    intro i
    show (w.move _ _).lists i = _
    rw [View.move_lists, if_neg (by simp [ProcView.place]), List.append_nil]
    rfl
  have htail : w.dispatch.ready = w.ready.tail := by
    rw [View.ready, hl]
    show w.ready.erase _ = _
    cases hcase : w.ready with
    | nil => simp
    | cons p l => simp
  refine ⟨?_, fun o q => ?_, .inr ⟨w.ready, hready, h.not_mem_idle _, rfl, htail⟩⟩
  · rw [htail]
    exact hready.ages.leave (List.tail_sublist _)
  · have hb : w.dispatch.blockedOn o q = (w.blockedOn o q).erase (w.ready.head?.getD .idle) := hl _
    rw [hb]
    exact (hblocked o q).leave (List.erase_sublist ..)

theorem Wakes.dispatch (h : Wakes v w) (hw : Inv none w) : KeepsOrder v w.dispatch :=
  keepsOrder_dispatch h.ready (fun o q => Ages.of_sublist (h.blocked o q)) hw

/-- Every event keeps the order of the queues. -/
theorem Event.keepsOrder (h : Sound v) {e : Event} (he : e.Enabled v) :
    KeepsOrder v (e.apply v) := by
  have hinv := h.inv
  have hcur : v.currproc ∉ v.ready := hinv.not_mem_current _
  have hret : ∀ (u : View) (r : ℤ), Wakes u (u.setRet v.currproc r) := fun u r => Wakes.of_lists rfl
  cases e with
  | ret r => exact (hret v r).keepsOrder rfl
  | recycle p =>
    have hp : p ∉ v.ready := not_ready_of_state hinv (by simp [he.2])
    have hm : Wakes v (v.recycle p) := Wakes.move hp fun o q => by simp [ProcView.place]
    exact (hm.trans (hret _ _)).keepsOrder rfl
  | spawn p pid =>
    have hp : p ∉ v.ready := not_ready_of_state hinv (by simp [he.2.1])
    have hm : Wakes v (v.spawn p pid) := Wakes.move hp fun o q => by simp [ProcView.place]
    exact (hm.trans (hret _ _)).keepsOrder rfl
  | yield =>
    have hm : Wakes v v.preempt := Wakes.move hcur fun o q => by simp [ProcView.place]
    exact hm.dispatch hinv.preempt
  | timer =>
    have ht := tick_spec hinv h.delta h.head
    have hti : Inv (some v.tick.currproc) v.tick := by
      rw [ht.currproc]
      exact ht.inv
    have hm : Wakes v.tick v.tick.preempt :=
      Wakes.move (hti.not_mem_current _) fun o q => by simp [ProcView.place]
    exact ((wakes_tick hinv).trans hm).dispatch hti.preempt
  | exit => exact (wakes_terminate hinv).dispatch (terminate_spec hinv he).inv
  | signal p =>
    exact ((wakes_interrupt hinv he.1 he.2).trans (hret _ _)).keepsOrder (interrupt_currproc v p)
  | block o q r =>
    obtain ⟨hci, ho, hos, hq⟩ := he
    refine keepsOrder_dispatch ?_ (fun o' q' => ?_) (hinv.block hci ho hos hq r)
    · have hl : (v.block o q r).ready = v.ready := by
        rw [View.ready, View.block, View.move_lists, ProcView.place_blocked rfl, if_pos hq,
          if_neg (by simp), List.append_nil]
        exact List.erase_of_not_mem hcur
      rw [hl]
      exact Grows.refl _
    · have hnot : v.currproc ∉ v.blockedOn o' q' := hinv.not_mem_current _
      have hl : (v.block o q r).blockedOn o' q' = v.blockedOn o' q' ++
          if v.currproc ≠ .idle ∧ some (ListId.queue (.blocking o q)) =
            some (.queue (.blocking o' q')) then [v.currproc] else [] := by
        rw [View.blockedOn, View.block, View.move_lists, ProcView.place_blocked rfl, if_pos hq]
        exact congrArg (· ++ _) (List.erase_of_not_mem hnot)
      rw [hl]
      split_ifs
      · exact Ages.join hnot
      · rw [List.append_nil]
        exact Ages.refl _
  | blockAlone q r =>
    have hm : Wakes v (v.blockAlone q r) := by
      apply Wakes.move hcur
      intro o q'
      rcases he.2 with rfl | rfl <;> simp [ProcView.place, owned]
    exact hm.dispatch (hinv.blockAlone he.1 he.2 r)
  | deliver src dst =>
    obtain ⟨hpi, hpb, -, -⟩ := Event.peer_state hinv he.2
    have hp : Event.peer v src dst ∉ v.ready := not_ready_of_state hinv (by simp [hpb])
    have hr : Wakes v (v.record src dst) := Wakes.of_lists rfl
    have hu : Wakes (v.record src dst) ((v.record src dst).unblock (Event.peer v src dst) syspidOk) :=
      Wakes.unblock (v := v.record src dst) hp syspidOk
    exact ((hr.trans hu).trans (hret _ _)).keepsOrder rfl
  | sleep t =>
    have hs : ∀ q, (v.sleep t).lists (.queue q) = v.lists (.queue q) := fun q =>
      sleep_lists_ne (by simp)
    refine keepsOrder_dispatch ?_ (fun o q => ?_) (sleep_inv hinv he.1)
    · have hl : (v.sleep t).ready = v.ready := hs _
      rw [hl]
      exact Grows.refl _
    · have hl : (v.sleep t).blockedOn o q = v.blockedOn o q := hs _
      rw [hl]
      exact Ages.refl _
  | reader p r =>
    have hp : p ∉ v.ready := not_ready_of_state hinv (by simp [he.2.1])
    exact (Wakes.unblock hp r).keepsOrder rfl

/-! ## Who is dispatched -/

/-- The events after which the first ready process is dispatched. -/
def Event.Dispatches : Event → Prop
  | yield | timer | exit | block .. | blockAlone .. | sleep _ => True
  | _ => False

/-- The first process of a ready queue that only grew is dispatched. -/
theorem Event.dispatches (h : Sound v) {e : Event} (he : e.Enabled v) (hd : e.Dispatches) :
    ∃ w, Inv none w ∧ Grows v.ready w.ready ∧ e.apply v = w.dispatch := by
  have hinv := h.inv
  have hcur : v.currproc ∉ v.ready := hinv.not_mem_current _
  cases e with
  | yield =>
    have hm : Wakes v v.preempt := Wakes.move hcur fun o q => by simp [ProcView.place]
    exact ⟨_, hinv.preempt, hm.ready, rfl⟩
  | timer =>
    have ht := tick_spec hinv h.delta h.head
    have hti : Inv (some v.tick.currproc) v.tick := by
      rw [ht.currproc]
      exact ht.inv
    have hm : Wakes v.tick v.tick.preempt :=
      Wakes.move (hti.not_mem_current _) fun o q => by simp [ProcView.place]
    exact ⟨_, hti.preempt, ((wakes_tick hinv).trans hm).ready, rfl⟩
  | exit => exact ⟨_, (terminate_spec hinv he).inv, (wakes_terminate hinv).ready, rfl⟩
  | block o q r =>
    obtain ⟨hci, ho, hos, hq⟩ := he
    have hl : (v.block o q r).ready = v.ready := by
      rw [View.ready, View.block, View.move_lists, ProcView.place_blocked rfl, if_pos hq,
        if_neg (by simp), List.append_nil]
      exact List.erase_of_not_mem hcur
    refine ⟨_, hinv.block hci ho hos hq r, ?_, rfl⟩
    rw [hl]
    exact Grows.refl _
  | blockAlone q r =>
    have hm : Wakes v (v.blockAlone q r) := by
      apply Wakes.move hcur
      intro o q'
      rcases he.2 with rfl | rfl <;> simp [ProcView.place, owned]
    exact ⟨_, hinv.blockAlone he.1 he.2 r, hm.ready, rfl⟩
  | sleep t =>
    have hl : (v.sleep t).ready = v.ready := sleep_lists_ne (by simp)
    refine ⟨_, sleep_inv hinv he.1, ?_, rfl⟩
    rw [hl]
    exact Grows.refl _
  | _ => exact absurd hd id

/-- All other events go on with the running process, and only let processes join the ready queue. -/
theorem Event.not_dispatches (h : Sound v) {e : Event} (he : e.Enabled v) (hd : ¬ e.Dispatches) :
    (e.apply v).currproc = v.currproc ∧ Grows v.ready (e.apply v).ready := by
  have hinv := h.inv
  have hret : ∀ (u : View) (r : ℤ), Wakes u (u.setRet v.currproc r) := fun u r => Wakes.of_lists rfl
  cases e with
  | ret r => exact ⟨rfl, (hret v r).ready⟩
  | recycle p =>
    have hp : p ∉ v.ready := not_ready_of_state hinv (by simp [he.2])
    have hm : Wakes v (v.recycle p) := Wakes.move hp fun o q => by simp [ProcView.place]
    exact ⟨rfl, (hm.trans (hret _ _)).ready⟩
  | spawn p pid =>
    have hp : p ∉ v.ready := not_ready_of_state hinv (by simp [he.2.1])
    have hm : Wakes v (v.spawn p pid) := Wakes.move hp fun o q => by simp [ProcView.place]
    exact ⟨rfl, (hm.trans (hret _ _)).ready⟩
  | signal p =>
    exact ⟨interrupt_currproc v p, ((wakes_interrupt hinv he.1 he.2).trans (hret _ _)).ready⟩
  | deliver src dst =>
    obtain ⟨-, hpb, -, -⟩ := Event.peer_state hinv he.2
    have hp : Event.peer v src dst ∉ v.ready := not_ready_of_state hinv (by simp [hpb])
    have hr : Wakes v (v.record src dst) := Wakes.of_lists rfl
    have hu : Wakes (v.record src dst) ((v.record src dst).unblock (Event.peer v src dst) syspidOk) :=
      Wakes.unblock (v := v.record src dst) hp syspidOk
    exact ⟨rfl, ((hr.trans hu).trans (hret _ _)).ready⟩
  | reader p r =>
    have hp : p ∉ v.ready := not_ready_of_state hinv (by simp [he.2.1])
    exact ⟨rfl, (Wakes.unblock hp r).ready⟩
  | _ => exact absurd trivial hd

/-- In an event after which `p` is still ready, it moves up in the ready queue when the first ready
process is dispatched, and stays where it is otherwise. -/
theorem Event.position (h : Sound v) {e : Event} (he : e.Enabled v) (hp : p ∈ v.ready)
    (hp' : p ∈ (e.apply v).ready) :
    (e.Dispatches → (e.apply v).ready.idxOf p + 1 = v.ready.idxOf p) ∧
      (¬ e.Dispatches → (e.apply v).ready.idxOf p = v.ready.idxOf p) := by
  constructor
  · intro hd
    obtain ⟨w, hw, hgrows, happ⟩ := Event.dispatches h he hd
    have hready := hgrows.idxOf_eq hp
    have htail : w.dispatch.ready = w.ready.tail := dispatch_ready w
    rw [happ, htail] at hp'
    rw [happ, htail, ← hready]
    exact idxOf_tail hp' (hw.nodup _)
  · intro hd
    exact (Event.not_dispatches h he hd).2.idxOf_eq hp

end Xeros.Abstract
