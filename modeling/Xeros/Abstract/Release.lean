import Xeros.Abstract.Sleep

/-!
# Processes released together

When a process ends, everyone blocked in its queues becomes ready (`View.notify`); a signal
readies one blocked process (`View.interrupt`).
-/

set_option autoImplicit false

namespace Xeros.Abstract

open Xeros.Model Xeros.Foundations

variable {run : Option PcbPtr} {v : View} {p : PcbPtr}

theorem unblock_lists (hp : p ≠ .idle) (r : ℤ) (i : ListId) :
    (v.unblock p r).lists i =
      (v.lists i).erase p ++ if i = .queue (.proc .ready) then [p] else [] := by
  have hplace : (View.readied (v.proc p) r).place = some (.queue (.proc .ready)) := rfl
  simp [View.unblock, View.move_lists, hplace, hp, eq_comm]

/-- `w` is `v` with the processes of `l` made ready. -/
structure Released (run : Option PcbPtr) (l : List PcbPtr) (v w : View) : Prop where
  inv : Inv run w
  currproc : w.currproc = v.currproc
  transfers : w.transfers = v.transfers
  proc_mem : ∀ p ∈ l, w.proc p = View.readied (v.proc p) (v.proc p).ret
  proc_other : ∀ p, p ∉ l → w.proc p = v.proc p
  lists : ∀ i, i ≠ .queue (.proc .ready) → w.lists i = (v.lists i).filter fun p => p ∉ l

theorem release_spec {l : List PcbPtr} (h : Inv run v) (hnd : l.Nodup)
    (hl : ∀ p ∈ l, p ≠ .idle ∧ (v.proc p).state = .blocked) :
    Released run l v (View.release l v) := by
  induction l generalizing v with
  | nil => exact ⟨h, rfl, rfl, by simp, fun _ _ => rfl, by simp [View.release]⟩
  | cons p l ih =>
    obtain ⟨hpl, hndl⟩ := List.nodup_cons.mp hnd
    obtain ⟨hpi, hpb⟩ := hl p (by simp)
    have hne : ∀ q, q ≠ p → (v.unblock p (v.proc p).ret).proc q = v.proc q := fun q hq =>
      View.move_proc_ne v _ hq
    have hu := ih (v := v.unblock p (v.proc p).ret) (h.unblock hpi hpb _) hndl fun q hq => by
      rw [hne q (ne_of_mem_of_not_mem hq hpl)]
      exact hl q (by simp [hq])
    refine ⟨hu.inv, hu.currproc, hu.transfers, fun q hq => ?_, fun q hq => ?_, fun i hi => ?_⟩
    · rcases List.mem_cons.mp hq with rfl | hql
      · show (View.release l (v.unblock q (v.proc q).ret)).proc q = _
        rw [hu.proc_other q hpl]
        exact View.move_proc_self v q _
      · show (View.release l (v.unblock p (v.proc p).ret)).proc q = _
        rw [hu.proc_mem q hql, hne q (ne_of_mem_of_not_mem hql hpl)]
    · rw [List.mem_cons, not_or] at hq
      show (View.release l (v.unblock p (v.proc p).ret)).proc q = _
      rw [hu.proc_other q hq.2, hne q hq.1]
    · show (View.release l (v.unblock p (v.proc p).ret)).lists i = _
      rw [hu.lists i hi, unblock_lists hpi, if_neg hi, List.append_nil,
        (h.nodup i).erase_eq_filter, List.filter_filter]
      refine List.filter_congr fun q _ => ?_
      by_cases hqp : q = p <;> simp [hqp]

theorem Released.pid {l : List PcbPtr} {v w : View} (h : Released run l v w) (p : PcbPtr) :
    (w.proc p).pid = (v.proc p).pid := by
  by_cases hp : p ∈ l
  · rw [h.proc_mem p hp]
    rfl
  · rw [h.proc_other p hp]

theorem queue_blocked (h : Inv run v) {o : PcbPtr} {q : BlockingQueue}
    (hp : p ∈ v.lists (.queue (.blocking o q))) :
    p ≠ .idle ∧ (v.proc p).state = .blocked ∧ owned q ∧ (v.proc p).queue = q ∧
      (v.proc p).peer = some o := by
  obtain ⟨hpi, hplace⟩ := (h.mem_iff _ _).mp hp
  obtain ⟨h1, h2, h3, h4⟩ := ProcView.place_eq_blocking_iff.mp hplace
  exact ⟨hpi, h1, h2, h3, h4⟩

theorem notify_spec (h : Inv run v) (o : PcbPtr) (q : BlockingQueue) :
    Released run (v.lists (.queue (.blocking o q))) v (v.notify o q) :=
  release_spec h (h.nodup _) fun _ hp => ⟨(queue_blocked h hp).1, (queue_blocked h hp).2.1⟩

/-- Nobody is left in a queue that was notified. -/
theorem notify_empty (h : Inv run v) (o : PcbPtr) (q : BlockingQueue) :
    (v.notify o q).lists (.queue (.blocking o q)) = [] := by
  rw [(notify_spec h o q).lists _ (by simp), List.filter_eq_nil_iff]
  simp

/-- Notifying one queue leaves the others alone. -/
theorem notify_lists_ne (h : Inv run v) (o : PcbPtr) (q : BlockingQueue) {i : ListId}
    (hi : i ≠ .queue (.proc .ready)) (hne : i ≠ .queue (.blocking o q)) :
    (v.notify o q).lists i = v.lists i := by
  rw [(notify_spec h o q).lists _ hi, List.filter_eq_self]
  intro p hp
  simp only [decide_not, Bool.not_eq_eq_eq_not, Bool.not_true, decide_eq_false_iff_not]
  exact fun hpq => hne (h.mem_unique hp hpq)

/-- What the end of the running process `o` does to the others. -/
structure Terminated (v w : View) : Prop where
  inv : Inv none w
  currproc : w.currproc = v.currproc
  transfers : w.transfers = v.transfers
  self : w.proc v.currproc = { v.proc v.currproc with state := .stopped }
  watcher : ∀ p, p ≠ v.currproc → p ≠ .idle → (v.proc p).state = .blocked →
    (v.proc p).peer = some v.currproc → w.proc p = View.readied (v.proc p) (v.proc p).ret
  other : ∀ p, p ≠ v.currproc →
    (p = .idle ∨ (v.proc p).state ≠ .blocked ∨ (v.proc p).peer ≠ some v.currproc) →
    w.proc p = v.proc p
  sleepers : w.sleepers = v.sleepers

theorem terminate_spec (h : Inv (some v.currproc) v) (hcur : v.currproc ≠ .idle) :
    Terminated v v.terminate := by
  set o := v.currproc with ho
  have h1 := notify_spec h o .sender
  have h2 := notify_spec h1.inv o .receiver
  have h3 := notify_spec h2.inv o .waiting
  set v1 := v.notify o .sender with hv1
  set v2 := v1.notify o .receiver with hv2
  set v3 := v2.notify o .waiting with hv3
  have hc3 : v3.currproc = o := by rw [h3.currproc, h2.currproc, h1.currproc]
  have hl1 : ∀ q, q ≠ .sender → v1.lists (.queue (.blocking o q)) =
      v.lists (.queue (.blocking o q)) := fun q hq =>
    notify_lists_ne h o .sender (by simp) (by simp [hq])
  have hl2 : ∀ q, q ≠ .receiver → v2.lists (.queue (.blocking o q)) =
      v1.lists (.queue (.blocking o q)) := fun q hq =>
    notify_lists_ne h1.inv o .receiver (by simp) (by simp [hq])
  have hl3 : ∀ q, q ≠ .waiting → v3.lists (.queue (.blocking o q)) =
      v2.lists (.queue (.blocking o q)) := fun q hq =>
    notify_lists_ne h2.inv o .waiting (by simp) (by simp [hq])
  have hempty : ∀ q, owned q → v3.lists (.queue (.blocking v3.currproc q)) = [] := by
    rintro q (rfl | rfl | rfl)
    · rw [hc3, hl3 _ (by simp), hl2 _ (by simp)]
      exact notify_empty h o .sender
    · rw [hc3, hl3 _ (by simp)]
      exact notify_empty h1.inv o .receiver
    · rw [hc3]
      exact notify_empty h2.inv o .waiting
  have hterm : v.terminate = v3.exit := rfl
  rw [hterm]
  have hexit : ∀ p, p ≠ o → v3.exit.proc p = v3.proc p := fun p hp =>
    View.move_proc_ne v3 _ (by rw [hc3]; exact hp)
  -- a watcher is in one of the three queues
  have hwatch : ∀ p, p ≠ .idle → (v.proc p).state = .blocked → (v.proc p).peer = some o →
      p ∈ v.lists (.queue (.blocking o (v.proc p).queue)) ∧ owned (v.proc p).queue := by
    intro p hpi hb hpeer
    have hown : owned (v.proc p).queue := by
      by_contra hn
      rw [(h.consistent p hpi).alone hb hn] at hpeer
      simp at hpeer
    exact ⟨(h.mem_iff _ _).mpr ⟨hpi, ProcView.place_eq_blocking_iff.mpr ⟨hb, hown, rfl, hpeer⟩⟩,
      hown⟩
  have hmem : ∀ p q, p ∈ v.lists (.queue (.blocking o q)) → (v.proc p).queue = q := fun p q hp =>
    (queue_blocked h hp).2.2.2.1
  have hm1 : ∀ p, p ∈ v1.lists (.queue (.blocking o .receiver)) ↔
      p ∈ v.lists (.queue (.blocking o .receiver)) := fun p => by rw [hl1 _ (by simp)]
  have hm2 : ∀ p, p ∈ v2.lists (.queue (.blocking o .waiting)) ↔
      p ∈ v.lists (.queue (.blocking o .waiting)) := fun p => by
    rw [hl2 _ (by simp), hl1 _ (by simp)]
  refine ⟨Inv.exit (by rw [hc3, ← hc3]; exact hc3 ▸ h3.inv) (by rw [hc3]; exact hcur) hempty,
    hc3, by
      show v3.transfers = _
      rw [h3.transfers, h2.transfers, h1.transfers], ?_, fun p hpo hpi hb hpeer => ?_,
    fun p hpo hp => ?_, ?_⟩
  · have hoq : ∀ q, o ∉ v.lists (.queue (.blocking o q)) := fun q => h.not_mem_current _
    have hself : v3.proc o = v.proc o := by
      rw [h3.proc_other o (by rw [hm2]; exact hoq _), h2.proc_other o (by rw [hm1]; exact hoq _),
        h1.proc_other o (hoq _)]
    unfold View.exit
    rw [hc3, View.move_proc_self, hself]
  · obtain ⟨hin, hown⟩ := hwatch p hpi hb hpeer
    rw [hexit p hpo]
    rcases hown with hq | hq | hq
    · rw [hq] at hin
      have hn2 : p ∉ v2.lists (.queue (.blocking o .waiting)) := fun hc => by
        have := hmem p _ ((hm2 p).mp hc)
        rw [hq] at this
        simp at this
      have hn1 : p ∉ v1.lists (.queue (.blocking o .receiver)) := fun hc => by
        have := hmem p _ ((hm1 p).mp hc)
        rw [hq] at this
        simp at this
      rw [h3.proc_other p hn2, h2.proc_other p hn1, h1.proc_mem p hin]
    · rw [hq] at hin
      have hn2 : p ∉ v2.lists (.queue (.blocking o .waiting)) := fun hc => by
        have := hmem p _ ((hm2 p).mp hc)
        rw [hq] at this
        simp at this
      have hn0 : p ∉ v.lists (.queue (.blocking o .sender)) := fun hc => by
        have := hmem p _ hc
        rw [hq] at this
        simp at this
      rw [h3.proc_other p hn2, h2.proc_mem p ((hm1 p).mpr hin), h1.proc_other p hn0]
    · rw [hq] at hin
      have hn1 : p ∉ v1.lists (.queue (.blocking o .receiver)) := fun hc => by
        have := hmem p _ ((hm1 p).mp hc)
        rw [hq] at this
        simp at this
      have hn0 : p ∉ v.lists (.queue (.blocking o .sender)) := fun hc => by
        have := hmem p _ hc
        rw [hq] at this
        simp at this
      rw [h3.proc_mem p ((hm2 p).mpr hin), h2.proc_other p hn1, h1.proc_other p hn0]
  · have hnot : ∀ q, p ∉ v.lists (.queue (.blocking o q)) := by
      intro q hq
      obtain ⟨hpi, hb, -, -, hpeer⟩ := queue_blocked h hq
      rcases hp with hp | hp | hp
      · exact hpi hp
      · exact hp hb
      · exact hp hpeer
    rw [hexit p hpo, h3.proc_other p (by rw [hm2]; exact hnot _),
      h2.proc_other p (by rw [hm1]; exact hnot _), h1.proc_other p (hnot _)]
  · have hoSleep : o ∉ v.sleepers := h.not_mem_current .sleeping
    have hs3 : v3.sleepers = v.sleepers := by
      show v3.lists .sleeping = v.lists .sleeping
      rw [hv3, notify_lists_ne h2.inv o .waiting (by simp) (by simp), hv2,
        notify_lists_ne h1.inv o .receiver (by simp) (by simp), hv1,
        notify_lists_ne h o .sender (by simp) (by simp)]
    show (v3.move v3.currproc _).lists .sleeping = _
    rw [View.move_lists, hc3]
    have : v3.lists .sleeping = v.sleepers := hs3
    rw [this, List.erase_of_not_mem hoSleep]
    simp [ProcView.place]

/-! ## Signals -/

/-- The successor of a sleeper is the node behind it. -/
theorem successor_eq (h : Inv run v) {a b : List PcbPtr} (hl : v.sleepers = a ++ p :: b) :
    v.successor p = b.head? := by
  have hpa : p ∉ a := fun hpa => not_mem_around h hl (List.mem_append_left _ hpa)
  have hl' : v.lists .sleeping = a ++ p :: b := hl
  unfold View.successor
  rw [hl', List.idxOf_append_of_notMem hpa]
  simp [List.drop_append]

theorem interrupt_inv (h : Inv run v) (hp : p ≠ .idle) (hb : (v.proc p).state = .blocked) :
    Inv run (v.interrupt p) := by
  unfold View.interrupt
  split_ifs
  · exact h.wake hp hb _
  · exact h.unblock hp hb _

/-- Signals leave the deadlines of other sleepers alone. -/
theorem interrupt_delta (h : Inv run v) (hd : Delta v) (hh : HeadPos v) (hp : p ≠ .idle)
    (hb : (v.proc p).state = .blocked) : Delta (v.interrupt p) ∧ HeadPos (v.interrupt p) ∧
      (v.interrupt p).sleepers = v.sleepers.erase p ∧
      ∀ q ∈ v.sleepers, q ≠ p → (v.interrupt p).ticksLeft q = v.ticksLeft q := by
  unfold View.interrupt
  split_ifs with hq
  · have hpm : p ∈ v.sleepers :=
      (h.mem_iff _ _).mpr ⟨hp, ProcView.place_eq_sleeping_iff.mpr ⟨hb, hq⟩⟩
    obtain ⟨a, b, hl⟩ := List.append_of_mem hpm
    have hpa : p ∉ a := fun hpa => not_mem_around h hl (List.mem_append_left _ hpa)
    rw [successor_eq h hl]
    refine ⟨wake_delta h hd hl, wake_headPos h hd hh hl, ?_, fun q hqs hqp => ?_⟩
    · rw [wake_sleepers h hl, hl, List.erase_append_right _ hpa]
      simp
    · refine wake_ticksLeft h hl ?_
      rw [hl] at hqs
      simpa [hqp] using hqs
  · have hpm : p ∉ v.sleepers := fun hpm => hq (sleeper_state h hpm).2.2
    have hsl : (v.unblock p (signalledRet (v.proc p).queue (v.proc p).ret)).sleepers =
        v.sleepers := by
      rw [View.sleepers, unblock_lists hp]
      simp [List.erase_of_not_mem hpm]
    have hdel : ∀ q ∈ v.sleepers,
        (v.unblock p (signalledRet (v.proc p).queue (v.proc p).ret)).delta q = v.delta q := by
      intro q hqs
      rw [View.delta, View.unblock, View.move_proc_ne _ _ (ne_of_mem_of_not_mem hqs hpm)]
      rfl
    refine ⟨⟨fun q hqs => ?_, ?_⟩, fun q hqs => ?_, ?_, fun q hqs _ => ?_⟩
    · rw [hsl] at hqs
      rw [hdel q hqs]
      exact hd.nonneg q hqs
    · rw [hsl, total_congr hdel]
      exact hd.bound
    · rw [hsl] at hqs
      rw [hdel q (List.mem_of_mem_head? hqs)]
      exact hh q hqs
    · rw [hsl, List.erase_of_not_mem hpm]
    · unfold View.ticksLeft
      rw [hsl, remaining_congr hdel]

end Xeros.Abstract
