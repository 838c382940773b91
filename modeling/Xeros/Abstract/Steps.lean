import Xeros.Abstract.Event

/-!
# What an event does to one process

`ProcStep` lists all the ways in which an event changes what a process is to the others.  A process
that is ready is resumed or left alone; one that is blocked is left alone, counted down, or made
ready for a reason (`Unblocked`); everything else happens to the running process itself or to a
slot of the table that is not in use.
-/

set_option autoImplicit false

namespace Xeros.Abstract

open Xeros.Model Xeros.Foundations

variable {run : Option PcbPtr} {v w : View} {p : PcbPtr}

/-- Why the blocked process `p` becomes ready with return code `r`. -/
inductive Unblocked (v : View) (p : PcbPtr) : Event → ℤ → Prop where
  | signalled (r : ℤ) (hr : (v.proc p).queue ≠ .sleep →
      r = signalledRet (v.proc p).queue (v.proc p).ret) : Unblocked v p (.signal p) r
  | met (src dst : PcbPtr) (hm : Event.Meets v src dst) (hp : Event.peer v src dst = p) :
      Unblocked v p (.deliver src dst) syspidOk
  | ended (hp : (v.proc p).peer = some v.currproc) : Unblocked v p .exit (v.proc p).ret
  | due (hp : (v.proc p).queue = .sleep) : Unblocked v p .timer 0
  | read (r : ℤ) : Unblocked v p (.reader p r) r

/-- What the running process is after an event, if it is blocked then. -/
inductive Blocks (v : View) : Event → ProcView → Prop where
  | queue (o : PcbPtr) (q : BlockingQueue) (r : ℤ) : Blocks v (.block o q r)
      { v.proc v.currproc with state := .blocked, queue := q, peer := some o, ret := r }
  | alone (q : BlockingQueue) (r : ℤ) : Blocks v (.blockAlone q r)
      { v.proc v.currproc with state := .blocked, queue := q, peer := none, ret := r }
  | sleep (t r : ℤ) : Blocks v (.sleep t) (View.asleep (v.proc v.currproc) r)

/-- What the event `e` makes of the process `p`. -/
inductive ProcStep (v : View) (e : Event) (p : PcbPtr) (y : ProcView) : Prop where
  | same (hy : y = v.proc p)
  | counted (hs : p ∈ v.sleepers) (r : ℤ) (hy : y = { v.proc p with ret := r })
  | resumed (hs : (v.proc p).state = .ready ∨ p = .idle)
      (hy : y = { v.proc p with state := .running })
  | readied (r : ℤ) (hp : p ≠ .idle) (hb : (v.proc p).state = .blocked) (hu : Unblocked v p e r)
      (hy : y = View.readied (v.proc p) r ∨
        y = { View.readied (v.proc p) r with state := .running })
  | reused (hs : (v.proc p).state = .stopped) (hy : y.state ≠ .blocked)
  | current (hp : p = v.currproc) (hy : y.state = .blocked → Blocks v e y)

/-- Dispatching resumes a ready process, or the idle process. -/
theorem dispatch_proc (h : Inv none w) (p : PcbPtr) :
    w.dispatch.proc p = w.proc p ∨
      ((w.proc p).state = .ready ∨ p = .idle) ∧
        w.dispatch.proc p = { w.proc p with state := .running } := by
  by_cases hn : p = ((w.lists (.queue (.proc .ready))).head?).getD .idle
  · right
    constructor
    · rcases h.next_state rfl with hi | hr
      · exact .inr (hn.trans hi)
      · exact .inl (by rw [hn]; exact hr)
    · rw [View.dispatch, ← hn]
      simp
  · left
    rw [View.dispatch]
    simp [hn]

/-- A process that was changed, and perhaps dispatched after that. -/
theorem ProcStep.dispatch {e : Event} (hv : Inv run v) (hw : Inv none w)
    (h : ProcStep v e p (w.proc p)) : ProcStep v e p (w.dispatch.proc p) := by
  rcases dispatch_proc hw p with heq | ⟨hs, heq⟩
  · rwa [heq]
  rw [heq]
  cases h with
  | same hy =>
    rw [hy] at hs ⊢
    exact .resumed hs rfl
  | counted hsl r hy =>
    obtain ⟨hpi, hb, -⟩ := sleeper_state hv hsl
    rw [hy] at hs
    rcases hs with hs | hs
    · rw [show _ = _ from hb] at hs
      simp at hs
    · exact absurd hs hpi
  | resumed hs' hy =>
    rw [hy]
    exact .resumed hs' rfl
  | readied r hp hb hu hy =>
    refine .readied r hp hb hu (.inr ?_)
    rcases hy with hy | hy <;> rw [hy]
  | reused hst hy => exact .reused hst (by simp)
  | current hp hy => exact .current hp (by simp)

/-- Events that do not dispatch leave the running process running. -/
theorem ProcStep.running (h : Sound v) {e : Event} (he : e.Enabled v) (hp : p = v.currproc)
    (hc : (e.apply v).currproc = v.currproc) : ProcStep v e p ((e.apply v).proc p) := by
  refine .current hp fun hb => ?_
  have hrun := (Event.inv h he).running_self
  rw [hc, ← hp, hb] at hrun
  simp at hrun

theorem not_current_of_state (h : Inv (some v.currproc) v) (hp : (v.proc p).state ≠ .running) :
    p ≠ v.currproc := by
  rintro rfl
  exact hp h.running_self

/-- What a signal does to the process it does not wake. -/
theorem interrupt_other (h : Inv run v) {q : PcbPtr} (hq : q ≠ .idle)
    (hb : (v.proc q).state = .blocked) (hp : p ≠ q) :
    (v.interrupt q).proc p = v.proc p ∨
      p ∈ v.sleepers ∧ ∃ r, (v.interrupt q).proc p = { v.proc p with ret := r } := by
  unfold View.interrupt
  split_ifs with hs
  · have hmem : q ∈ v.sleepers :=
      (h.mem_iff _ _).mpr ⟨hq, ProcView.place_eq_sleeping_iff.mpr ⟨hb, hs⟩⟩
    obtain ⟨a, b, hl⟩ := List.append_of_mem hmem
    rw [successor_eq h hl]
    by_cases hn : b.head? = some p
    · refine .inr ⟨?_, wake_proc_eq hp⟩
      rw [hl]
      exact List.mem_append_right _ (List.mem_cons_of_mem _ (List.mem_of_mem_head? hn))
    · exact .inl (wake_proc_ne hp hn)
  · exact .inl (View.move_proc_ne v _ hp)

theorem signalled_proc (h : Inv run v) (hp : p ≠ .idle) (hb : (v.proc p).state = .blocked) :
    ∃ r, (v.interrupt p).proc p = View.readied (v.proc p) r ∧ Unblocked v p (.signal p) r := by
  unfold View.interrupt
  split_ifs with hs
  · have hmem : p ∈ v.sleepers :=
      (h.mem_iff _ _).mpr ⟨hp, ProcView.place_eq_sleeping_iff.mpr ⟨hb, hs⟩⟩
    obtain ⟨a, b, hl⟩ := List.append_of_mem hmem
    rw [successor_eq h hl]
    exact ⟨_, wake_proc_self h hl, .signalled _ fun hn => absurd hs hn⟩
  · exact ⟨_, View.move_proc_self v p _, .signalled _ fun _ => rfl⟩

theorem tick_proc (h : Sound v) (p : PcbPtr) : ProcStep v .timer p (v.tick.proc p) := by
  have ht := tick_spec h.inv h.delta h.head
  by_cases hmem : p ∈ v.sleepers
  · obtain ⟨hpi, hb, hq⟩ := sleeper_state h.inv hmem
    by_cases hdue : v.ticksLeft p = 1
    · exact .readied 0 hpi hb (.due hq) (.inl (ht.due p hmem hdue))
    · have hpos := h.delta.ticksLeft_pos h.head hmem
      obtain ⟨-, -, r, hr⟩ := ht.asleep p hmem (by omega)
      exact .counted hmem r hr
  · exact .same (ht.other p hmem)

theorem sleep_proc {t : ℤ} (p : PcbPtr) :
    ProcStep v (.sleep t) p ((v.sleep t).proc p) := by
  by_cases hp : p = v.currproc
  · refine .current hp fun _ => ?_
    rw [hp, sleep_proc_self]
    exact .sleep t _
  · by_cases hn : (splitAtDelay v.delta t v.sleepers).2.2.head? = some p
    · refine .counted ?_ _ (sleep_delta_next hp hn)
      have happ := splitAtDelay_append v.delta t v.sleepers
      rw [← happ]
      exact List.mem_append_right _ (List.mem_of_mem_head? hn)
    · exact .same (sleep_proc_ne hp hn)

theorem terminate_proc (h : Inv (some v.currproc) v) (hcur : v.currproc ≠ .idle) (p : PcbPtr) :
    ProcStep v .exit p (v.terminate.proc p) := by
  have ht := terminate_spec h hcur
  by_cases hp : p = v.currproc
  · refine .current hp fun hb => ?_
    rw [hp, ht.self] at hb
    simp at hb
  · by_cases hpi : p = .idle
    · exact .same (ht.other p hp (.inl hpi))
    by_cases hb : (v.proc p).state = .blocked
    · by_cases hpeer : (v.proc p).peer = some v.currproc
      · exact .readied _ hpi hb (.ended hpeer) (.inl (ht.watcher p hp hpi hb hpeer))
      · exact .same (ht.other p hp (.inr (.inr hpeer)))
    · exact .same (ht.other p hp (.inr (.inl hb)))

/-- The running process becomes `x`, and the others stay as they are. -/
theorem move_current_proc {e : Event} (p : PcbPtr) {x : ProcView}
    (hx : x.state = .blocked → Blocks v e x) :
    ProcStep v e p ((v.move v.currproc x).proc p) := by
  by_cases hp : p = v.currproc
  · refine .current hp fun hb => ?_
    rw [hp, View.move_proc_self] at hb ⊢
    exact hx hb
  · exact .same (View.move_proc_ne v x hp)

/-- Every event does one of these things to every process. -/
theorem Event.proc_step (h : Sound v) {e : Event} (he : e.Enabled v) (p : PcbPtr) :
    ProcStep v e p ((e.apply v).proc p) := by
  have hinv := h.inv
  have hother : ∀ (w : View) (r : ℤ), p ≠ v.currproc →
      (w.setRet v.currproc r).proc p = w.proc p := fun w r hp => View.setRet_proc_ne w r hp
  cases e with
  | ret r =>
    by_cases hp : p = v.currproc
    · exact .running h he hp rfl
    · exact .same (hother v r hp)
  | recycle q =>
    by_cases hp : p = v.currproc
    · exact .running h he hp rfl
    · have heq : ((Event.recycle q).apply v).proc p = (v.recycle q).proc p := hother _ _ hp
      rw [heq]
      by_cases hpq : p = q
      · rw [hpq]
        refine .reused he.2 ?_
        rw [View.recycle, View.move_proc_self]
        simp
      · exact .same (View.move_proc_ne v _ hpq)
  | spawn q pid =>
    by_cases hp : p = v.currproc
    · exact .running h he hp rfl
    · have heq : ((Event.spawn q pid).apply v).proc p = (v.spawn q pid).proc p := hother _ _ hp
      rw [heq]
      by_cases hpq : p = q
      · rw [hpq]
        refine .reused he.2.1 ?_
        rw [View.spawn, View.move_proc_self]
        simp
      · exact .same (View.move_proc_ne v _ hpq)
  | yield => exact (move_current_proc p (by simp)).dispatch hinv hinv.preempt
  | timer =>
    have ht := tick_spec hinv h.delta h.head
    have hti : Inv (some v.tick.currproc) v.tick := by
      rw [ht.currproc]
      exact ht.inv
    refine ProcStep.dispatch hinv hti.preempt ?_
    by_cases hp : p = v.currproc
    · refine .current hp fun hb => ?_
      rw [hp, ← ht.currproc, View.preempt, View.move_proc_self] at hb
      simp at hb
    · have heq : v.tick.preempt.proc p = v.tick.proc p :=
        View.move_proc_ne _ _ (by rw [ht.currproc]; exact hp)
      rw [heq]
      exact tick_proc h p
  | exit => exact (terminate_proc hinv he p).dispatch hinv (terminate_spec hinv he).inv
  | signal q =>
    obtain ⟨hq, hb⟩ := he
    by_cases hp : p = v.currproc
    · exact .running h ⟨hq, hb⟩ hp (interrupt_currproc v q)
    · have heq : ((Event.signal q).apply v).proc p = (v.interrupt q).proc p := hother _ _ hp
      rw [heq]
      by_cases hpq : p = q
      · subst hpq
        obtain ⟨r, hr, hu⟩ := signalled_proc hinv hq hb
        exact .readied r hq hb hu (.inl hr)
      · rcases interrupt_other hinv hq hb hpq with hs | ⟨hmem, r, hr⟩
        · exact .same hs
        · exact .counted hmem r hr
  | block o q r =>
    obtain ⟨hci, ho, hos, hq⟩ := he
    exact (move_current_proc p fun _ => .queue o q r).dispatch hinv (hinv.block hci ho hos hq r)
  | blockAlone q r =>
    obtain ⟨hci, hq⟩ := he
    exact (move_current_proc p fun _ => .alone q r).dispatch hinv (hinv.blockAlone hci hq r)
  | deliver src dst =>
    obtain ⟨hpi, hpb, -, hpc⟩ := Event.peer_state hinv he.2
    by_cases hp : p = v.currproc
    · exact .running h he hp rfl
    · have heq : ((Event.deliver src dst).apply v).proc p =
          ((v.record src dst).unblock (Event.peer v src dst) syspidOk).proc p := hother _ _ hp
      rw [heq]
      by_cases hpq : p = Event.peer v src dst
      · rw [hpq]
        refine .readied syspidOk hpi hpb (.met src dst he.2 rfl) (.inl ?_)
        exact View.move_proc_self _ _ _
      · exact .same (View.move_proc_ne (v.record src dst) _ hpq)
  | sleep t => exact (sleep_proc p).dispatch hinv (sleep_inv hinv he.1)
  | reader q r =>
    obtain ⟨hq, hb, -⟩ := he
    by_cases hpq : p = q
    · subst hpq
      exact .readied r hq hb (.read r) (.inl (View.move_proc_self v p _))
    · exact .same (View.move_proc_ne v _ hpq)

/-! ## What follows for one process -/

/-- A process that is ready stays as it is until it is resumed. -/
theorem Event.ready_step (h : Sound v) {e : Event} (he : e.Enabled v)
    (hs : (v.proc p).state = .ready) : (e.apply v).proc p = v.proc p ∨
      (e.apply v).proc p = { v.proc p with state := .running } := by
  cases Event.proc_step h he p with
  | same hy => exact .inl hy
  | counted hsl r hy =>
    rw [(sleeper_state h.inv hsl).2.1] at hs
    simp at hs
  | resumed _ hy => exact .inr hy
  | readied r hp hb hu hy =>
    rw [hb] at hs
    simp at hs
  | reused hst hy =>
    rw [hst] at hs
    simp at hs
  | current hp hy =>
    rw [hp, h.inv.running_self] at hs
    simp at hs

/-- A process that waits for another one stays as it is until it becomes ready. -/
theorem Event.blocked_step (h : Sound v) {e : Event} (he : e.Enabled v) (hp : p ≠ .idle)
    (hb : (v.proc p).state = .blocked) (hq : (v.proc p).queue ≠ .sleep) :
    (e.apply v).proc p = v.proc p ∨ ∃ r, Unblocked v p e r ∧
      ((e.apply v).proc p = View.readied (v.proc p) r ∨
        (e.apply v).proc p = { View.readied (v.proc p) r with state := .running }) := by
  cases Event.proc_step h he p with
  | same hy => exact .inl hy
  | counted hsl r hy => exact absurd (sleeper_state h.inv hsl).2.2 hq
  | resumed hs _ =>
    rcases hs with hs | hs
    · rw [hb] at hs
      simp at hs
    · exact absurd hs hp
  | readied r _ _ hu hy => exact .inr ⟨r, hu, hy⟩
  | reused hst _ =>
    rw [hb] at hst
    simp at hst
  | current hc hy =>
    rw [hc, h.inv.running_self] at hb
    simp at hb

/-- A process that is blocked after an event was blocked in the same way before it, or blocked
itself. -/
theorem Event.blocked_before (h : Sound v) {e : Event} (he : e.Enabled v)
    (hb : ((e.apply v).proc p).state = .blocked) :
    (v.proc p).state = .blocked ∧ ((e.apply v).proc p).queue = (v.proc p).queue ∧
        ((e.apply v).proc p).peer = (v.proc p).peer ∨
      p = v.currproc ∧ Blocks v e ((e.apply v).proc p) := by
  cases Event.proc_step h he p with
  | same hy =>
    rw [hy] at hb ⊢
    exact .inl ⟨hb, rfl, rfl⟩
  | counted hsl r hy =>
    rw [hy]
    exact .inl ⟨(sleeper_state h.inv hsl).2.1, rfl, rfl⟩
  | resumed _ hy =>
    rw [hy] at hb
    simp at hb
  | readied r _ _ _ hy => rcases hy with hy | hy <;> rw [hy] at hb <;> simp [View.readied] at hb
  | reused _ hy => exact absurd hb hy
  | current hc hy => exact .inr ⟨hc, hy hb⟩

/-- A process that has stopped stays stopped until its slot is filled again. -/
theorem Event.stopped_step (h : Sound v) {e : Event} (he : e.Enabled v) (hp : p ≠ .idle)
    (hs : (v.proc p).state = .stopped) :
    ((e.apply v).proc p).state = .stopped ∨ ∃ pid, e = .spawn p pid := by
  have hcur : p ≠ v.currproc := not_current_of_state h.inv (by rw [hs]; simp)
  have hret : ∀ (w : View) (r : ℤ), (w.setRet v.currproc r).proc p = w.proc p := fun w r =>
    View.setRet_proc_ne w r hcur
  have hsleep : p ∉ v.sleepers := not_sleeper_of_state h.inv (by rw [hs]; simp)
  have hblocked : ∀ q, (v.proc q).state = .blocked → p ≠ q := by
    rintro q hb rfl
    rw [hs] at hb
    simp at hb
  have hdispatch : ∀ {w : View}, Inv none w → w.proc p = v.proc p →
      ((w.dispatch).proc p).state = .stopped := by
    intro w hw hsame
    rcases dispatch_proc hw p with heq | ⟨hst, -⟩
    · rw [heq, hsame, hs]
    · rw [hsame, hs] at hst
      simp [hp] at hst
  have hmove : ∀ x : ProcView, (v.move v.currproc x).proc p = v.proc p := fun x =>
    View.move_proc_ne v x hcur
  cases e with
  | spawn q pid =>
    by_cases hpq : p = q
    · exact .inr ⟨pid, by rw [hpq]⟩
    · left
      show ((((v.spawn q pid).setRet v.currproc pid)).proc p).state = _
      rw [hret, View.spawn, View.move_proc_ne _ _ hpq, hs]
  | recycle q =>
    left
    show ((((v.recycle q).setRet v.currproc eproclimit)).proc p).state = _
    rw [hret, View.recycle]
    by_cases hpq : p = q
    · rw [hpq, View.move_proc_self]
    · rw [View.move_proc_ne _ _ hpq, hs]
  | ret r =>
    left
    show (((v.setRet v.currproc r)).proc p).state = _
    rw [hret, hs]
  | yield => exact .inl (hdispatch h.inv.preempt (hmove _))
  | timer =>
    have ht := tick_spec h.inv h.delta h.head
    have hti : Inv (some v.tick.currproc) v.tick := by
      rw [ht.currproc]
      exact ht.inv
    refine .inl (hdispatch hti.preempt ?_)
    rw [View.preempt, View.move_proc_ne _ _ (by rw [ht.currproc]; exact hcur)]
    exact ht.other p hsleep
  | exit =>
    have ht := terminate_spec h.inv he
    exact .inl (hdispatch ht.inv (ht.other p hcur (.inr (.inl (by rw [hs]; simp)))))
  | signal q =>
    left
    show ((((v.interrupt q).setRet v.currproc 0)).proc p).state = _
    rw [hret]
    rcases interrupt_other h.inv he.1 he.2 (hblocked q he.2) with heq | ⟨hmem, -⟩
    · rw [heq, hs]
    · exact absurd hmem hsleep
  | block o q r => exact .inl (hdispatch (h.inv.block he.1 he.2.1 he.2.2.1 he.2.2.2 r) (hmove _))
  | blockAlone q r => exact .inl (hdispatch (h.inv.blockAlone he.1 he.2 r) (hmove _))
  | deliver src dst =>
    left
    obtain ⟨-, hpb, -, -⟩ := Event.peer_state h.inv he.2
    show ((((v.record src dst).unblock (Event.peer v src dst) syspidOk).setRet v.currproc
      syspidOk).proc p).state = _
    rw [hret, View.unblock, View.move_proc_ne _ _ (hblocked _ hpb)]
    exact hs
  | sleep t =>
    refine .inl (hdispatch (sleep_inv h.inv he.1) (sleep_proc_ne hcur fun hn => ?_))
    have happ := splitAtDelay_append v.delta t v.sleepers
    refine hsleep ?_
    rw [← happ]
    exact List.mem_append_right _ (List.mem_of_mem_head? hn)
  | reader q r =>
    left
    show ((v.unblock q r).proc p).state = _
    rw [View.unblock, View.move_proc_ne _ _ (hblocked q he.2.1), hs]
/-! ## Transfers -/

/-- The transfer of a message that an event makes. -/
def Event.transferred : Event → List (PcbPtr × PcbPtr)
  | deliver src dst => [(src, dst)]
  | _ => []

/-- A rendezvous is the only event that transfers a message. -/
theorem Event.apply_transfers (h : Sound v) {e : Event} (he : e.Enabled v) :
    (e.apply v).transfers = v.transfers ++ e.transferred := by
  have hinv := h.inv
  cases e with
  | deliver src dst => rfl
  | timer => exact (tick_spec hinv h.delta h.head).transfers.trans (List.append_nil _).symm
  | exit => exact (terminate_spec hinv he).transfers.trans (List.append_nil _).symm
  | signal p =>
    have hnone : (signal p).transferred = [] := rfl
    show (v.interrupt p).transfers = _
    rw [hnone, List.append_nil]
    unfold View.interrupt
    split_ifs
    · exact wake_transfers v _ p
    · rfl
  | sleep t => exact (sleep_transfers v t).trans (List.append_nil _).symm
  | _ => exact (List.append_nil _).symm

end Xeros.Abstract
