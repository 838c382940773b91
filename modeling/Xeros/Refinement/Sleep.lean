import Xeros.Abstract.Sleep
import Xeros.Model.Sleep
import Xeros.Refinement.Queues

/-!
# What sleep.c does to the view

With the differences in range the 32-bit arithmetic of sleep.c is exact, and `sleep`, `wake` and
`tick` are the abstract operations of the same names.
-/

set_option autoImplicit false

namespace Xeros.Model.KernelOf

open Xeros.Foundations Xeros.Abstract Xeros.Interface

variable {Q : Type} [ProcLists Q] [LawfulProcLists Q] {s : KernelOf Q} {run : Option PcbPtr}
  {p : PcbPtr}

/-- `proc->ret = r;` -/
def withRet (s : KernelOf Q) (p : PcbPtr) (r : ℤ) : KernelOf Q :=
  s.setPcb p fun x => { x with ret := r }

omit [ProcLists Q] [LawfulProcLists Q] in
theorem withRet_ret_self (s : KernelOf Q) (p : PcbPtr) (r : ℤ) :
    ((s.withRet p r).pcb p).ret = r := by
  simp [withRet]

omit [ProcLists Q] [LawfulProcLists Q] in
theorem withRet_ret_ne (s : KernelOf Q) {p q : PcbPtr} (r : ℤ) (h : q ≠ p) :
    ((s.withRet p r).pcb q).ret = (s.pcb q).ret := by
  simp [withRet, h]

omit [ProcLists Q] [LawfulProcLists Q] in
/-- `proc->ret -= c;` -/
theorem withRet_sub (s : KernelOf Q) (p : PcbPtr) (t c : ℤ) :
    (s.withRet p t).setPcb p (fun x => { x with ret := wrapInt (x.ret - c) }) =
      s.withRet p (wrapInt (t - c)) :=
  setPcb_setPcb s p _ _

theorem becomes_withRet (h : LawfulProcLists.WellFormed s.queues) (p : PcbPtr) (r : ℤ) :
    Becomes s (s.view.setRet p r) (s.withRet p r) :=
  becomes_setPcb h p fun x => { x with ret := r }

/-! ## Falling asleep -/

/-- The search loop of `add_to_sleeping_list` finds the place that `splitAtDelay` says. -/
theorem sleepingLoop_spec (hwf : LawfulProcLists.WellFormed s.queues)
    (hp : p ∉ LawfulProcLists.lists s.queues .sleeping)
    (hnn : ∀ q ∈ LawfulProcLists.lists s.queues .sleeping, 0 ≤ (s.pcb q).ret)
    {a b : List PcbPtr} (hl : LawfulProcLists.lists s.queues .sleeping = a ++ b) {t : ℤ}
    (ht0 : 1 ≤ t) (ht : t ≤ maxTicks) {n : ℕ} (hn : b.length < n) :
    loop (sleepingRound p) n (s.withRet p t, a.getLast?, b.head?) =
      some (s.withRet p (splitAtDelay s.view.delta t b).2.1,
        (a ++ (splitAtDelay s.view.delta t b).1).getLast?,
        (splitAtDelay s.view.delta t b).2.2.head?) := by
  induction b generalizing a t n with
  | nil =>
    obtain ⟨n, rfl⟩ : ∃ m, n = m + 1 := ⟨n - 1, by simp at hn; omega⟩
    rw [loop_succ_done n (a := (s.withRet p t, a.getLast?, none)) rfl]
    simp [splitAtDelay]
  | cons e b ih =>
    obtain ⟨n, rfl⟩ : ∃ m, n = m + 1 := ⟨n - 1, by omega⟩
    have hep : e ≠ p := by
      rintro rfl
      exact hp (by simp [hl])
    have he0 : 0 ≤ (s.pcb e).ret := hnn e (by simp [hl])
    have hdelta : s.view.delta e = (s.pcb e).ret := rfl
    have hnext : ProcLists.nextProc s.queues e = b.head? := LawfulProcLists.nextProc hwf hl
    unfold splitAtDelay
    rw [hdelta]
    split_ifs with hlt
    · have hwrap : wrapInt (t - (s.pcb e).ret) = t - (s.pcb e).ret :=
        wrapInt_of_range (by omega) (by unfold maxTicks at ht; omega)
      have hround : sleepingRound p (s.withRet p t, a.getLast?, (e :: b).head?) =
          some (.again (s.withRet p (t - (s.pcb e).ret), (a ++ [e]).getLast?, b.head?)) := by
        unfold sleepingRound
        rw [List.head?_cons]
        simp only [withRet_ret_self, withRet_ret_ne s t hep, gt_iff_lt, hlt, if_true]
        rw [withRet_sub, hwrap, List.getLast?_concat, ← hnext]
        rfl
      rw [loop_succ_again n hround, ih (a := a ++ [e]) (by simpa using hl) (by omega) (by omega)
        (by simpa using hn)]
      simp
    · have hround : sleepingRound p (s.withRet p t, a.getLast?, (e :: b).head?) =
          some (.done (s.withRet p t, a.getLast?, some e)) := by
        unfold sleepingRound
        rw [List.head?_cons]
        simp only [withRet_ret_self, withRet_ret_ne s t hep, gt_iff_lt, hlt, if_false]
      rw [loop_succ_done n hround]
      simp

/-- The number of ticks that `sleep` computes. -/
def ticksOf (time : ℕ) : ℤ :=
  ((time / tickLengthInMs + if time % tickLengthInMs ≠ 0 then 1 else 0 : ℕ) : ℤ)

theorem ticksOf_range {time : ℕ} (h0 : 0 < time) (h : time < 4294967296) :
    1 ≤ ticksOf time ∧ ticksOf time ≤ maxTicks := by
  unfold ticksOf tickLengthInMs maxTicks
  split_ifs with hmod <;> omega

theorem toInt_ticksOf {time : ℕ} (h : time < 4294967296) :
    toInt (time / tickLengthInMs + if time % tickLengthInMs ≠ 0 then 1 else 0) = ticksOf time := by
  unfold toInt
  refine wrapInt_of_range ?_ ?_ <;> unfold tickLengthInMs <;> split_ifs <;> omega

theorem insertSleeper_set_comm {v : View} {e p : PcbPtr} (h : e ≠ p) (f : ProcView → ProcView)
    (x : ProcView) (a b : List PcbPtr) :
    (v.set e f).insertSleeper p x a b = (v.insertSleeper p x a b).set e f := by
  unfold View.insertSleeper View.set
  rw [Function.update_comm h]
  simp [h]

/-- `add_to_sleeping_list` on the running process, when it has its whole time in `ret`. -/
theorem addToSleepingList_spec {v : View} {t : ℤ} (hv : Inv (some v.currproc) v) (hd : Delta v)
    (hwf : LawfulProcLists.WellFormed s.queues)
    (hs : s.view = v.set v.currproc fun x => View.asleep x t) (ht1 : 1 ≤ t) (htmax : t ≤ maxTicks) :
    ∃ s', s.addToSleepingList v.currproc = some s' ∧ Becomes s (v.sleep t) s' := by
  set cur := v.currproc with hcur
  set L := v.sleepers with hL
  have hlists : LawfulProcLists.lists s.queues = v.lists := congrArg View.lists hs
  have hnot : ∀ i, cur ∉ LawfulProcLists.lists s.queues i := fun i => by
    rw [hlists]
    exact hv.not_mem_current i
  have hsL : LawfulProcLists.lists s.queues .sleeping = L := by rw [hlists]
  have hret : ∀ q ∈ L, s.view.delta q = v.delta q := by
    intro q hq
    have hqc : q ≠ cur := ne_of_mem_of_not_mem hq (hv.not_mem_current _)
    rw [hs]
    simp [View.delta, hqc]
  have hsplit : ∀ l : List PcbPtr, (∀ q ∈ l, q ∈ L) →
      ∀ r, splitAtDelay s.view.delta r l = splitAtDelay v.delta r l := by
    intro l hl
    induction l with
    | nil => intro r; rfl
    | cons e l ih =>
      intro r
      unfold splitAtDelay
      rw [hret e (hl e (by simp)), ih fun q hq => hl q (by simp [hq])]
  have happ := splitAtDelay_append v.delta t L
  -- the search loop ends between `a` and `b`
  have hself : s.withRet cur t = s := by
    have hsc : (s.pcb cur).ret = t := by
      have hview : (s.pcb cur).view = View.asleep (v.proc cur) t := by
        rw [← view_proc, hs, View.set_proc_self]
      exact congrArg ProcView.ret hview
    unfold withRet setPcb Core.setPcb
    rw [← hsc]
    simp
  have hloop := sleepingLoop_spec (s := s) (p := cur) (a := []) (b := L) (t := t) (n := loopBound)
    hwf (hnot _) (fun q hq => by
      rw [hsL] at hq
      have h0 := hd.nonneg q hq
      rw [← hret q hq] at h0
      exact h0) (by rw [hsL]; rfl) ht1 htmax (by
        have hlen := LawfulProcLists.length_le hwf .sleeping
        rw [hsL] at hlen
        unfold loopBound
        omega)
  rw [hself, hsplit L (fun _ hq => hq), List.nil_append, List.getLast?_nil] at hloop
  have hbounds := splitAtDelay_bounds v.delta ht1 L
  set a := (splitAtDelay v.delta t L).1 with ha
  set t' := (splitAtDelay v.delta t L).2.1 with ht'
  set b := (splitAtDelay v.delta t L).2.2 with hb
  have hb2 : Becomes s (v.set cur fun x => View.asleep x t') (s.withRet cur t') := by
    have hset := becomes_withRet hwf cur t'
    have heq : s.view.setRet cur t' = v.set cur fun x => View.asleep x t' := by
      rw [hs]
      simp [View.set, View.setRet, View.asleep]
    rwa [heq] at hset
  have hhead : ProcLists.gSleepingList s.queues = L.head? := by
    rw [LawfulProcLists.gSleepingList hwf, hsL]
  obtain ⟨hkwf, hkl⟩ := LawfulProcLists.linkSleeper hwf hnot (p := cur) (hsL.trans happ.symm)
  set k := ProcLists.linkSleeper s.queues cur a.getLast? b.head? with hk
  set s3 : KernelOf Q := ⟨(s.withRet cur t').toCore, k⟩ with hs3
  have hb3 : Becomes s (v.insertSleeper cur (View.asleep (v.proc cur) t') a b) s3 :=
    ⟨hb2.core, hkwf, by rw [hkl, hlists]; rfl⟩
  have hadd : s.addToSleepingList cur = some (b.head?.elim s3 fun e => s3.setPcb e fun x =>
      { x with ret := wrapInt (x.ret - (s3.pcb cur).ret) }) := by
    unfold addToSleepingList
    rw [hhead, hloop]
    have hlink : (s.withRet cur t').setQueues
        (ProcLists.linkSleeper (s.withRet cur t').queues cur a.getLast? b.head?) = s3 := rfl
    dsimp only [Option.bind_eq_bind, Option.bind_some]
    rw [hlink]
    clear_value s3
    cases b.head? <;> rfl
  have hsleep : v.sleep t = (b.head?.elim v fun e => v.setRet e (v.delta e - t')).insertSleeper cur
      (View.asleep (v.proc cur) t') a b := by
    have hnext : (splitAtDelay v.delta t v.sleepers).2.2.head? = b.head? := rfl
    unfold View.sleep
    dsimp only
    rw [hnext]
    generalize b.head? = entry
    cases entry <;> rfl
  rw [hadd, hsleep]
  cases hbh : b.head? with
  | none => exact ⟨s3, rfl, hb3⟩
  | some e =>
    have heL : e ∈ L := by
      rw [← happ]
      exact List.mem_append_right _ (List.mem_of_mem_head? hbh)
    have hec : e ≠ cur := ne_of_mem_of_not_mem heL (hv.not_mem_current _)
    have hret3 : (s3.pcb cur).ret = t' := withRet_ret_self s cur t'
    have hle := hbounds.2 e hbh
    have hemax := hd.le_max heL
    refine ⟨_, rfl, ?_⟩
    have hb4 := hb3.trans (becomes_setPcb hb3.wf e
      fun x => { x with ret := wrapInt (x.ret - (s3.pcb cur).ret) })
    rw [hb3.view] at hb4
    have heproc : (v.insertSleeper cur (View.asleep (v.proc cur) t') a b).proc e = v.proc e := by
      simp [View.insertSleeper, hec]
    have hwrap : wrapInt ((v.proc e).ret - t') = v.delta e - t' :=
      wrapInt_of_range (by
        show -2147483648 ≤ v.delta e - t'
        omega) (by
        show v.delta e - t' < 2147483648
        unfold maxTicks at hemax
        omega)
    have heq : (v.insertSleeper cur (View.asleep (v.proc cur) t') a b).set e
          (fun x => { x with ret := wrapInt (x.ret - (s3.pcb cur).ret) }) =
        (v.setRet e (v.delta e - t')).insertSleeper cur (View.asleep (v.proc cur) t') a b := by
      rw [View.setRet, insertSleeper_set_comm hec]
      unfold View.set
      congr 2
      rw [heproc, hret3]
      simp only [hwrap]
    rw [heq] at hb4
    exact hb4

/-- `sleep` on the running process. -/
theorem sleep_spec (h : Good (some s.currproc) s) (hd : Delta s.view) {time : ℕ} (h0 : 0 < time)
    (ht : time < 4294967296) :
    ∃ s', s.sleep s.currproc time = some s' ∧ Becomes s (s.view.sleep (ticksOf time)) s' := by
  have hb := becomes_setPcb h.wf s.currproc fun x => View.asleep x (ticksOf time)
  obtain ⟨ht1, htmax⟩ := ticksOf_range h0 ht
  obtain ⟨s', hs', hb'⟩ := addToSleepingList_spec (v := s.view) h.inv hd hb.wf hb.view ht1 htmax
  refine ⟨s', ?_, hb.trans hb'⟩
  unfold KernelOf.sleep
  simp only [h0, cAssert_pos, Option.bind_eq_bind, Option.bind_some, toInt_ticksOf ht]
  exact hs'

/-! ## Waking up -/

/-- The neighbours of a sleeper can add up their differences. -/
theorem delta_add_le {v : View} (hd : Delta v) {a b : List PcbPtr} (hl : v.sleepers = a ++ p :: b)
    {n : PcbPtr} (hn : b.head? = some n) : v.delta n + v.delta p ≤ maxTicks := by
  have hbound := hd.bound
  have hnn := hd.nonneg
  rw [hl] at hbound hnn
  obtain ⟨b', hb'⟩ : ∃ b', b = n :: b' := by
    cases b with
    | nil => simp at hn
    | cons y b' => exact ⟨b', by simpa using hn⟩
  rw [hb', total_append, total_cons, total_cons] at hbound
  have h1 := total_nonneg (δ := v.delta) fun x (hx : x ∈ a) => hnn x (by simp [hx])
  have h2 := total_nonneg (δ := v.delta) fun x (hx : x ∈ b') => hnn x (by simp [hb', hx])
  omega

/-- The first assignment of `remove_from_sleeping_list`. -/
theorem handOn_spec (h : Good run s) (hd : Delta s.view) {a b : List PcbPtr}
    (hl : s.view.sleepers = a ++ p :: b) :
    ∃ s1, (match b.head? with
        | none => s
        | some n => s.setPcb n fun x => { x with ret := wrapInt (x.ret + (s.pcb p).ret) }) = s1 ∧
      Becomes s (s.view.handOn b.head? p) s1 ∧ s1.queues = s.queues := by
  cases hbh : b.head? with
  | none => exact ⟨s, rfl, Becomes.refl h.wf, rfl⟩
  | some n =>
    have hnm : n ∈ s.view.sleepers := by
      rw [hl]
      simp [List.mem_of_mem_head? hbh]
    have hsum := delta_add_le hd hl hbh
    have hn0 := hd.nonneg n hnm
    have hp0 := hd.nonneg p (by simp [hl])
    have hwrap : wrapInt ((s.pcb n).ret + (s.pcb p).ret) = (s.pcb n).ret + (s.pcb p).ret :=
      wrapInt_of_range (by
        show -2147483648 ≤ s.view.delta n + s.view.delta p
        omega) (by
        show s.view.delta n + s.view.delta p < 2147483648
        unfold maxTicks at hsum
        omega)
    have hb := becomes_setPcb h.wf n fun x => { x with ret := wrapInt (x.ret + (s.pcb p).ret) }
    have heq : s.view.set n (fun x => { x with ret := wrapInt (x.ret + (s.pcb p).ret) }) =
        s.view.handOn (some n) p := by
      unfold View.handOn View.setRet View.set
      congr 2
      show ({ s.view.proc n with ret := wrapInt ((s.pcb n).ret + (s.pcb p).ret) } : ProcView) = _
      rw [hwrap]
      rfl
    rw [heq] at hb
    exact ⟨_, rfl, hb, rfl⟩

/-- `wake` on a sleeper, which is taken out. -/
theorem wake_spec (h : Good run s) (hd : Delta s.view) {a b : List PcbPtr}
    (hl : s.view.sleepers = a ++ p :: b) :
    ∃ s' v x, s.wake p = some s' ∧ Inv run v ∧ Becomes s (v.take p x) s' ∧
      x.state = .blocked ∧ x.pid = (s.pcb p).pid ∧
      v.move p { x with state := .ready } = s.view.wake b.head? p := by
  have hpm : p ∈ s.view.sleepers := by simp [hl]
  obtain ⟨hpi, hblk, hname⟩ := sleeper_state h.inv hpm
  have hpeer : (s.view.proc p).peer = none :=
    (h.inv.consistent p hpi).alone hblk (by rw [hname]; simp [owned])
  have hnext : ProcLists.nextProc s.queues p = b.head? := LawfulProcLists.nextProc h.wf hl
  obtain ⟨hkwf, hkl⟩ := LawfulProcLists.unlinkSleeper h.wf hpm
  obtain ⟨s1, hs1, hb1, hq1⟩ := handOn_spec h hd hl
  have hself : (s1.pcb p).view = s.view.proc p := by
    rw [← view_proc, hb1.view, handOn_proc_self h.inv hl]
  set x : ProcView := { s1.view.proc p with
    queue := .noBlocker, ret := wrapInt ((s1.view.proc p).ret * tickLengthInMs) } with hx
  have hkl1 : LawfulProcLists.lists (ProcLists.unlinkSleeper s.queues p) =
      fun i => (s1.view.lists i).erase p := by
    rw [hkl, view_lists, hq1]
    funext i
    by_cases hi : i = .sleeping
    · subst hi
      simp
    · rw [Function.update_of_ne hi]
      exact (List.erase_of_not_mem fun hpi => hi (h.inv.mem_unique hpi hpm)).symm
  have hb2 : Becomes s1 (s1.view.take p x) ⟨s1.toCore.setPcb p fun y =>
      { y with blockingQueueName := .noBlocker, ret := wrapInt (y.ret * tickLengthInMs) },
      ProcLists.unlinkSleeper s.queues p⟩ :=
    becomes_of_setPcb hkwf p _ (fun _ => rfl) rfl hkl1 rfl rfl
  refine ⟨_, s1.view, x, ?_, ?_, hb1.trans hb2, ?_, ?_, ?_⟩
  · have hassert : (s.pcb p).blockingProc = none := hpeer
    have hassert' : (s.pcb p).blockingQueueName = .sleep := hname
    have hassert'' : (s.pcb p).currState = .blocked := hblk
    unfold KernelOf.wake removeFromSleepingList
    simp only [hassert, hassert', hassert'', cAssert_pos, Option.bind_eq_bind, Option.bind_some,
      hnext, Option.pure_def]
    rw [← hs1]
    cases b.head? <;> rfl
  · rw [hb1.view]
    exact h.inv.handOn _ _
  · exact (congrArg ProcView.state hself).trans hblk
  · exact congrArg ProcView.pid hself
  · unfold View.wake View.unblock
    rw [← hb1.view]
    congr 1
    rw [hx, view_proc, hself]
    unfold View.readied
    rw [hpeer]

/-- `wake`, and then `add_pcb_to_queue` with `READY`. -/
theorem wake_ready_spec (h : Good run s) (hd : Delta s.view) {a b : List PcbPtr}
    (hl : s.view.sleepers = a ++ p :: b) :
    ∃ s', (s.wake p >>= fun s1 => s1.addPcbToQueue p .ready) = some s' ∧
      Becomes s (s.view.wake b.head? p) s' := by
  have hpm : p ∈ s.view.sleepers := by simp [hl]
  have hpi := (sleeper_state h.inv hpm).1
  obtain ⟨s1, v, x, hs1, hinv, hb1, hblk, hpid, hmove⟩ := wake_spec h hd hl
  have hpid0 : x.pid ≠ 0 := by
    rw [hpid]
    exact h.inv.pid_ne_zero hpi
  obtain ⟨s2, hs2, hb2⟩ := addPcbToQueue_take hinv hb1.wf hb1.view hpi hpid0 (.inl rfl)
    (by rw [hblk]; simp)
  refine ⟨s2, ?_, ?_⟩
  · rw [hs1]
    exact hs2
  · rw [← hmove]
    exact hb1.trans hb2

/-! ## Ticks -/

/-- The loop of `tick` readies the sleepers that are due. -/
theorem tickLoop_spec (l : List PcbPtr) (h : Good run s) (hd : Delta s.view)
    (hl : s.view.sleepers = l) {n : ℕ} (hn : l.length < n) :
    ∃ s', loop tickRound n s = some s' ∧ Becomes s (View.expire l s.view) s' := by
  induction l generalizing s n with
  | nil =>
    obtain ⟨n, rfl⟩ : ∃ m, n = m + 1 := ⟨n - 1, by simp at hn; omega⟩
    have hhead : ProcLists.gSleepingList s.queues = none :=
      (LawfulProcLists.gSleepingList h.wf).trans (congrArg List.head? hl)
    refine ⟨s, loop_succ_done n ?_, Becomes.refl h.wf⟩
    unfold tickRound
    rw [hhead]
  | cons p l ih =>
    obtain ⟨n, rfl⟩ : ∃ m, n = m + 1 := ⟨n - 1, by omega⟩
    have hhead : ProcLists.gSleepingList s.queues = some p :=
      (LawfulProcLists.gSleepingList h.wf).trans (congrArg List.head? hl)
    unfold View.expire
    by_cases hdue : s.view.delta p ≤ 0
    · have hl' : s.view.sleepers = [] ++ p :: l := hl
      obtain ⟨s1, hs1, hb1⟩ := wake_ready_spec h hd hl'
      have hstate := sleeper_state h.inv (by simp [hl] : p ∈ s.view.sleepers)
      have hg1 : Good run s1 := hb1.good (h.inv.wake hstate.1 hstate.2.1 _)
      have hd1 : Delta s1.view := by
        rw [hb1.view]
        exact wake_delta h.inv hd hl'
      have hsl1 : s1.view.sleepers = l := by
        rw [hb1.view]
        simpa using wake_sleepers h.inv hl'
      obtain ⟨s', hs', hb'⟩ := ih hg1 hd1 hsl1 (by simpa using hn)
      refine ⟨s', ?_, ?_⟩
      · have hret : (s.pcb p).ret ≤ 0 := hdue
        have hround : tickRound s = some (.again s1) := by
          unfold tickRound
          rw [hhead]
          simp only [hret, if_true]
          rw [← bind_assoc, hs1]
          rfl
        rw [loop_succ_again n hround, hs']
      · rw [if_pos hdue]
        rw [hb1.view] at hb'
        exact hb1.trans hb'
    · refine ⟨s, loop_succ_done n ?_, ?_⟩
      · have hret : ¬ (s.pcb p).ret ≤ 0 := hdue
        unfold tickRound
        rw [hhead]
        simp only [hret, if_false]
      · rw [if_neg hdue]
        exact Becomes.refl h.wf

/-- `tick` -/
theorem tick_spec (h : Good run s) (hd : Delta s.view) (hh : HeadPos s.view) :
    ∃ s', s.tick = some s' ∧ Becomes s s.view.tick s' := by
  have hhead := LawfulProcLists.gSleepingList h.wf
  unfold KernelOf.tick View.tick
  cases hl : s.view.sleepers with
  | nil =>
    have hl' : LawfulProcLists.lists s.queues .sleeping = [] := hl
    rw [hhead, hl']
    exact ⟨s, rfl, Becomes.refl h.wf⟩
  | cons p l =>
    have hl' : LawfulProcLists.lists s.queues .sleeping = p :: l := hl
    have hpm : p ∈ s.view.sleepers := by simp [hl]
    have hp1 : 1 ≤ s.view.delta p := hh p (by rw [hl]; rfl)
    have hpmax := hd.le_max hpm
    have hwrap : wrapInt ((s.pcb p).ret - 1) = s.view.delta p - 1 :=
      wrapInt_of_range (by
        show -2147483648 ≤ s.view.delta p - 1
        omega) (by
        show s.view.delta p - 1 < 2147483648
        unfold maxTicks at hpmax
        omega)
    have hb1 : Becomes s (s.view.setRet p (s.view.delta p - 1))
        (s.setPcb p fun x => { x with ret := wrapInt (x.ret - 1) }) := by
      have hb := becomes_setPcb h.wf p fun x => { x with ret := wrapInt (x.ret - 1) }
      have heq : s.view.set p (fun x => { x with ret := wrapInt (x.ret - 1) }) =
          s.view.setRet p (s.view.delta p - 1) := by
        unfold View.setRet View.set
        congr 2
        show ({ s.view.proc p with ret := wrapInt ((s.pcb p).ret - 1) } : ProcView) = _
        rw [hwrap]
      rwa [heq] at hb
    have hinv1 : Inv run (s.view.setRet p (s.view.delta p - 1)) := h.inv.setRet p _
    have hd1 : Delta (s.view.setRet p (s.view.delta p - 1)) := decr_delta h.inv hd hh hl
    have hlen := LawfulProcLists.length_le h.wf .sleeping
    rw [hl'] at hlen
    obtain ⟨s', hs', hb'⟩ := tickLoop_spec (p :: l) (hb1.good hinv1) (by rw [hb1.view]; exact hd1)
      (by rw [hb1.view]; exact hl) (n := loopBound) (by unfold loopBound; omega)
    rw [hhead, hl']
    rw [hb1.view] at hb'
    exact ⟨s', hs', hb1.trans hb'⟩

end Xeros.Model.KernelOf
