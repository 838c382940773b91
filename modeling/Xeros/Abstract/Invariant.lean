import Xeros.Abstract.View

/-!
# The queue membership invariant

`Inv run v` says that every process is in exactly the list that its state names, and that `run`
is the one running process (`none` while the kernel is between two processes).  It is kept by
`View.move`, hence by every operation built from it.
-/

set_option autoImplicit false

namespace Xeros.Abstract

open Xeros.Model Xeros.Foundations

/-- Every process is where its state says, and only there. -/
structure Inv (run : Option PcbPtr) (v : View) : Prop where
  mem_iff : ∀ i p, p ∈ v.lists i ↔ p ≠ .idle ∧ (v.proc p).place = some i
  nodup : ∀ i, (v.lists i).Nodup
  running : ∀ p, (v.proc p).state = .running ↔ run = some p
  consistent : ∀ p, p ≠ .idle → (v.proc p).Consistent
  alive : ∀ p o, p ≠ .idle → (v.proc p).state = .blocked → (v.proc p).peer = some o →
    (v.proc o).state ≠ .stopped
  slot : ∀ i, 1 ≤ (v.proc (.table i)).pid ∧ slotOfPid (v.proc (.table i)).pid = i
  idle_pid : (v.proc .idle).pid = 0
  idle_state : (v.proc .idle).state ≠ .stopped

@[simp] theorem ProcView.place_ready {x : ProcView} (h : x.state = .ready) :
    x.place = some (.queue (.proc .ready)) := by
  simp [place, h]

@[simp] theorem ProcView.place_stopped {x : ProcView} (h : x.state = .stopped) :
    x.place = some (.queue (.proc .stopped)) := by
  simp [place, h]

@[simp] theorem ProcView.place_running {x : ProcView} (h : x.state = .running) :
    x.place = none := by
  simp [place, h]

theorem ProcView.place_blocked {x : ProcView} (h : x.state = .blocked) :
    x.place = if owned x.queue then x.peer.map fun o => .queue (.blocking o x.queue)
      else if x.queue = .sleep then some .sleeping else none := by
  simp [place, h]

theorem ProcView.place_eq_ready_iff {x : ProcView} :
    x.place = some (.queue (.proc .ready)) ↔ x.state = .ready := by
  cases hs : x.state <;> simp [place, hs]
  split_ifs <;> simp

theorem ProcView.place_eq_stopped_iff {x : ProcView} :
    x.place = some (.queue (.proc .stopped)) ↔ x.state = .stopped := by
  cases hs : x.state <;> simp [place, hs]
  split_ifs <;> simp

theorem ProcView.place_eq_blocking_iff {x : ProcView} {o : PcbPtr} {q : BlockingQueue} :
    x.place = some (.queue (.blocking o q)) ↔
      x.state = .blocked ∧ owned q ∧ x.queue = q ∧ x.peer = some o := by
  cases hs : x.state <;> simp [place, hs]
  split_ifs with h1 h2
  · constructor
    · intro h
      obtain ⟨a, ha, h2⟩ := Option.map_eq_some_iff.mp h
      simp only [ListId.queue.injEq, QueueRef.blocking.injEq] at h2
      obtain ⟨rfl, rfl⟩ := h2
      exact ⟨h1, rfl, ha⟩
    · rintro ⟨-, rfl, h⟩
      simp [h]
  · simp only [Option.some.injEq, reduceCtorEq, false_iff, not_and]
    rintro h rfl
    exact absurd h h1
  · simp only [false_iff, not_and]
    rintro h rfl
    exact absurd h h1

theorem ProcView.place_eq_sleeping_iff {x : ProcView} :
    x.place = some .sleeping ↔ x.state = .blocked ∧ x.queue = .sleep := by
  cases hs : x.state <;> simp [place, hs]
  split_ifs with h1 h2
  · rcases h1 with h | h | h <;> simp [h]
  · simp [h2]
  · simp [h2]

namespace Inv

variable {run : Option PcbPtr} {v : View}

theorem not_mem_idle (h : Inv run v) (i : ListId) : PcbPtr.idle ∉ v.lists i := by
  rw [h.mem_iff]
  simp

theorem mem_unique (h : Inv run v) {i j : ListId} {p : PcbPtr} (hi : p ∈ v.lists i)
    (hj : p ∈ v.lists j) : i = j := by
  have h1 := ((h.mem_iff i p).mp hi).2
  have h2 := ((h.mem_iff j p).mp hj).2
  exact Option.some.inj (h1.symm.trans h2)

/-- A process without a place is in no list. -/
theorem not_mem (h : Inv run v) {p : PcbPtr} (hp : (v.proc p).place = none) (i : ListId) :
    p ∉ v.lists i := by
  rw [h.mem_iff, hp]
  simp

theorem running_self (h : Inv (some v.currproc) v) :
    (v.proc v.currproc).state = .running := (h.running _).mpr rfl

theorem not_mem_current (h : Inv (some v.currproc) v) (i : ListId) : v.currproc ∉ v.lists i :=
  h.not_mem (ProcView.place_running h.running_self) i

theorem table_of_pid (h : Inv run v) {p : PcbPtr} (hp : p ≠ .idle) :
    1 ≤ (v.proc p).pid ∧ p = .table (slotOfPid (v.proc p).pid) := by
  cases p with
  | idle => exact absurd rfl hp
  | table i => exact ⟨(h.slot i).1, by rw [(h.slot i).2]⟩

/-- No two processes have the same pid. -/
theorem pid_inj (h : Inv run v) {p q : PcbPtr} (hpq : (v.proc p).pid = (v.proc q).pid) : p = q := by
  by_cases hp : p = .idle
  · by_cases hq : q = .idle
    · rw [hp, hq]
    · have := (h.table_of_pid hq).1
      rw [hp, h.idle_pid] at hpq
      omega
  · by_cases hq : q = .idle
    · have := (h.table_of_pid hp).1
      rw [hq, h.idle_pid] at hpq
      omega
    · rw [(h.table_of_pid hp).2, (h.table_of_pid hq).2, hpq]

theorem pid_ne_zero (h : Inv run v) {p : PcbPtr} (hp : p ≠ .idle) : (v.proc p).pid ≠ 0 := by
  have := (h.table_of_pid hp).1
  omega

/-- Return codes are not part of the invariant. -/
theorem congr (h : Inv run v) {v' : View} (hl : v'.lists = v.lists)
    (hp : ∀ p, ∃ r, v'.proc p = { v.proc p with ret := r }) : Inv run v' := by
  have hplace : ∀ p, (v'.proc p).place = (v.proc p).place := by
    intro p
    obtain ⟨r, hr⟩ := hp p
    rw [hr]
    rfl
  refine ⟨fun i p => ?_, fun i => hl ▸ h.nodup i, fun p => ?_, fun p hne => ?_, fun p o => ?_,
    fun i => ?_, ?_, ?_⟩
  · rw [hl, hplace]
    exact h.mem_iff i p
  · obtain ⟨r, hr⟩ := hp p
    rw [hr]
    exact h.running p
  · obtain ⟨r, hr⟩ := hp p
    rw [hr]
    exact ⟨(h.consistent p hne).free, (h.consistent p hne).named, (h.consistent p hne).peer,
      (h.consistent p hne).alone⟩
  · obtain ⟨r, hr⟩ := hp p
    obtain ⟨r', hr'⟩ := hp o
    rw [hr, hr']
    exact h.alive p o
  · obtain ⟨r, hr⟩ := hp (.table i)
    rw [hr]
    exact h.slot i
  · obtain ⟨r, hr⟩ := hp .idle
    rw [hr]
    exact h.idle_pid
  · obtain ⟨r, hr⟩ := hp .idle
    rw [hr]
    exact h.idle_state

theorem setRet (h : Inv run v) (p : PcbPtr) (r : ℤ) : Inv run (v.setRet p r) := by
  refine h.congr rfl fun q => ?_
  by_cases hq : q = p
  · subst hq
    exact ⟨r, by simp⟩
  · exact ⟨(v.proc q).ret, by simp [hq]⟩

theorem record (h : Inv run v) (src dest : PcbPtr) : Inv run (v.record src dest) :=
  h.congr rfl fun p => ⟨(v.proc p).ret, rfl⟩

/-- What a process may become: the same slot, with state, queue and peer that fit. -/
structure Fits (v : View) (p : PcbPtr) (x : ProcView) : Prop where
  table : p ≠ .idle → 1 ≤ x.pid ∧ slotOfPid x.pid = slotOfPid (v.proc p).pid ∧ x.Consistent
  idle : p = .idle → x.pid = 0 ∧ x.state ≠ .stopped
  alive : p ≠ .idle → x.state = .blocked → ∀ o, x.peer = some o → o = p ∨ (v.proc o).state ≠ .stopped
  unwatched : x.state = .stopped → ∀ q, q ≠ p → q ≠ .idle → (v.proc q).state = .blocked →
    (v.proc q).peer ≠ some p

theorem mem_move_iff (h : Inv run v) {p : PcbPtr} {x : ProcView} {i : ListId} {q : PcbPtr} :
    q ∈ (v.move p x).lists i ↔
      if q = p then p ≠ .idle ∧ x.place = some i else q ∈ v.lists i := by
  unfold View.move
  simp only [List.mem_append]
  rw [(h.nodup i).mem_erase_iff]
  by_cases hq : q = p
  · subst hq
    by_cases hx : q ≠ .idle ∧ x.place = some i <;> simp [hx]
  · simp only [hq, ne_eq, not_false_eq_true, true_and, if_false, or_iff_left_iff_imp]
    intro hmem
    split_ifs at hmem <;> simp_all

/-- Moving a process keeps the invariant. -/
theorem move (h : Inv run v) {run' : Option PcbPtr} {p : PcbPtr} {x : ProcView}
    (hx : Fits v p x) (hrun : run' = some p ↔ x.state = .running)
    (hothers : ∀ q, q ≠ p → (run' = some q ↔ run = some q)) : Inv run' (v.move p x) := by
  have hproc : ∀ q, (v.move p x).proc q = if q = p then x else v.proc q := by
    intro q
    split_ifs with hq
    · rw [hq, View.move_proc_self]
    · rw [View.move_proc_ne v x hq]
  refine ⟨fun i q => ?_, fun i => ?_, fun q => ?_, fun q hq => ?_, fun q o hq hb ho => ?_,
    fun i => ?_, ?_, ?_⟩
  · rw [h.mem_move_iff, hproc]
    split_ifs with hq
    · rw [hq]
    · exact h.mem_iff i q
  · unfold View.move
    rw [List.nodup_append]
    refine ⟨(h.nodup i).erase p, by split_ifs <;> simp, fun a ha b hb hab => ?_⟩
    split_ifs at hb with hc
    · rw [List.mem_singleton] at hb
      exact ((h.nodup i).mem_erase_iff.mp ha).1 (hab.trans hb)
    · simp at hb
  · rw [hproc]
    split_ifs with hq
    · rw [hq, ← hrun]
    · rw [hothers q hq]
      exact h.running q
  · rw [hproc]
    split_ifs with hqp
    · exact (hx.table (hqp ▸ hq)).2.2
    · exact h.consistent q hq
  · rw [hproc] at hb ho ⊢
    by_cases hqp : q = p
    · rw [if_pos hqp] at hb ho
      split_ifs with hop
      · rw [hb]
        simp
      · exact (hx.alive (hqp ▸ hq) hb o ho).resolve_left hop
    · rw [if_neg hqp] at hb ho
      split_ifs with hop
      · intro hs
        exact hx.unwatched hs q hqp hq hb (hop ▸ ho)
      · exact h.alive q o hq hb ho
  · rw [hproc]
    split_ifs with hp
    · obtain ⟨h1, h2, -⟩ := hx.table (by rw [← hp]; simp)
      rw [← hp] at h2
      exact ⟨h1, h2.trans (h.slot i).2⟩
    · exact h.slot i
  · rw [hproc]
    split_ifs with hp
    · exact (hx.idle hp.symm).1
    · exact h.idle_pid
  · rw [hproc]
    split_ifs with hp
    · exact (hx.idle hp.symm).2
    · exact h.idle_state

/-! ## The operations of the kernel -/

theorem run_ne (h : Inv run v) {p : PcbPtr} (hp : (v.proc p).state ≠ .running) : run ≠ some p :=
  fun hr => hp ((h.running p).mpr hr)

/-- A blocked process becomes ready. -/
theorem unblock (h : Inv run v) {p : PcbPtr} (hp : p ≠ .idle)
    (hb : (v.proc p).state = .blocked) (r : ℤ) : Inv run (v.unblock p r) := by
  refine h.move ⟨fun _ => ⟨(h.table_of_pid hp).1, rfl, ?_⟩, fun hi => absurd hi hp, ?_, ?_⟩ ?_ ?_
  · exact ⟨fun _ => ⟨rfl, rfl⟩, fun hx => by simp [View.readied] at hx,
      fun hx => by simp [View.readied] at hx, fun hx => by simp [View.readied] at hx⟩
  · intro _ hx
    simp [View.readied] at hx
  · intro hx
    simp [View.readied] at hx
  · have hr : run ≠ some p := h.run_ne (by simp [hb])
    simp [hr, View.readied]
  · exact fun _ _ => Iff.rfl

theorem current_ne {cur q : PcbPtr} (hq : q ≠ cur) : (none : Option PcbPtr) = some q ↔ some cur = some q := by
  simp [hq.symm]

/-- The running process blocks in a queue of another process, or in its own. -/
theorem block (h : Inv (some v.currproc) v) (hcur : v.currproc ≠ .idle) {o : PcbPtr}
    (ho : o ≠ .idle) (hos : (v.proc o).state ≠ .stopped) {q : BlockingQueue} (hq : owned q)
    (r : ℤ) : Inv none (v.block o q r) := by
  refine h.move ⟨fun _ => ⟨(h.table_of_pid hcur).1, rfl, ?_⟩, fun hi => absurd hi hcur, ?_, ?_⟩ ?_
    fun _ hne => current_ne hne
  · refine ⟨by simp, fun _ => ?_, fun _ _ => ⟨o, ho, rfl⟩, fun _ hn => absurd hq hn⟩
    rintro rfl
    simp [owned] at hq
  · intro _ _ o' ho'
    rw [Option.some.injEq] at ho'
    exact .inr (ho' ▸ hos)
  · intro hx
    simp at hx
  · simp

/-- The running process blocks outside all queues. -/
theorem blockAlone (h : Inv (some v.currproc) v) (hcur : v.currproc ≠ .idle) {q : BlockingQueue}
    (hq : q = .receiveAny ∨ q = .device) (r : ℤ) : Inv none (v.blockAlone q r) := by
  refine h.move ⟨fun _ => ⟨(h.table_of_pid hcur).1, rfl, ?_⟩, fun hi => absurd hi hcur, ?_, ?_⟩ ?_
    fun _ hne => current_ne hne
  · refine ⟨by simp, fun _ => ?_, fun _ ho => ?_, fun _ _ => rfl⟩
    · rcases hq with rfl | rfl <;> simp
    · rcases hq with rfl | rfl <;> simp [owned] at ho
  · intro _ _ o ho
    simp at ho
  · intro hx
    simp at hx
  · simp

/-- The running process goes to the end of the ready queue. -/
theorem preempt (h : Inv (some v.currproc) v) : Inv none v.preempt := by
  refine h.move ⟨fun hcur => ⟨(h.table_of_pid hcur).1, rfl, ?_⟩, fun hi => ⟨?_, by simp⟩, ?_, ?_⟩ ?_
    fun _ hne => current_ne hne
  · have hfree := (h.consistent _ hcur).free (.inr h.running_self)
    exact ⟨fun _ => hfree, by simp, by simp, by simp⟩
  · rw [hi]
    exact h.idle_pid
  · intro _ hx
    simp at hx
  · intro hx
    simp at hx
  · simp

/-- The running process ends when nobody is left in its queues. -/
theorem exit (h : Inv (some v.currproc) v) (hcur : v.currproc ≠ .idle)
    (hempty : ∀ q, owned q → v.lists (.queue (.blocking v.currproc q)) = []) :
    Inv none v.exit := by
  refine h.move ⟨fun _ => ⟨(h.table_of_pid hcur).1, rfl, ?_⟩, fun hi => absurd hi hcur, ?_, ?_⟩ ?_
    fun _ hne => current_ne hne
  · exact ⟨by simp, by simp, by simp, by simp⟩
  · intro _ hx
    simp at hx
  · intro _ q _ hqi hb hpeer
    by_cases hown : owned (v.proc q).queue
    · have hmem : q ∈ v.lists (.queue (.blocking v.currproc (v.proc q).queue)) :=
        (h.mem_iff _ q).mpr ⟨hqi, ProcView.place_eq_blocking_iff.mpr ⟨hb, hown, rfl, hpeer⟩⟩
      rw [hempty _ hown] at hmem
      simp at hmem
    · rw [(h.consistent q hqi).alone hb hown] at hpeer
      simp at hpeer
  · simp

/-- A stopped process's slot is given to a new process. -/
theorem spawn (h : Inv run v) {p : PcbPtr} (hp : p ≠ .idle) (hs : (v.proc p).state = .stopped)
    {pid : ℤ} (hpid : 1 ≤ pid) (hslot : slotOfPid pid = slotOfPid (v.proc p).pid) :
    Inv run (v.spawn p pid) := by
  refine h.move ⟨fun _ => ⟨hpid, hslot, ?_⟩, fun hi => absurd hi hp, ?_, ?_⟩ ?_ ?_
  · exact ⟨fun _ => ⟨rfl, rfl⟩, by simp, by simp, by simp⟩
  · intro _ hx
    simp at hx
  · intro hx
    simp at hx
  · have hr : run ≠ some p := h.run_ne (by simp [hs])
    simp [hr]
  · exact fun _ _ => Iff.rfl

/-- Nobody is blocked on a stopped process. -/
theorem not_watched (h : Inv run v) {p : PcbPtr} (hs : (v.proc p).state = .stopped)
    (q : BlockingQueue) : v.lists (.queue (.blocking p q)) = [] := by
  rw [List.eq_nil_iff_forall_not_mem]
  intro r hr
  obtain ⟨hri, hplace⟩ := (h.mem_iff _ _).mp hr
  obtain ⟨hb, -, -, hpeer⟩ := ProcView.place_eq_blocking_iff.mp hplace
  exact h.alive r p hri hb hpeer hs

/-- A stopped process's slot goes to the end of the stopped queue. -/
theorem recycle (h : Inv run v) {p : PcbPtr} (hp : p ≠ .idle)
    (hs : (v.proc p).state = .stopped) : Inv run (v.recycle p) := by
  refine h.move ⟨fun _ => ⟨(h.table_of_pid hp).1, rfl, ?_⟩, fun hi => absurd hi hp, ?_, ?_⟩ ?_ ?_
  · exact ⟨by simp, by simp, by simp, by simp⟩
  · intro _ hx
    simp at hx
  · intro _ q _ hq hb hpeer
    exact h.alive q p hq hb hpeer hs
  · have hr : run ≠ some p := h.run_ne (by simp [hs])
    simp [hr]
  · exact fun _ _ => Iff.rfl

/-- The process that `View.dispatch` takes. -/
theorem dispatch_currproc (v : View) :
    v.dispatch.currproc = ((v.lists (.queue (.proc .ready))).head?).getD .idle := rfl

theorem next_state (h : Inv none v) {p : PcbPtr}
    (hp : p = ((v.lists (.queue (.proc .ready))).head?).getD .idle) :
    p = .idle ∨ (v.proc p).state = .ready := by
  cases hl : v.lists (.queue (.proc .ready)) with
  | nil => exact .inl (by simp [hp, hl])
  | cons q l =>
    rw [hl, List.head?_cons, Option.getD_some] at hp
    have hmem : p ∈ v.lists (.queue (.proc .ready)) := by simp [hl, hp]
    exact .inr (ProcView.place_eq_ready_iff.mp ((h.mem_iff _ _).mp hmem).2)

/-- The next process runs. -/
theorem dispatch (h : Inv none v) : Inv (some v.dispatch.currproc) v.dispatch := by
  rw [dispatch_currproc]
  have hnext := h.next_state rfl
  set p := ((v.lists (.queue (.proc .ready))).head?).getD .idle with hp
  have hm : Inv (some p) (v.move p { v.proc p with state := .running }) := by
    refine h.move ⟨fun hne => ⟨(h.table_of_pid hne).1, rfl, ?_⟩, fun hi => ⟨?_, by simp⟩, ?_, ?_⟩ ?_
      fun _ hne => (current_ne hne).symm
    · have hfree := (h.consistent p hne).free (.inl (hnext.resolve_left hne))
      exact ⟨fun _ => hfree, by simp, by simp, by simp⟩
    · rw [hi]
      exact h.idle_pid
    · intro _ hx
      simp at hx
    · intro hx
      simp at hx
    · simp
  exact ⟨hm.mem_iff, hm.nodup, hm.running, hm.consistent, hm.alive, hm.slot, hm.idle_pid,
    hm.idle_state⟩

theorem handOn (h : Inv run v) (next : Option PcbPtr) (p : PcbPtr) :
    Inv run (v.handOn next p) := by
  cases next with
  | none => exact h
  | some n => exact h.setRet n _

/-- A sleeper becomes ready. -/
theorem wake (h : Inv run v) {p : PcbPtr} (hp : p ≠ .idle) (hb : (v.proc p).state = .blocked)
    (next : Option PcbPtr) : Inv run (v.wake next p) := by
  refine (h.handOn next p).unblock hp ?_ _
  cases next with
  | none => exact hb
  | some n =>
    by_cases hpn : p = n
    · subst hpn
      simpa [View.handOn] using hb
    · simpa [View.handOn, hpn] using hb

/-- The running process falls asleep, anywhere in the sleeping list. -/
theorem insertSleeper (h : Inv (some v.currproc) v) (hcur : v.currproc ≠ .idle)
    {a b : List PcbPtr} (hl : v.lists .sleeping = a ++ b) (r : ℤ) :
    Inv none (v.insertSleeper v.currproc (View.asleep (v.proc v.currproc) r) a b) := by
  -- the lists differ from those of a move only in the position of the new sleeper
  have hm : Inv none (v.move v.currproc (View.asleep (v.proc v.currproc) r)) := by
    refine h.move ⟨fun _ => ⟨(h.table_of_pid hcur).1, rfl, ?_⟩, fun hi => absurd hi hcur, ?_, ?_⟩
      ?_ fun _ hne => current_ne hne
    · exact ⟨by simp [View.asleep], by simp [View.asleep], by simp [View.asleep, owned],
        by simp [View.asleep]⟩
    · intro _ _ o ho
      simp [View.asleep] at ho
    · intro hx
      simp [View.asleep] at hx
    · simp [View.asleep]
  have hplace : (View.asleep (v.proc v.currproc) r).place = some .sleeping :=
    ProcView.place_eq_sleeping_iff.mpr ⟨rfl, rfl⟩
  have hperm : ∀ i, (Function.update v.lists .sleeping (a ++ v.currproc :: b) i).Perm
      ((v.move v.currproc (View.asleep (v.proc v.currproc) r)).lists i) := by
    intro i
    rw [View.move_lists, hplace, List.erase_of_not_mem (h.not_mem_current i)]
    by_cases hi : i = .sleeping
    · subst hi
      rw [Function.update_self, hl, if_pos ⟨hcur, rfl⟩]
      exact List.perm_middle.trans (List.perm_append_singleton _ _).symm
    · rw [Function.update_of_ne hi, if_neg fun hc => hi (Option.some.inj hc.2).symm]
      simp
  refine ⟨fun i p => ?_, fun i => (hperm i).nodup_iff.mpr (hm.nodup i), hm.running, hm.consistent,
    hm.alive, hm.slot, hm.idle_pid, hm.idle_state⟩
  exact (hperm i).mem_iff.trans (hm.mem_iff i p)

end Inv

end Xeros.Abstract
