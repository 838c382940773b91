import Xeros.Abstract.Invariant
import Xeros.Foundations.DeltaList

/-!
# Sleeping processes

The sleeping list of a view is a delta list whose differences are the `ret` of the sleepers.
`View.ticksLeft` is the deadline of a sleeper; falling asleep and waking up leave the deadlines of
all others alone, and a tick brings every deadline one tick nearer and readies those it reaches.
-/

set_option autoImplicit false

namespace Xeros.Abstract

open Xeros.Model Xeros.Foundations

/-- No sleep is longer than this many ticks: `2 ^ 32 - 1` ms, rounded up. -/
abbrev maxTicks : ℤ := 429496730

namespace View

/-- The difference that sleeper `p` stores. -/
def delta (v : View) (p : PcbPtr) : ℤ := (v.proc p).ret

/-- The sleeping list. -/
abbrev sleepers (v : View) : List PcbPtr := v.lists .sleeping

/-- The number of ticks that sleeper `p` has yet to sleep. -/
def ticksLeft (v : View) (p : PcbPtr) : ℤ := remaining v.delta v.sleepers p

/-- The running process falls asleep for `t` ticks. -/
def sleep (v : View) (t : ℤ) : View :=
  let r := splitAtDelay v.delta t v.sleepers
  let v' := match r.2.2.head? with
    | none => v
    | some e => v.setRet e (v.delta e - r.2.1)
  v'.insertSleeper v.currproc (asleep (v.proc v.currproc) r.2.1) r.1 r.2.2

/-- The sleepers in front of the list that are due become ready. -/
def expire : List PcbPtr → View → View
  | [], v => v
  | p :: l, v => if v.delta p ≤ 0 then expire l (v.wake l.head? p) else v

/-- One timer tick. -/
def tick (v : View) : View :=
  match v.sleepers with
  | [] => v
  | p :: l => expire (p :: l) (v.setRet p (v.delta p - 1))

@[simp] theorem delta_setRet_self (v : View) (p : PcbPtr) (r : ℤ) : (v.setRet p r).delta p = r := by
  simp [delta]

theorem delta_setRet_ne (v : View) {p q : PcbPtr} (r : ℤ) (h : q ≠ p) :
    (v.setRet p r).delta q = v.delta q := by
  simp [delta, h]

end View

/-- The differences are in range. -/
structure Delta (v : View) : Prop where
  nonneg : ∀ p ∈ v.sleepers, 0 ≤ v.delta p
  bound : total v.delta v.sleepers ≤ maxTicks

/-- Nobody is due. -/
def HeadPos (v : View) : Prop := ∀ p, v.sleepers.head? = some p → 1 ≤ v.delta p

namespace Delta

variable {run : Option PcbPtr} {v : View} {p : PcbPtr} {a b : List PcbPtr}

theorem le_max (h : Delta v) {p : PcbPtr} (hp : p ∈ v.sleepers) : v.delta p ≤ maxTicks := by
  obtain ⟨a, b, hl⟩ := List.append_of_mem hp
  have hb := h.bound
  have hn := h.nonneg
  rw [hl] at hb hn
  rw [total_append, total_cons] at hb
  have h1 := total_nonneg (δ := v.delta) fun x (hx : x ∈ a) => hn x (by simp [hx])
  have h2 := total_nonneg (δ := v.delta) fun x (hx : x ∈ b) => hn x (by simp [hx])
  omega

theorem ticksLeft_pos (h : Delta v) (hp : HeadPos v) {p : PcbPtr} (hmem : p ∈ v.sleepers) :
    1 ≤ v.ticksLeft p := by
  obtain ⟨y, hy⟩ : ∃ y, v.sleepers.head? = some y := by
    cases hl : v.sleepers with
    | nil => simp [hl] at hmem
    | cons y l => exact ⟨y, rfl⟩
  exact (hp y hy).trans (le_remaining h.nonneg hmem y hy)

end Delta

/-! ## Waking up -/

section Wake

variable {run : Option PcbPtr} {v : View} {p : PcbPtr} {a b : List PcbPtr}

theorem sleeper_state (h : Inv run v) (hp : p ∈ v.sleepers) :
    p ≠ .idle ∧ (v.proc p).state = .blocked ∧ (v.proc p).queue = .sleep := by
  obtain ⟨hi, hplace⟩ := (h.mem_iff _ _).mp hp
  exact ⟨hi, ProcView.place_eq_sleeping_iff.mp hplace⟩

/-- The first node of a list is not among the others. -/
theorem head?_ne_of_mem_tail {l : List PcbPtr} (hnd : l.Nodup) {q : PcbPtr} (hq : q ∈ l.tail) :
    l.head? ≠ some q := by
  cases l with
  | nil => simp at hq
  | cons x l =>
    rw [List.head?_cons, Ne, Option.some.injEq]
    rintro rfl
    exact (List.nodup_cons.mp hnd).1 hq

theorem nodup_sleepers (h : Inv run v) : v.sleepers.Nodup := h.nodup .sleeping

theorem not_mem_around (h : Inv run v) (hl : v.sleepers = a ++ p :: b) : p ∉ a ++ b := by
  have hnd := nodup_sleepers h
  rw [hl] at hnd
  exact (List.nodup_middle.mp hnd).notMem

theorem handOn_proc_self (h : Inv run v) (hl : v.sleepers = a ++ p :: b) :
    (v.handOn b.head? p).proc p = v.proc p := by
  cases hb : b.head? with
  | none => rfl
  | some n =>
    have hpn : p ≠ n := by
      rintro rfl
      exact not_mem_around h hl (List.mem_append_right _ (List.mem_of_mem_head? hb))
    simp [View.handOn, hpn]

theorem wake_proc_self (h : Inv run v) (hl : v.sleepers = a ++ p :: b) :
    (v.wake b.head? p).proc p = View.readied (v.proc p) (wrapInt (v.delta p * tickLengthInMs)) := by
  unfold View.wake View.unblock
  rw [View.move_proc_self, handOn_proc_self h hl]
  rfl

theorem wake_proc_ne {q : PcbPtr} (hqp : q ≠ p) (hqb : b.head? ≠ some q) :
    (v.wake b.head? p).proc q = v.proc q := by
  unfold View.wake View.unblock
  cases hb : b.head? with
  | none => simp [View.handOn, hqp]
  | some n =>
    have hqn : q ≠ n := fun hqn => hqb (by rw [hb, hqn])
    simp [View.handOn, hqp, hqn]

/-- A process other than the one woken changes at most its difference. -/
theorem wake_proc_eq {q : PcbPtr} (hqp : q ≠ p) :
    ∃ r, (v.wake b.head? p).proc q = { v.proc q with ret := r } := by
  by_cases hqb : b.head? = some q
  · unfold View.wake View.unblock
    rw [hqb]
    exact ⟨(v.proc q).ret + (v.proc p).ret, by simp [View.handOn, hqp]⟩
  · exact ⟨(v.proc q).ret, by rw [wake_proc_ne hqp hqb]⟩

theorem wake_delta_next (hl : v.sleepers = a ++ p :: b) (h : Inv run v) {n : PcbPtr}
    (hn : b.head? = some n) : (v.wake b.head? p).delta n = v.delta n + v.delta p := by
  have hnp : n ≠ p := by
    rintro rfl
    exact not_mem_around h hl (List.mem_append_right _ (List.mem_of_mem_head? hn))
  unfold View.wake View.unblock View.delta
  rw [hn]
  simp [View.handOn, hnp]

@[simp] theorem wake_currproc (v : View) (n : Option PcbPtr) (p : PcbPtr) :
    (v.wake n p).currproc = v.currproc := by
  cases n <;> rfl

@[simp] theorem wake_transfers (v : View) (n : Option PcbPtr) (p : PcbPtr) :
    (v.wake n p).transfers = v.transfers := by
  cases n <;> rfl

theorem wake_lists (n : Option PcbPtr) (i : ListId) (hp : p ≠ .idle) :
    (v.wake n p).lists i =
      (v.lists i).erase p ++ if i = .queue (.proc .ready) then [p] else [] := by
  have hplace : ∀ (x : ProcView) (r : ℤ), (View.readied x r).place =
      some (.queue (.proc .ready)) := fun _ _ => rfl
  cases n <;> simp [View.wake, View.handOn, View.unblock, View.move_lists, hplace, hp, eq_comm]

theorem wake_sleepers (h : Inv run v) (hl : v.sleepers = a ++ p :: b) :
    (v.wake b.head? p).sleepers = a ++ b := by
  have hp : p ∈ v.sleepers := by simp [hl]
  have hpa : p ∉ a := fun hpa => not_mem_around h hl (List.mem_append_left _ hpa)
  have hl' : v.lists .sleeping = a ++ p :: b := hl
  rw [View.sleepers, wake_lists _ _ (sleeper_state h hp).1, hl', List.erase_append_right _ hpa]
  simp

theorem wake_delta_left (h : Inv run v) (hl : v.sleepers = a ++ p :: b) {q : PcbPtr} (hq : q ∈ a) :
    (v.wake b.head? p).delta q = v.delta q := by
  have hnd := nodup_sleepers h
  rw [hl] at hnd
  unfold View.delta
  rw [wake_proc_ne]
  · rintro rfl
    exact not_mem_around h hl (List.mem_append_left _ hq)
  · intro hqb
    exact (List.nodup_append.mp hnd).2.2 q hq q (by simp [List.mem_of_mem_head? hqb]) rfl

theorem wake_delta_right (h : Inv run v) (hl : v.sleepers = a ++ p :: b) {q : PcbPtr}
    (hq : q ∈ b.tail) : (v.wake b.head? p).delta q = v.delta q := by
  have hnd := nodup_sleepers h
  rw [hl] at hnd
  unfold View.delta
  rw [wake_proc_ne]
  · rintro rfl
    exact not_mem_around h hl (List.mem_append_right _ (List.mem_of_mem_tail hq))
  · exact head?_ne_of_mem_tail (List.nodup_cons.mp (List.nodup_append.mp hnd).2.1).2 hq

/-- Waking a sleeper leaves the deadlines of the others alone. -/
theorem wake_ticksLeft (h : Inv run v) (hl : v.sleepers = a ++ p :: b) {q : PcbPtr}
    (hq : q ∈ a ++ b) : (v.wake b.head? p).ticksLeft q = v.ticksLeft q := by
  have hnd := nodup_sleepers h
  rw [hl] at hnd
  unfold View.ticksLeft
  rw [wake_sleepers h hl, hl]
  exact remaining_erase hnd (fun y hy => wake_delta_left h hl hy)
    (fun y hy => wake_delta_right h hl hy) (fun e he => wake_delta_next hl h he) hq

theorem wake_delta (h : Inv run v) (hd : Delta v) (hl : v.sleepers = a ++ p :: b) :
    Delta (v.wake b.head? p) := by
  have hp0 : 0 ≤ v.delta p := hd.nonneg p (by simp [hl])
  have ha : total (v.wake b.head? p).delta a = total v.delta a :=
    total_congr fun y hy => wake_delta_left h hl hy
  refine ⟨fun q hq => ?_, ?_⟩
  · rw [wake_sleepers h hl] at hq
    by_cases hqb : b.head? = some q
    · have hq0 := hd.nonneg q (by rw [hl]; simp [List.mem_of_mem_head? hqb])
      rw [wake_delta_next hl h hqb]
      omega
    · have hqp : q ≠ p := ne_of_mem_of_not_mem hq (not_mem_around h hl)
      rw [View.delta, wake_proc_ne hqp hqb]
      refine hd.nonneg q ?_
      rw [hl]
      simp only [List.mem_append, List.mem_cons] at hq ⊢
      tauto
  · have hbound := hd.bound
    rw [hl, total_append, total_cons] at hbound
    rw [wake_sleepers h hl, total_append, ha]
    cases b with
    | nil =>
      rw [total_nil] at hbound ⊢
      omega
    | cons e b =>
      have he := wake_delta_next hl h (n := e) rfl
      have hb : total (v.wake (e :: b).head? p).delta b = total v.delta b :=
        total_congr fun y hy => wake_delta_right h hl hy
      rw [total_cons] at hbound
      rw [total_cons, he, hb]
      omega

theorem wake_headPos (h : Inv run v) (hd : Delta v) (hh : HeadPos v)
    (hl : v.sleepers = a ++ p :: b) : HeadPos (v.wake b.head? p) := by
  intro q hq
  rw [wake_sleepers h hl] at hq
  cases a with
  | nil =>
    have hp1 : 1 ≤ v.delta p := hh p (by simp [hl])
    have hqb : q ∈ b := List.mem_of_mem_head? hq
    have hq0 := hd.nonneg q (by rw [hl]; simp [hqb])
    rw [wake_delta_next hl h hq]
    omega
  | cons x a =>
    rw [List.cons_append, List.head?_cons, Option.some.injEq] at hq
    subst hq
    rw [wake_delta_left h hl (by simp)]
    exact hh x (by simp [hl])

end Wake

/-! ## Falling asleep -/

section Sleep

variable {v : View} {t : ℤ}

/-- The view in which the successor of the new sleeper has its new difference. -/
theorem sleep_eq (v : View) (t : ℤ) : ∃ v' : View, v.sleep t =
      v'.insertSleeper v.currproc
        (View.asleep (v.proc v.currproc) (splitAtDelay v.delta t v.sleepers).2.1)
        (splitAtDelay v.delta t v.sleepers).1 (splitAtDelay v.delta t v.sleepers).2.2 ∧
    v'.lists = v.lists ∧ v'.currproc = v.currproc ∧ v'.transfers = v.transfers ∧
    (∀ q, (splitAtDelay v.delta t v.sleepers).2.2.head? ≠ some q → v'.proc q = v.proc q) ∧
    ∀ q, (splitAtDelay v.delta t v.sleepers).2.2.head? = some q → v'.proc q =
      { v.proc q with ret := v.delta q - (splitAtDelay v.delta t v.sleepers).2.1 } := by
  refine ⟨_, rfl, ?_⟩
  cases hb : (splitAtDelay v.delta t v.sleepers).2.2.head? with
  | none => simp
  | some e =>
    refine ⟨rfl, rfl, rfl, fun q hq => ?_, fun q hq => ?_⟩
    · rw [View.setRet_proc_ne _ _ fun hqe => hq (by rw [hqe])]
    · rw [Option.some.injEq] at hq
      subst hq
      simp

theorem sleep_inv (h : Inv (some v.currproc) v) (hcur : v.currproc ≠ .idle) :
    Inv none (v.sleep t) := by
  obtain ⟨v', hv', hlists, hcurr, -, hsame, hnext⟩ := sleep_eq v t
  have hne : (splitAtDelay v.delta t v.sleepers).2.2.head? ≠ some v.currproc := by
    intro hc
    refine h.not_mem_current .sleeping ?_
    rw [← splitAtDelay_append v.delta t (v.lists .sleeping)]
    exact List.mem_append_right _ (List.mem_of_mem_head? hc)
  have hinv' : Inv (some v'.currproc) v' := by
    rw [hcurr]
    refine h.congr hlists fun q => ?_
    by_cases hq : (splitAtDelay v.delta t v.sleepers).2.2.head? = some q
    · exact ⟨_, hnext q hq⟩
    · exact ⟨(v.proc q).ret, hsame q hq⟩
  have hins := hinv'.insertSleeper (hcurr.symm ▸ hcur)
    (a := (splitAtDelay v.delta t v.sleepers).1) (b := (splitAtDelay v.delta t v.sleepers).2.2)
    (by rw [hlists, splitAtDelay_append]) (splitAtDelay v.delta t v.sleepers).2.1
  rw [hcurr, hsame _ hne] at hins
  rw [hv']
  exact hins

theorem sleep_sleepers (v : View) (t : ℤ) : (v.sleep t).sleepers =
    (splitAtDelay v.delta t v.sleepers).1 ++
      v.currproc :: (splitAtDelay v.delta t v.sleepers).2.2 := by
  obtain ⟨v', hv', -⟩ := sleep_eq v t
  rw [hv']
  simp [View.insertSleeper, View.sleepers]

theorem sleep_proc_self (v : View) (t : ℤ) : (v.sleep t).proc v.currproc =
    View.asleep (v.proc v.currproc) (splitAtDelay v.delta t v.sleepers).2.1 := by
  obtain ⟨v', hv', -⟩ := sleep_eq v t
  rw [hv']
  simp [View.insertSleeper]

theorem sleep_proc_ne {q : PcbPtr} (hq : q ≠ v.currproc)
    (hqb : (splitAtDelay v.delta t v.sleepers).2.2.head? ≠ some q) :
    (v.sleep t).proc q = v.proc q := by
  obtain ⟨v', hv', -, -, -, hsame, -⟩ := sleep_eq v t
  rw [hv', ← hsame q hqb]
  simp [View.insertSleeper, hq]

theorem sleep_delta_next {q : PcbPtr} (hq : q ≠ v.currproc)
    (hqb : (splitAtDelay v.delta t v.sleepers).2.2.head? = some q) :
    (v.sleep t).proc q =
      { v.proc q with ret := v.delta q - (splitAtDelay v.delta t v.sleepers).2.1 } := by
  obtain ⟨v', hv', -, -, -, -, hnext⟩ := sleep_eq v t
  rw [hv', ← hnext q hqb]
  simp [View.insertSleeper, hq]

@[simp] theorem sleep_currproc (v : View) (t : ℤ) : (v.sleep t).currproc = v.currproc := by
  obtain ⟨v', hv', -, hcurr, -⟩ := sleep_eq v t
  rw [hv']
  exact hcurr

@[simp] theorem sleep_transfers (v : View) (t : ℤ) : (v.sleep t).transfers = v.transfers := by
  obtain ⟨v', hv', -, -, htr, -⟩ := sleep_eq v t
  rw [hv']
  exact htr

theorem sleep_lists_ne {i : ListId} (hi : i ≠ .sleeping) : (v.sleep t).lists i = v.lists i := by
  obtain ⟨v', hv', hl, -⟩ := sleep_eq v t
  rw [hv', ← hl]
  simp [View.insertSleeper, hi]

/-- Falling asleep leaves the deadlines of the others alone. -/
theorem sleep_ticksLeft (h : Inv (some v.currproc) v) :
    (v.sleep t).ticksLeft v.currproc = t ∧
      ∀ q ∈ v.sleepers, (v.sleep t).ticksLeft q = v.ticksLeft q := by
  have happ := splitAtDelay_append v.delta t v.sleepers
  have htotal := splitAtDelay_total v.delta t v.sleepers
  have hnd := h.nodup .sleeping
  have hcur : v.currproc ∉ v.sleepers := h.not_mem_current .sleeping
  set a := (splitAtDelay v.delta t v.sleepers).1 with ha
  set t' := (splitAtDelay v.delta t v.sleepers).2.1 with ht'
  set b := (splitAtDelay v.delta t v.sleepers).2.2 with hb
  have hne : ∀ q ∈ a ++ b, q ≠ v.currproc := fun q hq =>
    ne_of_mem_of_not_mem hq (by rw [happ]; exact hcur)
  have hself : (v.sleep t).delta v.currproc = t' := by
    rw [View.delta, sleep_proc_self]
    rfl
  have hndab : (a ++ b).Nodup := by rw [happ]; exact hnd
  have hins := remaining_insert (δ := v.delta) (ε := (v.sleep t).delta) (a := a) (b := b)
    (x := v.currproc) (by rw [happ]; exact hcur)
    (fun y hy => by
      rw [View.delta, sleep_proc_ne (hne y (by simp [hy])) fun hyb =>
        (List.nodup_append.mp hndab).2.2 y hy y (List.mem_of_mem_head? hyb) rfl]
      rfl)
    (fun y hy => by
      have hyb : b.head? ≠ some y := head?_ne_of_mem_tail (List.nodup_append.mp hndab).2.1 hy
      rw [View.delta, sleep_proc_ne (hne y (by simp [List.mem_of_mem_tail hy])) hyb]
      rfl)
    (fun e he => by
      rw [hself, View.delta,
        sleep_delta_next (hne e (by simp [List.mem_of_mem_head? he])) he])
  unfold View.ticksLeft
  rw [sleep_sleepers, ← ha, ← hb]
  refine ⟨?_, fun q hq => ?_⟩
  · rw [hins.1, hself, htotal]
    omega
  · rw [hins.2 q (by rw [happ]; exact hq), happ]

/-- What is inserted keeps the differences in range. -/
theorem sleep_delta (h : Inv (some v.currproc) v) (hd : Delta v) (hh : HeadPos v) (ht : 1 ≤ t)
    (htmax : t ≤ maxTicks) : Delta (v.sleep t) ∧ HeadPos (v.sleep t) := by
  have happ := splitAtDelay_append v.delta t v.sleepers
  have htotal := splitAtDelay_total v.delta t v.sleepers
  obtain ⟨hpos, hle⟩ := splitAtDelay_bounds v.delta ht v.sleepers
  have hcur : v.currproc ∉ v.sleepers := h.not_mem_current .sleeping
  have hself : (v.sleep t).delta v.currproc = (splitAtDelay v.delta t v.sleepers).2.1 := by
    rw [View.delta, sleep_proc_self]
    rfl
  have hdelta : ∀ q ∈ v.sleepers, (v.sleep t).delta q = v.delta q ∨
      ((splitAtDelay v.delta t v.sleepers).2.2.head? = some q ∧
        (v.sleep t).delta q = v.delta q - (splitAtDelay v.delta t v.sleepers).2.1) := by
    intro q hq
    have hqc : q ≠ v.currproc := ne_of_mem_of_not_mem hq hcur
    by_cases hqb : (splitAtDelay v.delta t v.sleepers).2.2.head? = some q
    · exact .inr ⟨hqb, by rw [View.delta, sleep_delta_next hqc hqb]⟩
    · exact .inl (by rw [View.delta, sleep_proc_ne hqc hqb]; rfl)
  have hnd : ((splitAtDelay v.delta t v.sleepers).1 ++
      (splitAtDelay v.delta t v.sleepers).2.2).Nodup := by
    rw [happ]
    exact nodup_sleepers h
  refine ⟨⟨fun q hq => ?_, ?_⟩, fun q hq => ?_⟩
  · rw [sleep_sleepers, List.mem_append, List.mem_cons] at hq
    by_cases hqc : q = v.currproc
    · rw [hqc, hself]
      omega
    · have hqs : q ∈ v.sleepers := by
        rw [← happ, List.mem_append]
        tauto
      have h0 := hd.nonneg q hqs
      rcases hdelta q hqs with heq | ⟨hqb, heq⟩
      · omega
      · have := hle q hqb
        omega
  · -- the last deadline is the old one, or that of the new sleeper when it is the last
    have hbound := hd.bound
    rw [sleep_sleepers, total_append, total_cons, hself]
    have ha : total (v.sleep t).delta (splitAtDelay v.delta t v.sleepers).1 =
        total v.delta (splitAtDelay v.delta t v.sleepers).1 := by
      refine total_congr fun q hq => ?_
      rcases hdelta q (by rw [← happ]; simp [hq]) with heq | ⟨hqb, -⟩
      · exact heq
      · exact absurd rfl ((List.nodup_append.mp hnd).2.2 q hq q (List.mem_of_mem_head? hqb))
    rw [← happ, total_append] at hbound
    rw [ha]
    cases hb : (splitAtDelay v.delta t v.sleepers).2.2 with
    | nil =>
      rw [total_nil]
      omega
    | cons e b =>
      have htail : total (v.sleep t).delta b = total v.delta b := by
        refine total_congr fun q hq => ?_
        rcases hdelta q (by rw [← happ, hb]; simp [hq]) with heq | ⟨hqb, -⟩
        · exact heq
        · refine absurd hqb (head?_ne_of_mem_tail (List.nodup_append.mp hnd).2.1 ?_)
          rw [hb]
          exact hq
      have he : (v.sleep t).delta e = v.delta e - (splitAtDelay v.delta t v.sleepers).2.1 := by
        have hec : e ≠ v.currproc := ne_of_mem_of_not_mem (by rw [← happ, hb]; simp) hcur
        rw [View.delta, sleep_delta_next hec (by rw [hb]; rfl)]
      rw [hb, total_cons] at hbound
      rw [total_cons, htail, he]
      omega
  · rw [sleep_sleepers] at hq
    cases ha : (splitAtDelay v.delta t v.sleepers).1 with
    | nil =>
      rw [ha, List.nil_append, List.head?_cons, Option.some.injEq] at hq
      rw [← hq, hself]
      exact hpos
    | cons x a =>
      rw [ha, List.cons_append, List.head?_cons, Option.some.injEq] at hq
      subst hq
      have hxs : x ∈ v.sleepers := by rw [← happ, ha]; simp
      have hx1 := hh x (by rw [← happ, ha]; rfl)
      rcases hdelta x hxs with heq | ⟨hxb, -⟩
      · omega
      · exact absurd rfl ((List.nodup_append.mp hnd).2.2 x (by rw [ha]; simp) x
          (List.mem_of_mem_head? hxb))

end Sleep

/-! ## Ticks -/

section Tick

variable {run : Option PcbPtr} {v : View}

/-- `w` comes after `v` when the sleepers that were due have become ready. -/
structure Expired (run : Option PcbPtr) (v w : View) : Prop where
  inv : Inv run w
  delta : Delta w
  headPos : HeadPos w
  currproc : w.currproc = v.currproc
  transfers : w.transfers = v.transfers
  sleepers : ∀ p ∈ w.sleepers, p ∈ v.sleepers
  other : ∀ p, p ∉ v.sleepers → w.proc p = v.proc p
  due : ∀ p ∈ v.sleepers, v.ticksLeft p ≤ 0 → w.proc p = View.readied (v.proc p) 0
  asleep : ∀ p ∈ v.sleepers, 1 ≤ v.ticksLeft p →
    p ∈ w.sleepers ∧ w.ticksLeft p = v.ticksLeft p ∧ ∃ r, w.proc p = { v.proc p with ret := r }

theorem expire_spec (l : List PcbPtr) (h : Inv run v) (hd : Delta v) (hl : v.sleepers = l) :
    Expired run v (View.expire l v) := by
  induction l generalizing v with
  | nil =>
    refine ⟨h, hd, fun p hp => by simp [View.expire, hl] at hp, rfl, rfl, fun _ hp => hp,
      fun _ _ => rfl, fun p hp => by simp [hl] at hp, fun p hp => by simp [hl] at hp⟩
  | cons p l ih =>
    unfold View.expire
    have hp0 : 0 ≤ v.delta p := hd.nonneg p (by simp [hl])
    split_ifs with hdue
    · -- the difference of `p` is zero, so nothing is handed on
      have hpz : v.delta p = 0 := by omega
      have hl' : v.sleepers = [] ++ p :: l := hl
      have hpl : p ∉ l := by simpa using not_mem_around h hl'
      have hstate := sleeper_state h (by simp [hl] : p ∈ v.sleepers)
      have hws : (v.wake l.head? p).sleepers = l := by simpa using wake_sleepers h hl'
      have hwdelta : ∀ q, q ≠ p → (v.wake l.head? p).delta q = v.delta q := by
        intro q hq
        by_cases hql : l.head? = some q
        · rw [wake_delta_next hl' h hql, hpz, add_zero]
        · rw [View.delta, wake_proc_ne hq hql]
          rfl
      have hwproc : ∀ q, q ≠ p → (v.wake l.head? p).proc q = v.proc q := by
        intro q hq
        obtain ⟨r, hr⟩ := wake_proc_eq (v := v) (b := l) hq
        have hrq : r = (v.proc q).ret := by
          have := hwdelta q hq
          rw [View.delta, hr] at this
          exact this
        rw [hr, hrq]
      have hwleft : ∀ q ∈ l, (v.wake l.head? p).ticksLeft q = v.ticksLeft q := fun q hq =>
        wake_ticksLeft h hl' (by simpa using hq)
      have hw := ih (h.wake hstate.1 hstate.2.1 l.head?) (wake_delta h hd hl') hws
      have hwp : (View.expire l (v.wake l.head? p)).proc p = View.readied (v.proc p) 0 := by
        rw [hw.other p (by rw [hws]; exact hpl), wake_proc_self h hl', hpz]
        rfl
      refine ⟨hw.inv, hw.delta, hw.headPos, by rw [hw.currproc, wake_currproc],
        by rw [hw.transfers, wake_transfers], fun q hq => ?_, fun q hq => ?_, fun q hq hq0 => ?_,
        fun q hq hq1 => ?_⟩
      · have := hw.sleepers q hq
        rw [hws] at this
        simp [hl, this]
      · rw [hl, List.mem_cons, not_or] at hq
        rw [hw.other q (by rw [hws]; exact hq.2), hwproc q hq.1]
      · by_cases hqp : q = p
        · rw [hqp]
          exact hwp
        · have hql : q ∈ l := by simpa [hl, hqp] using hq
          rw [hw.due q (by rw [hws]; exact hql) (by rw [hwleft q hql]; exact hq0), hwproc q hqp]
      · have hqp : q ≠ p := by
          rintro rfl
          unfold View.ticksLeft at hq1
          rw [hl] at hq1
          simp only [remaining, if_true] at hq1
          omega
        have hql : q ∈ l := by simpa [hl, hqp] using hq
        obtain ⟨hmem, hleft, r, hr⟩ :=
          hw.asleep q (by rw [hws]; exact hql) (by rw [hwleft q hql]; exact hq1)
        exact ⟨hmem, by rw [hleft, hwleft q hql], r, by rw [hr, hwproc q hqp]⟩
    · have hhead : HeadPos v := by
        intro q hq
        rw [hl, List.head?_cons, Option.some.injEq] at hq
        subst hq
        omega
      refine ⟨h, hd, hhead, rfl, rfl, fun _ hq => hq, fun _ _ => rfl, fun q hq hq0 => ?_,
        fun q hq _ => ⟨hq, rfl, (v.proc q).ret, rfl⟩⟩
      have := hd.ticksLeft_pos hhead hq
      omega

/-- A tick brings every deadline one tick nearer; who has one tick left becomes ready. -/
structure Ticked (run : Option PcbPtr) (v w : View) : Prop where
  inv : Inv run w
  delta : Delta w
  headPos : HeadPos w
  currproc : w.currproc = v.currproc
  transfers : w.transfers = v.transfers
  sleepers : ∀ p ∈ w.sleepers, p ∈ v.sleepers
  other : ∀ p, p ∉ v.sleepers → w.proc p = v.proc p
  due : ∀ p ∈ v.sleepers, v.ticksLeft p = 1 → w.proc p = View.readied (v.proc p) 0
  asleep : ∀ p ∈ v.sleepers, 2 ≤ v.ticksLeft p →
    p ∈ w.sleepers ∧ w.ticksLeft p = v.ticksLeft p - 1 ∧ ∃ r, w.proc p = { v.proc p with ret := r }

/-- Counting down the first difference. -/
theorem decr_delta (h : Inv run v) (hd : Delta v) (hh : HeadPos v) {p : PcbPtr}
    {l : List PcbPtr} (hl : v.sleepers = p :: l) : Delta (v.setRet p (v.delta p - 1)) := by
  have hp1 : 1 ≤ v.delta p := hh p (by rw [hl]; rfl)
  have hpl : p ∉ l := by
    have hnd := nodup_sleepers h
    rw [hl] at hnd
    exact (List.nodup_cons.mp hnd).1
  have hself := View.delta_setRet_self v p (v.delta p - 1)
  have hl1 : (v.setRet p (v.delta p - 1)).sleepers = p :: l := hl
  refine ⟨fun q hq => ?_, ?_⟩
  · by_cases hqp : q = p
    · rw [hqp, hself]
      omega
    · rw [View.delta_setRet_ne v _ hqp]
      exact hd.nonneg q hq
  · have hbound := hd.bound
    rw [hl, total_cons] at hbound
    have htail : total (v.setRet p (v.delta p - 1)).delta l = total v.delta l :=
      total_congr fun q hq => View.delta_setRet_ne v _ (ne_of_mem_of_not_mem hq hpl)
    rw [hl1, total_cons, hself, htail]
    omega

theorem tick_spec (h : Inv run v) (hd : Delta v) (hh : HeadPos v) : Ticked run v v.tick := by
  unfold View.tick
  split
  · next hl =>
    exact ⟨h, hd, hh, rfl, rfl, fun _ hp => hp, fun _ _ => rfl,
      fun p hp => by simp [hl] at hp, fun p hp => by simp [hl] at hp⟩
  · next p l hl =>
    have hp1 : 1 ≤ v.delta p := hh p (by rw [hl]; rfl)
    have hpl : p ∉ l := by
      have hnd := nodup_sleepers h
      rw [hl] at hnd
      exact (List.nodup_cons.mp hnd).1
    set v1 := v.setRet p (v.delta p - 1) with hv1
    have hl1 : v1.sleepers = p :: l := hl
    have hself : v1.delta p = v.delta p - 1 := View.delta_setRet_self v p _
    have hother : ∀ q, q ≠ p → v1.delta q = v.delta q := fun q hq => View.delta_setRet_ne v _ hq
    have hleft : ∀ q, v1.ticksLeft q = v.ticksLeft q - 1 := by
      intro q
      unfold View.ticksLeft
      rw [hl, hl1, remaining_shift (c := -1) (by rw [hself]; ring)
        fun y hy => hother y (ne_of_mem_of_not_mem hy hpl)]
      ring
    have hd1 : Delta v1 := decr_delta h hd hh hl
    have hw := expire_spec (p :: l) (h.setRet p (v.delta p - 1)) hd1 hl1
    have hready : ∀ q, View.readied (v1.proc q) 0 = View.readied (v.proc q) 0 := by
      intro q
      by_cases hqp : q = p
      · rw [hqp, hv1, View.setRet_proc_self]
        rfl
      · rw [hv1, View.setRet_proc_ne _ _ hqp]
    refine ⟨hw.inv, hw.delta, hw.headPos, hw.currproc, hw.transfers, hw.sleepers, fun q hq => ?_,
      fun q hq hq1 => ?_, fun q hq hq2 => ?_⟩
    · have hqp : q ≠ p := fun hqp => hq (by rw [hl, hqp]; simp)
      rw [hw.other q hq, View.setRet_proc_ne _ _ hqp]
    · rw [hw.due q hq (by rw [hleft]; omega), hready]
    · obtain ⟨hmem, hrem, r, hr⟩ := hw.asleep q hq (by rw [hleft]; omega)
      refine ⟨hmem, by rw [hrem, hleft], r, ?_⟩
      rw [hr]
      by_cases hqp : q = p
      · rw [hqp, View.setRet_proc_self]
      · rw [View.setRet_proc_ne _ _ hqp]

end Tick

end Xeros.Abstract
