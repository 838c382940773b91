import Xeros.Analysis.Runs
import Xeros.Interface.Links

/-!
# Sleeping and waking

A process that sleeps for `ms` is readied by the `⌈ms / 10⌉`-th tick after its call
(`sleep_timing`).  When a signal wakes it earlier, its return code is the time left only if nobody
sleeps in front of it (`interrupted_sleep`).
-/

set_option autoImplicit false

namespace Xeros.Analysis

open Xeros.Foundations Xeros.Model Xeros.Abstract Xeros.Interface KernelOf

variable {r : Run Links} {n m : ℕ} {p : PcbPtr} {ms : ℕ}

/-- In step `n`, the process `p` calls `syssleep(ms)` with `ms > 0`. -/
structure SleepCall (r : Run Links) (n : ℕ) (p : PcbPtr) (ms : ℕ) : Prop where
  step : n < r.len
  reason : (r.input n).reason = .syscall
  request : (r.input n).request = some .sleep
  caller : (r.state n).currproc = p
  arg : (r.input n).arg 0 = ms
  pos : 0 < ms

/-- In step `n`, the process `p` is sent a signal that it handles. -/
def SignalSent (r : Run Links) (n : ℕ) (p : PcbPtr) : Prop :=
  ∃ s, (r.state n).atTrap (r.input n) = some s ∧ (r.input n).request = some .kill ∧ s.Signals p

/-- The number of ticks in the steps after `n` and before `m`. -/
def ticksBetween (r : Run Links) (n m : ℕ) : ℕ := r.count Trap.IsTick (n + 1) m

/-- `⌈ms / 10⌉` -/
def sleepTicks (ms : ℕ) : ℕ := (ms + 9) / 10

theorem ticksOf_eq (ms : ℕ) : ticksOf ms = sleepTicks ms := by
  unfold ticksOf sleepTicks tickLengthInMs
  split_ifs <;> omega

/-- The difference that each sleeper stores. -/
def storedRet (s : Kernel) (q : PcbPtr) : ℤ := (s.pcb q).ret

/-! ## Steps and ticks -/

theorem isTick_iff {s : Kernel} {req : SyscallRequest} {e : Event} {t : Trap}
    (hreq : t.request = some req) (hh : Handled s req e) : t.IsTick ↔ e = .timer := by
  unfold Trap.IsTick
  rw [hreq]
  constructor
  · intro htick
    obtain rfl := Option.some.inj htick
    cases hh with
    | timer => rfl
    | immediate _ _ hr => exact absurd hr id
  · rintro rfl
    cases hh
    rfl

theorem signals_of_handled {s : Kernel} {req : SyscallRequest} (hh : Handled s req (.signal p)) :
    req = .kill ∧ s.Signals p := by
  cases hh with
  | kill _ hp => exact ⟨rfl, hp⟩

/-- What the trap does to the return code of the running process does not concern sleepers. -/
theorem sameSleepers_trap {s s1 : Kernel} (h : s.Ready) {x : ℤ}
    (hview : s1.view = s.view.setRet s.currproc x) : SameSleepers s.view s1.view := by
  rw [hview]
  exact sameSleepers_setRet (not_sleeper_current h.sound.inv) x

theorem ticksBetween_succ (h : n < m) :
    ticksBetween r n (m + 1) = ticksBetween r n m + if (r.input m).IsTick then 1 else 0 :=
  r.count_succ (p := Trap.IsTick) h

/-! ## The deadline of a sleeper -/

/-- At step `m` the process `p`, which called in step `n`, has `sleepTicks ms` ticks before it,
less those that have passed. -/
def Asleep (r : Run Links) (n m : ℕ) (p : PcbPtr) (ms : ℕ) : Prop :=
  p ∈ (r.state m).queues.lists .sleeping ∧
    remaining (storedRet (r.state m)) ((r.state m).queues.lists .sleeping) p =
      sleepTicks ms - ticksBetween r n m

theorem asleep_iff : Asleep r n m p ms ↔ p ∈ (r.state m).view.sleepers ∧
    (r.state m).view.ticksLeft p = sleepTicks ms - ticksBetween r n m := Iff.rfl

theorem asleep_start (hd : r.Deviceless (n + 1)) (hs : SleepCall r n p ms) :
    Asleep r n (n + 1) p ms := by
  obtain ⟨s, req, e, htrap, hreq, hready, hview, hh, he, hv⟩ := r.event hs.step hd
  have harg : s.arg 0 = ms := (atTrap_arg htrap hs.reason 0).trans hs.arg
  have hcur : s.view.currproc = p := (congrArg View.currproc hview).trans hs.caller
  rw [hs.request] at hreq
  obtain rfl := Option.some.inj hreq
  have he' : e = .sleep (ticksOf ms) := by
    cases hh with
    | sleep h0 => rw [harg]
    | immediate _ _ hr =>
      have h0 : s.arg 0 = 0 := hr
      have := hs.pos
      omega
  subst he'
  obtain ⟨hmem, hleft⟩ := Event.sleep_starts hready.sound he
  rw [asleep_iff, hv, ← hcur]
  refine ⟨hmem, ?_⟩
  have h0 : ticksBetween r n (n + 1) = 0 := r.count_self _
  rw [hleft, h0, ticksOf_eq]
  simp

/-- The process sleeps on while it is not signalled and its ticks have not all passed. -/
theorem asleep_until (hd : r.Deviceless m) (hs : SleepCall r n p ms) (hnm : n < m)
    (hm : m ≤ r.len) (hns : ∀ k, n < k → k < m → ¬ SignalSent r k p)
    (hlt : ticksBetween r n m < sleepTicks ms) : Asleep r n m p ms := by
  refine r.invariant (I := fun k => ticksBetween r n k < sleepTicks ms → Asleep r n k p ms)
    hnm hm (fun _ => asleep_start (hd.mono hnm) hs) ?_ hlt
  intro k hnk hkm _ _ ih hk
  have hsucc := ticksBetween_succ (r := r) (n := n) (m := k) hnk
  obtain ⟨hmem, hleft⟩ := asleep_iff.mp (ih (by split_ifs at hsucc <;> omega))
  obtain ⟨s, req, e, htrap, hreq, hready, hview, hh, he, hv⟩ :=
    r.event (n := k) (by omega) (hd.mono (by omega))
  have hsame := sameSleepers_trap (r.ready (n := k) (by omega) (hd.mono (by omega))) hview
  have hmem' : p ∈ s.view.sleepers := hsame.sleepers.symm ▸ hmem
  have hleft' := (hsame.ticksLeft p).trans hleft
  have htick := isTick_iff hreq hh
  rw [asleep_iff, hv]
  cases Event.sleeper_step hready.sound he hmem' with
  | signalled hsig =>
    subst hsig
    obtain ⟨rfl, hsig⟩ := signals_of_handled hh
    exact absurd ⟨s, htrap, hreq, hsig⟩ (hns k hnk hkm)
  | due hdue hone _ =>
    rw [if_pos (htick.mpr hdue)] at hsucc
    omega
  | ticked hdue hl hp =>
    rw [if_pos (htick.mpr hdue)] at hsucc
    refine ⟨hp, ?_⟩
    rw [hl, hleft', hsucc]
    push_cast
    ring
  | kept hdue hl hp =>
    rw [if_neg fun hc => hdue (htick.mp hc)] at hsucc
    refine ⟨hp, ?_⟩
    rw [hl, hleft', hsucc]
    simp

/-! ## The tick that wakes -/

/-- In step `m`, the timer's handler calls `tick()` on `u`, which leaves `v`. -/
def TickCall (r : Run Links) (m : ℕ) (u v : Kernel) : Prop :=
  ∃ s, (r.state m).atTrap (r.input m) = some s ∧ (r.input m).IsTick ∧
    u = s.setPcb s.currproc (fun x => { x with cpuTime := wrapInt (x.cpuTime + 1) }) ∧
    u.tick = some v

/-- In step `m`, `tick()` moves the sleeper `p` to the ready queue, with return code 0. -/
def WokenByTick (r : Run Links) (m : ℕ) (p : PcbPtr) : Prop :=
  ∃ u v, TickCall r m u v ∧ p ∈ u.queues.lists .sleeping ∧
    p ∈ v.queues.lists (.queue (.proc .ready)) ∧ p ∉ v.queues.lists .sleeping ∧ (v.pcb p).ret = 0

/-- `tick` on a kernel that is in order, in the terms of the view. -/
theorem tick_due {u : Kernel} (h : Good (some u.currproc) u) (hd : Delta u.view)
    (hh : HeadPos u.view) (hp : p ∈ u.view.sleepers) (hleft : u.view.ticksLeft p = 1) :
    ∃ v, u.tick = some v ∧ p ∈ v.queues.lists (.queue (.proc .ready)) ∧
      p ∉ v.queues.lists .sleeping ∧ (v.pcb p).ret = 0 := by
  obtain ⟨v, hv, hb⟩ := KernelOf.tick_spec h hd hh
  have ht := Abstract.tick_spec h.inv hd hh
  have hpi := (sleeper_state h.inv hp).1
  have hproc : v.view.proc p = View.readied (u.view.proc p) 0 := by
    rw [hb.view]
    exact ht.due p hp hleft
  have hinv : Inv (some u.currproc) v.view := by
    rw [hb.view]
    exact ht.inv
  have hplace : (v.view.proc p).place = some (.queue (.proc .ready)) := by
    rw [hproc]
    exact ProcView.place_ready rfl
  refine ⟨v, hv, (hinv.mem_iff _ p).mpr ⟨hpi, hplace⟩, fun hc => ?_, congrArg ProcView.ret hproc⟩
  have hsl := ((hinv.mem_iff .sleeping p).mp hc).2
  rw [hplace] at hsl
  simp at hsl

theorem woken_by_tick (hd : r.Deviceless r.len) (hs : SleepCall r n p ms) (hnm : n < m)
    (hm : m < r.len) (hns : ∀ k, n < k → k < m → ¬ SignalSent r k p)
    (hlast : ticksBetween r n m + 1 = sleepTicks ms) (htick : (r.input m).IsTick) :
    WokenByTick r m p := by
  obtain ⟨hmem, hleft⟩ := asleep_iff.mp (asleep_until (hd.mono hm.le) hs hnm hm.le hns (by omega))
  obtain ⟨s, req, htrap, hreq, hready, hview, hdis, -⟩ := r.turn hm (hd.mono hm)
  have hsame := sameSleepers_trap (r.ready hm.le (hd.mono hm.le)) hview
  unfold Trap.IsTick at htick
  rw [htick] at hreq
  obtain rfl := Option.some.inj hreq
  obtain ⟨u, hu⟩ : ∃ u, u = s.setPcb s.currproc
    fun x => { x with cpuTime := wrapInt (x.cpuTime + 1) } := ⟨_, rfl⟩
  have huv : u.view = s.view := by
    rw [hu, view_setPcb]
    exact View.set_eq_self (by simp only [view_proc, Pcb.view])
  have hg : Good (some u.currproc) u := by
    refine ⟨?_, ?_⟩
    · rw [hu]
      exact hready.wf
    · rw [huv, hu]
      exact hready.sound.inv
  have hmem' : p ∈ u.view.sleepers := by
    rw [huv]
    exact hsame.sleepers.symm ▸ hmem
  have hleft' : u.view.ticksLeft p = 1 := by
    rw [huv, hsame.ticksLeft p, hleft, ← hlast]
    push_cast
    ring
  obtain ⟨v, hv, hrest⟩ := tick_due hg (by rw [huv]; exact hready.sound.delta)
    (by rw [huv]; exact hready.sound.head) hmem' hleft'
  exact ⟨u, v, ⟨s, htrap, htick, hu, hv⟩, hmem', hrest⟩

/-- The differences in the sleeping list are in range: nobody is due, none is negative, and their
sum, the last deadline, is far from overflowing. -/
structure DeltaInRange (s : Kernel) : Prop where
  head : ∀ q, (s.queues.lists .sleeping).head? = some q → 1 ≤ storedRet s q
  nonneg : ∀ q ∈ s.queues.lists .sleeping, 0 ≤ storedRet s q
  sum : total (storedRet s) (s.queues.lists .sleeping) ≤ 429496730

/-- What a call of `syssleep` in step `n` promises about the states up to `m`. -/
structure SleepTiming (r : Run Links) (n m : ℕ) (p : PcbPtr) (ms : ℕ) : Prop where
  asleep : ticksBetween r n m < sleepTicks ms → Asleep r n m p ms
  woken : m < r.len → ticksBetween r n m + 1 = sleepTicks ms → (r.input m).IsTick →
    WokenByTick r m p

/-- A process that sleeps for `ms` and is not signalled sleeps until exactly the `⌈ms / 10⌉`-th
tick after its call, and the sums of the differences are the ticks that the sleepers have left. -/
theorem sleep_timing (r : Run Links) (hd : r.Deviceless r.len) :
    (∀ m ≤ r.len, DeltaInRange (r.state m)) ∧
      ∀ n p ms, SleepCall r n p ms → ∀ m, n < m → m ≤ r.len →
        (∀ k, n < k → k < m → ¬ SignalSent r k p) → SleepTiming r n m p ms := by
  refine ⟨fun m hm => ?_, fun n p ms hs m hnm hm hns => ⟨fun hlt => ?_, fun hm' hlast htick => ?_⟩⟩
  · have hready := r.ready hm (hd.mono hm)
    exact ⟨hready.sound.head, hready.sound.delta.nonneg, hready.sound.delta.bound⟩
  · exact asleep_until (hd.mono hm) hs hnm hm hns hlt
  · exact woken_by_tick hd hs hnm hm' hns hlast htick

/-- The trap is a call of `syssleep(ms)` by `p`. -/
def sleepTest (p : PcbPtr) (ms : ℕ) (s : Kernel) (t : Trap) : Bool :=
  decide (t.reason = .syscall ∧ t.request = some .sleep ∧ s.currproc = p ∧ t.arg 0 = ms)

theorem sleepCall_of_test (hn : n < r.len) (hms : 0 < ms)
    (h : sleepTest p ms (r.state n) (r.input n) = true) : SleepCall r n p ms := by
  obtain ⟨h1, h2, h3, h4⟩ := of_decide_eq_true h
  exact ⟨hn, h1, h2, h3, h4, hms⟩

/-- The first process sleeps for 20 ms. -/
def sleepScript : List Act := [.call [11, 20] [], .tick, .tick]

/-- A process that sleeps for 20 ms is asleep after one tick and is woken by the second. -/
theorem sleep_timing_two : ∃ r : Run Links, r.len = 3 ∧ SleepCall r 0 (.table 0) 20 ∧
    Asleep r 0 2 (.table 0) 20 ∧ WokenByTick r 2 (.table 0) := by
  obtain ⟨r, hlen, hcheck, hin, htest⟩ := exists_run (Q := Links) smallPc 40300
    (fun _ t => KernelOf.Deviceless t) sleepScript (fun n s => match n with
      | 0 => sleepTest (.table 0) 20 s (Act.trap (.call [11, 20] []) s)
      | _ => true) (by decide +kernel)
  have hcall : sleepTest (.table 0) 20 (r.state 0) (r.input 0) = true := by
    rw [hin 0 _ rfl]
    exact htest 0 (by decide)
  have hlen3 : r.len = 3 := hlen
  have hs := sleepCall_of_test (r := r) (n := 0) (by omega) (by decide) hcall
  have htick : ∀ n, n = 1 ∨ n = 2 → (r.input n).IsTick := by
    rintro n (rfl | rfl)
    · rw [hin 1 .tick rfl]
      rfl
    · rw [hin 2 .tick rfl]
      rfl
  have hcount : ticksBetween r 0 2 = 1 := by
    rw [ticksBetween_succ (by decide : 0 < 1), if_pos (htick 1 (.inl rfl))]
    exact congrArg (· + 1) (r.count_self _)
  have hns : ∀ k, 0 < k → k < 2 → ¬ SignalSent r k (.table 0) := by
    rintro k hk0 hk2 ⟨s, -, hkill, -⟩
    obtain rfl : k = 1 := by omega
    have h1 : (r.input 1).request = some .timerInt := htick 1 (.inl rfl)
    rw [h1] at hkill
    simp at hkill
  have hd : r.Deviceless r.len := hcheck
  have ht := (sleep_timing r hd).2 0 (.table 0) 20 hs 2 (by decide) (by omega) hns
  exact ⟨r, hlen3, hs, ht.asleep (by rw [hcount]; decide),
    ht.woken (by omega) (by rw [hcount]; decide) (htick 2 (.inr rfl))⟩

/-! ## The time left -/

/-- In step `m`, after `j` ticks, a signal wakes the process `p`, which sleeps for `ms` since
step `n`. -/
structure Interrupted (r : Run Links) (n m : ℕ) (p : PcbPtr) (ms j : ℕ) : Prop where
  call : SleepCall r n p ms
  after : n < m
  step : m < r.len
  first : ∀ k, n < k → k < m → ¬ SignalSent r k p
  early : j < sleepTicks ms
  ticks : ticksBetween r n m = j
  sent : SignalSent r m p

/-- The value that the interrupted `syssleep` of `p` returns, as an unsigned number. -/
def sleepResult (r : Run Links) (m : ℕ) (p : PcbPtr) : ℕ := toWord ((r.state (m + 1)).pcb p).ret

/-- A sleeper's own difference is all the time it has left just when nobody sleeps before it. -/
theorem head_iff_delta {v : View} (hd : Delta v) (hh : HeadPos v) (hp : p ∈ v.sleepers) :
    v.sleepers.head? = some p ↔ v.delta p = v.ticksLeft p := by
  have hnn := hd.nonneg
  unfold View.ticksLeft
  cases hl : v.sleepers with
  | nil => simp [hl] at hp
  | cons y l =>
    have hy := hh y (by rw [hl]; rfl)
    by_cases hyp : y = p
    · subst hyp
      simp [remaining]
    · rw [hl] at hp hnn
      have hpl : p ∈ l := by simpa [Ne.symm hyp] using hp
      have hle : v.delta p ≤ remaining v.delta l p := delta_le_remaining
        (fun x hx => hnn x (List.mem_cons_of_mem _ hx)) hpl
      simp only [List.head?_cons, Option.some.injEq, hyp, false_iff, remaining, if_false]
      omega

theorem interrupt_sleeper {v : View} (h : Inv (some v.currproc) v) (hp : p ∈ v.sleepers) :
    (((Event.signal p).apply v).proc p).ret = wrapInt (v.delta p * tickLengthInMs) := by
  obtain ⟨-, hb, hq⟩ := sleeper_state h hp
  obtain ⟨a, b, hl⟩ := List.append_of_mem hp
  have hcur : p ≠ v.currproc := ne_of_mem_of_not_mem hp (not_sleeper_current h)
  unfold Event.apply View.interrupt
  dsimp only
  rw [View.setRet_proc_ne _ _ hcur, if_pos hq, successor_eq h hl, wake_proc_self h hl]
  rfl

/-- What an interrupted sleep returns. -/
theorem sleepResult_eq (hd : r.Deviceless (m + 1)) {j : ℕ} (hi : Interrupted r n m p ms j) :
    sleepResult r m p = toWord (wrapInt (storedRet (r.state m) p * tickLengthInMs)) := by
  obtain ⟨s', htrap', hkill, hsig⟩ := hi.sent
  have hbefore := hd.mono m.le_succ
  obtain ⟨hmem, -⟩ := asleep_iff.mp (asleep_until hbefore hi.call hi.after hi.step.le hi.first
    (by rw [hi.ticks]; exact hi.early))
  have hready0 := r.ready hi.step.le hbefore
  obtain ⟨s, req, e, htrap, hreq, hready, hview, hh, he, hv⟩ := r.event hi.step hd
  rw [htrap] at htrap'
  obtain rfl := Option.some.inj htrap'
  rw [hkill] at hreq
  obtain rfl := Option.some.inj hreq
  have hsame := sameSleepers_trap hready0 hview
  have hmem' : p ∈ s.view.sleepers := hsame.sleepers.symm ▸ hmem
  have hblk : (s.pcb p).currState = .blocked := (sleeper_state hready.sound.inv hmem').2.1
  have he' : e = .signal p := by
    cases hh with
    | kill q hq =>
      have hqp := hq.1
      rw [hsig.1] at hqp
      rw [Option.some.inj hqp]
    | immediate _ _ hr => exact absurd hblk (hr p hsig)
  subst he'
  have hret := interrupt_sleeper hready.sound.inv hmem'
  rw [hsame.delta p hmem] at hret
  have hpv : ((r.state (m + 1)).pcb p).ret = (((Event.signal p).apply s.view).proc p).ret := by
    rw [← hv]
    rfl
  unfold sleepResult
  rw [hpv, hret]
  rfl

theorem toWord_eq_iff {d t : ℤ} {k : ℕ} (h0 : 0 ≤ d) (hle : d ≤ t) (ht : t = k) :
    toWord (d * tickLengthInMs) = 10 * k ↔ d = t ∧ 10 * k < 4294967296 := by
  have hten : d * (tickLengthInMs : ℤ) = d * 10 := rfl
  rw [hten]
  constructor
  · intro h
    have hlt : 10 * k < 4294967296 := h ▸ toWord_lt _
    have hword := toWord_of_range (x := d * 10) (by omega) (by omega)
    rw [h] at hword
    push_cast at hword
    exact ⟨by omega, hlt⟩
  · rintro ⟨rfl, hlt⟩
    have hword := toWord_of_range (x := d * 10) (by omega) (by omega)
    omega

/-- While no device is in use, an interrupted sleep reports the time left exactly when the sleeper
is the first of the sleeping list, and the time left, in milliseconds, is a 32-bit number. -/
theorem sleepResult_iff (hd : r.Deviceless (m + 1)) {j : ℕ} (hi : Interrupted r n m p ms j) :
    sleepResult r m p = 10 * (sleepTicks ms - j) ↔
      ((r.state m).queues.lists .sleeping).head? = some p ∧
        10 * (sleepTicks ms - j) < 4294967296 := by
  have hbefore := hd.mono m.le_succ
  have hready := r.ready hi.step.le hbefore
  obtain ⟨hmem, hleft⟩ := asleep_iff.mp (asleep_until hbefore hi.call hi.after hi.step.le hi.first
    (by rw [hi.ticks]; exact hi.early))
  have hhead := head_iff_delta hready.sound.delta hready.sound.head hmem
  have hnn := hready.sound.delta.nonneg p hmem
  have hle : (r.state m).view.delta p ≤ (r.state m).view.ticksLeft p :=
    delta_le_remaining hready.sound.delta.nonneg hmem
  have hearly := hi.early
  rw [hi.ticks] at hleft
  have hleft' : (r.state m).view.ticksLeft p = ((sleepTicks ms - j : ℕ) : ℤ) := by
    rw [hleft]
    omega
  have hlists : (r.state m).view.sleepers = (r.state m).queues.lists .sleeping := rfl
  rw [← hlists, hhead, sleepResult_eq hd hi, toWord_wrapInt]
  exact toWord_eq_iff hnn hle hleft'

/-- When the signal comes in step `m`, no device has been in use (a read that a signal ended may
ready a process in its next sleep, and leave it in the sleeping list), the sleeper is the first of
the sleeping list, and the time left is a 32-bit number. -/
structure ReportsTimeLeft (r : Run Links) (m : ℕ) (p : PcbPtr) (left : ℕ) : Prop where
  deviceless : r.Deviceless (m + 1)
  first : ((r.state m).queues.lists .sleeping).head? = some p
  word : left < 4294967296

/-- In every run, an interrupted sleep reports the time left when `ReportsTimeLeft` holds; and while
no device is in use, only then. -/
theorem interrupted_sleep (r : Run Links) (n m : ℕ) (p : PcbPtr) (ms j : ℕ)
    (hi : Interrupted r n m p ms j) :
    (ReportsTimeLeft r m p (10 * (sleepTicks ms - j)) →
        sleepResult r m p = 10 * (sleepTicks ms - j)) ∧
      (r.Deviceless (m + 1) → sleepResult r m p = 10 * (sleepTicks ms - j) →
        ReportsTimeLeft r m p (10 * (sleepTicks ms - j))) := by
  constructor
  · intro h
    exact (sleepResult_iff h.deviceless hi).mpr ⟨h.first, h.word⟩
  · intro hd hres
    obtain ⟨hfirst, hword⟩ := (sleepResult_iff hd hi).mp hres
    exact ⟨hd, hfirst, hword⟩

/-- A process installs a handler and sleeps for 50 ms, and another one signals it at once. -/
def interruptScript : List Act :=
  [.call [2, 40400, 8192] [], .call [3] [], .call [13, 1, 40500, 60000] [], .call [11, 50] [],
   .call [6, 34, 1] []]

/-- The same, while a third process sleeps for 30 ms already. -/
def interruptBehindScript : List Act :=
  [.call [2, 40400, 8192] [], .call [2, 40400, 8192] [], .call [3] [], .call [11, 30] [],
   .call [13, 1, 40500, 60000] [], .call [11, 50] [], .call [6, 35, 1] []]

/-- The trap sends a signal to `p`. -/
def signalTest (p : PcbPtr) (s : Kernel) (t : Trap) : Bool :=
  decide (t.request = some .kill ∧ (s.atTrap t).map (fun s => decide (s.Signals p)) = some true)

theorem signalSent_of_test (h : signalTest p (r.state n) (r.input n) = true) :
    SignalSent r n p := by
  obtain ⟨hreq, hsig⟩ := of_decide_eq_true h
  obtain ⟨s, hs, hsig⟩ := Option.map_eq_some_iff.mp hsig
  exact ⟨s, hs, hreq, of_decide_eq_true hsig⟩

/-- A process that goes to sleep in step `n` and is signalled in the next one. -/
theorem interrupted_at_once (hc : SleepCall r n p ms) (hn : n + 1 < r.len)
    (hs : SignalSent r (n + 1) p) : Interrupted r n (n + 1) p ms 0 := by
  have hpos : 0 < sleepTicks ms := by
    have := hc.pos
    unfold sleepTicks
    omega
  exact ⟨hc, n.lt_succ_self, hn, fun k h1 h2 => absurd h2 (by omega), hpos, r.count_self _, hs⟩

/-- The only sleeper is told that it has 50 ms left. -/
theorem interrupted_sleep_alone : ∃ r : Run Links, Interrupted r 3 4 (.table 1) 50 0 ∧
    sleepResult r 4 (.table 1) = 10 * (sleepTicks 50 - 0) := by
  obtain ⟨r, hlen, hcheck, hin, htest⟩ := exists_run (Q := Links) smallPc 40300
    (fun _ t => KernelOf.Deviceless t) interruptScript (fun n s => match n with
      | 3 => sleepTest (.table 1) 50 s (Act.trap (.call [11, 50] []) s)
      | 4 => signalTest (.table 1) s (Act.trap (.call [6, 34, 1] []) s) &&
          decide ((s.queues.lists .sleeping).head? = some (.table 1))
      | _ => true) (by decide +kernel)
  have hlen5 : r.len = 5 := hlen
  have hcall : sleepTest (.table 1) 50 (r.state 3) (r.input 3) = true := by
    rw [hin 3 _ rfl]
    exact htest 3 (by decide)
  obtain ⟨hkill, hhead⟩ := (Bool.and_eq_true _ _).mp (htest 4 (by decide))
  have hkill' : signalTest (.table 1) (r.state 4) (r.input 4) = true := by
    rw [hin 4 _ rfl]
    exact hkill
  have hi := interrupted_at_once (sleepCall_of_test (by omega) (by decide) hcall) (by omega)
    (signalSent_of_test hkill')
  have hd : r.Deviceless r.len := hcheck
  exact ⟨r, hi, (interrupted_sleep r 3 4 (.table 1) 50 0 hi).1
    ⟨hd.mono (by omega), of_decide_eq_true hhead, by decide⟩⟩

/-- A sleeper that sleeps behind another one, for 50 ms, is told that it has 20 ms left. -/
theorem interrupted_sleep_behind : ∃ r : Run Links, r.Deviceless r.len ∧
    Interrupted r 5 6 (.table 2) 50 0 ∧ sleepResult r 6 (.table 2) = 20 ∧
    sleepResult r 6 (.table 2) ≠ 10 * (sleepTicks 50 - 0) := by
  obtain ⟨r, hlen, hcheck, hin, htest⟩ := exists_run (Q := Links) smallPc 40300
    (fun _ t => KernelOf.Deviceless t) interruptBehindScript (fun n s => match n with
      | 5 => sleepTest (.table 2) 50 s (Act.trap (.call [11, 50] []) s)
      | 6 => signalTest (.table 2) s (Act.trap (.call [6, 35, 1] []) s)
      | 7 => decide (toWord (s.pcb (.table 2)).ret = 20)
      | _ => true) (by decide +kernel)
  have hlen7 : r.len = 7 := hlen
  have hcall : sleepTest (.table 2) 50 (r.state 5) (r.input 5) = true := by
    rw [hin 5 _ rfl]
    exact htest 5 (by decide)
  have hkill : signalTest (.table 2) (r.state 6) (r.input 6) = true := by
    rw [hin 6 _ rfl]
    exact htest 6 (by decide)
  have hres : sleepResult r 6 (.table 2) = 20 := of_decide_eq_true (htest 7 (by decide))
  refine ⟨r, hcheck, interrupted_at_once (sleepCall_of_test (by omega) (by decide) hcall)
    (by omega) (signalSent_of_test hkill), hres, ?_⟩
  rw [hres]
  decide

end Xeros.Analysis
