import Xeros.Analysis.CpuTime
import Xeros.Analysis.Sleeping

/-!
# Interrupts and request numbers

`ctsw_contextswitch` returns the number that a system call supplies in the same way as the numbers
of the two interrupts.  So a handler of an interrupt runs for the interrupt alone exactly when no
process uses these numbers.
-/

set_option autoImplicit false

namespace Xeros.Analysis

open Xeros.Foundations Xeros.Model Xeros.Abstract Xeros.Interface KernelOf

/-! ## Which handler runs -/

/-- The switch of `dispatch`, with other functions in the place of the handlers of interrupts. -/
def dispatchRequestWith (timer : Kernel → Option Kernel) (keyboard : Kernel → ℕ → ℕ → Option Kernel)
    (s : Kernel) (t : Trap) : SyscallRequest → Option Kernel
  | .timerInt => timer s
  | .keyboardInt => keyboard s t.control t.data
  | req => s.dispatchRequest t req

/-- One turn of the loop of `dispatch`, with other functions in the place of these handlers. -/
def dispatchStepWith (timer : Kernel → Option Kernel) (keyboard : Kernel → ℕ → ℕ → Option Kernel)
    (s : Kernel) (t : Trap) : Option Kernel := do
  let s ← s.enterUser s.currproc
  t.request.bind fun request =>
    dispatchRequestWith timer keyboard (s.leaveUser s.currproc t) t request

theorem dispatchStepWith_self (s : Kernel) (t : Trap) :
    dispatchStepWith timerHandler keyboardHandler s t = s.dispatchStep t := by
  have hself : ∀ u req, dispatchRequestWith timerHandler keyboardHandler u t req =
      u.dispatchRequest t req := by
    intro u req
    cases req <;> rfl
  unfold dispatchStepWith dispatchStep handleTrap
  simp only [hself]

/-- In the turn of `dispatch` from `s` on, after the trap `t`, `timer_handler` is executed: another
function in its place changes the turn. -/
def CallsTimerHandler (s : Kernel) (t : Trap) : Prop :=
  ∃ timer, dispatchStepWith timer keyboardHandler s t ≠ s.dispatchStep t

/-- In this turn `keyboard_handler` is executed. -/
def CallsKeyboardHandler (s : Kernel) (t : Trap) : Prop :=
  ∃ keyboard, dispatchStepWith timerHandler keyboard s t ≠ s.dispatchStep t

/-- The kernel was entered by the interrupt whose handler is executed. -/
structure Genuine (s : Kernel) (t : Trap) : Prop where
  timer : CallsTimerHandler s t → t.reason = .timer
  keyboard : CallsKeyboardHandler s t → t.reason = .keyboard

/-- The request word of the system call, if the trap is one, is not that of an interrupt. -/
def PlainRequest (t : Trap) : Prop :=
  t.reason = .syscall → load32 t.mem (t.esp + 44) ≠ 0 ∧ load32 t.mem (t.esp + 44) ≠ 1

variable {s s' s1 : Kernel} {t : Trap} {req : SyscallRequest}

theorem dispatchStepWith_eq (hs : s.atTrap t = some s1) (hreq : t.request = some req)
    (timer : Kernel → Option Kernel) (keyboard : Kernel → ℕ → ℕ → Option Kernel) :
    dispatchStepWith timer keyboard s t = dispatchRequestWith timer keyboard s1 t req := by
  unfold atTrap at hs
  obtain ⟨u, hu, rfl⟩ := Option.map_eq_some_iff.mp hs
  unfold dispatchStepWith
  rw [hu, hreq]
  rfl

/-- Whatever the handler does, something else could have been done. -/
theorem exists_ne (x : Option Kernel) (s : Kernel) : ∃ y, y ≠ x := by
  cases x with
  | none => exact ⟨some s, by simp⟩
  | some s' => exact ⟨none, by simp⟩

theorem callsTimerHandler_iff (hs : s.dispatchStep t = some s') :
    CallsTimerHandler s t ↔ t.request = some .timerInt := by
  obtain ⟨s1, req, hs1, hreq, -⟩ := dispatchStep_eq_some hs
  unfold CallsTimerHandler
  simp only [← dispatchStepWith_self, dispatchStepWith_eq hs1 hreq, hreq, Option.some_inj]
  constructor
  · rintro ⟨timer, hne⟩
    by_contra hno
    apply hne
    cases req <;> first | rfl | exact absurd rfl hno
  · rintro rfl
    obtain ⟨y, hy⟩ := exists_ne s1.timerHandler s
    exact ⟨fun _ => y, hy⟩

theorem callsKeyboardHandler_iff (hs : s.dispatchStep t = some s') :
    CallsKeyboardHandler s t ↔ t.request = some .keyboardInt := by
  obtain ⟨s1, req, hs1, hreq, -⟩ := dispatchStep_eq_some hs
  unfold CallsKeyboardHandler
  simp only [← dispatchStepWith_self, dispatchStepWith_eq hs1 hreq, hreq, Option.some_inj]
  constructor
  · rintro ⟨keyboard, hne⟩
    by_contra hno
    apply hne
    cases req <;> first | rfl | exact absurd rfl hno
  · rintro rfl
    obtain ⟨y, hy⟩ := exists_ne (s1.keyboardHandler t.control t.data) s
    exact ⟨fun _ _ _ => y, hy⟩

/-- Only the numbers 0 and 1 stand for interrupts. -/
theorem ofId_interrupt (n : ℕ) : (SyscallRequest.ofId n = some .timerInt ↔ n = 0) ∧
    (SyscallRequest.ofId n = some .keyboardInt ↔ n = 1) := by
  unfold SyscallRequest.ofId
  constructor <;> split <;> simp_all

/-- A plain request leads to the handler of an interrupt with this interrupt only. -/
theorem request_of_plain (h : PlainRequest t) :
    (t.request = some .timerInt ↔ t.reason = .timer) ∧
      (t.request = some .keyboardInt ↔ t.reason = .keyboard) := by
  have hid := ofId_interrupt t.reqId
  unfold Trap.request
  rw [hid.1, hid.2]
  unfold Trap.reqId
  cases hr : t.reason with
  | syscall =>
    obtain ⟨h0, h1⟩ := h hr
    simp [h0, h1]
  | timer => simp
  | keyboard => simp

theorem genuine_iff (hs : s.dispatchStep t = some s') : Genuine s t ↔ PlainRequest t := by
  have hid := ofId_interrupt t.reqId
  have hcalls : Genuine s t ↔ (t.request = some .timerInt → t.reason = .timer) ∧
      (t.request = some .keyboardInt → t.reason = .keyboard) := by
    rw [← callsTimerHandler_iff hs, ← callsKeyboardHandler_iff hs]
    exact ⟨fun h => ⟨h.timer, h.keyboard⟩, fun h => ⟨h.1, h.2⟩⟩
  rw [hcalls]
  unfold PlainRequest
  constructor
  · rintro ⟨htimer, hkeyboard⟩ hr
    have hword : t.reqId = load32 t.mem (t.esp + 44) := by
      unfold Trap.reqId
      rw [hr]
    refine ⟨fun h0 => ?_, fun h1 => ?_⟩
    · have ht := htimer (hid.1.mpr (hword.trans h0))
      rw [hr] at ht
      simp at ht
    · have hk := hkeyboard (hid.2.mpr (hword.trans h1))
      rw [hr] at hk
      simp at hk
  · intro h
    exact ⟨(request_of_plain h).1.mp, (request_of_plain h).2.mp⟩

/-! ## What the handlers change -/

section Keys

variable {Q : Type} {s s' : KernelOf Q} {p : PcbPtr}

theorem charStep_keystate {c : UInt8} (h : CharStep s c s') :
    s'.kbd.gKeyboardKeystateFlag = s.kbd.gKeyboardKeystateFlag := by
  cases h with
  | eof hc h =>
    rw [h.kbd]
    rfl
  | char hc h =>
    rw [h.kbd]
    rfl

theorem flushes_keystate (h : Flushes s s') :
    s'.kbd.gKeyboardKeystateFlag = s.kbd.gKeyboardKeystateFlag := by
  induction h with
  | refl => rfl
  | tail _ hstep ih =>
    obtain ⟨-, -, u, hu, rfl⟩ := hstep
    exact (charStep_keystate hu).trans ih

theorem closesSome_keystate (h : ClosesSome p s s') :
    s'.kbd.gKeyboardKeystateFlag = s.kbd.gKeyboardKeystateFlag := by
  induction h with
  | refl => rfl
  | tail _ hstep ih =>
    obtain ⟨i, hc⟩ := hstep
    rw [hc.kbd, kbdClose_eq hc.refcount]
    exact ih

/-- The keys that are held down change when a key is pressed or released, and are forgotten when the
device is opened. -/
theorem deviceStep_keystate [ProcLists Q] {req : SyscallRequest} (h : Sane s)
    (h' : DeviceStep s req s') (hkey : req ≠ .keyboardInt) (hopen : req ≠ .sysopen) :
    s'.kbd.gKeyboardKeystateFlag = s.kbd.gKeyboardKeystateFlag := by
  cases h' with
  | kept _ _ h' => rw [h'.kept.kbd]
  | signalled p _ hp h' => rw [h'.kept.kbd]
  | create r u h' => cases h' <;> rfl
  | ended _ heap u v w _ hu hv hw hs =>
    have hsv := ((h.setHeap heap).quiet hu).closesSome hv
    have hc : v.currproc = s.currproc := hv.fdsOnly.currproc.trans hu.currproc
    rw [← hc] at hw
    rw [(ended_calm hsv hw hs).1.kbd, closesSome_keystate hv, hu.kbd]
    rfl
  | opened => exact absurd rfl hopen
  | closed i u r h' =>
    show u.kbd.gKeyboardKeystateFlag = _
    rw [h'.kbd, kbdClose_eq h'.refcount]
  | ioctl e f r => rfl
  | read i u hi hd hu hdone hr =>
    show u.kbd.gKeyboardKeystateFlag = _
    rw [flushes_keystate hu]
    rfl
  | blocked i u _ hi hd hu hdone hr hs =>
    have hsu := (h.startRead (i := i) _ _).flushes hu
    have hcur : u.currproc = .table i := hu.currproc.trans hi
    rw [(blockedRead hsu (by rw [hcur]; simp) hs).2.1, flushes_keystate hu]
    rfl
  | key => exact absurd rfl hkey

end Keys

/-- The ticks that the sleeper `p` has left: the sum of the differences up to its own. -/
def ticksLeft (s : Kernel) (p : PcbPtr) : ℤ :=
  remaining (storedRet s) (s.queues.lists .sleeping) p

variable {v : View} {p : PcbPtr} {e : Event}

/-- A sleeper that sleeps on has one tick less to go after a tick, and as many otherwise. -/
theorem sleeper_countdown (h : Sound v) (he : e.Enabled v) (hp : p ∈ v.sleepers)
    (hw : Inv (some (e.apply v).currproc) (e.apply v)) (hp' : p ∈ (e.apply v).sleepers) :
    (e.apply v).ticksLeft p = v.ticksLeft p - if e = .timer then 1 else 0 := by
  have hblocked := (sleeper_state hw hp').2.1
  cases Event.sleeper_step h he hp with
  | signalled hsig =>
    subst hsig
    obtain ⟨-, -, hq⟩ := sleeper_state h.inv hp
    obtain ⟨a, b, hl⟩ := List.append_of_mem hp
    have hcur : p ≠ v.currproc := ne_of_mem_of_not_mem hp (not_sleeper_current h.inv)
    unfold Event.apply View.interrupt at hblocked
    dsimp only at hblocked
    rw [View.setRet_proc_ne _ _ hcur, if_pos hq, successor_eq h.inv hl, wake_proc_self h.inv hl]
      at hblocked
    exact absurd hblocked (by simp [View.readied])
  | due hdue hone hproc =>
    rcases hproc with hproc | hproc <;> rw [hproc] at hblocked <;>
      exact absurd hblocked (by simp [View.readied])
  | ticked hdue hl _ => rw [hl, if_pos hdue]
  | kept hdue hl _ => rw [hl, if_neg hdue, sub_zero]

/-! ## Runs -/

/-- What the two interrupts do in step `k` of a run, and nothing else does. -/
structure InterruptEffects (r : Run Links) (k : ℕ) : Prop where
  timer : (r.input k).reason = .timer → ∃ s, (r.state k).atTrap (r.input k) = some s ∧
    s.timerHandler = some (r.state (k + 1))
  keyboard : (r.input k).reason = .keyboard → ∃ s, (r.state k).atTrap (r.input k) = some s ∧
    s.keyboardHandler (r.input k).control (r.input k).data = some (r.state (k + 1))
  cpuTime : ∀ i, ((r.state k).pcb (.table i)).currState ≠ .stopped →
    ((r.state (k + 1)).pcb (.table i)).cpuTime =
      if TicksAt r i k then wrapInt (((r.state k).pcb (.table i)).cpuTime + 1)
      else ((r.state k).pcb (.table i)).cpuTime
  countdown : r.Deviceless (k + 1) → ∀ p ∈ (r.state k).queues.lists .sleeping,
    p ∈ (r.state (k + 1)).queues.lists .sleeping →
      ticksLeft (r.state (k + 1)) p =
        ticksLeft (r.state k) p - if (r.input k).reason = .timer then 1 else 0
  keys : (r.input k).reason ≠ .keyboard → (r.input k).request ≠ some .sysopen →
    (r.state (k + 1)).kbd.gKeyboardKeystateFlag = (r.state k).kbd.gKeyboardKeystateFlag

theorem interruptEffects (r : Run Links) {k : ℕ} (hk : k < r.len) (h : PlainRequest (r.input k)) :
    InterruptEffects r k := by
  obtain ⟨htimer, hkeyboard⟩ := request_of_plain h
  obtain ⟨s, req, hs, hreq, hsame, hsane, -, hdis, hdev⟩ := r.device hk
  constructor
  · intro hr
    rw [htimer.mpr hr] at hreq
    obtain rfl := Option.some.inj hreq
    exact ⟨s, hs, hdis⟩
  · intro hr
    rw [hkeyboard.mpr hr] at hreq
    obtain rfl := Option.some.inj hreq
    exact ⟨s, hs, hdis⟩
  · intro i hlive
    have hforged : ¬ ForgesTick r i k := by
      rintro ⟨-, hsyscall, htick⟩
      rw [htimer.mp htick] at hsyscall
      simp at hsyscall
    rw [cpuTime_step r hk hlive]
    simp only [hforged, or_false]
  · intro hd p hp hp'
    obtain ⟨s1, req1, e, -, hreq1, hready, hview, hh, he, hv⟩ := r.event hk hd
    have hsleep := sameSleepers_trap (r.ready hk.le (hd.mono k.le_succ)) hview
    have hnext := (r.ready hk hd).sound.inv
    have htick : e = .timer ↔ (r.input k).reason = .timer := (isTick_iff hreq1 hh).symm.trans htimer
    have hv' : (r.state (k + 1)).view.ticksLeft p = s1.view.ticksLeft p -
        if e = .timer then 1 else 0 := by
      rw [hv] at hnext ⊢
      refine sleeper_countdown hready.sound he (hsleep.sleepers.symm ▸ hp) hnext ?_
      rw [← hv]
      exact hp'
    rw [hsleep.ticksLeft p] at hv'
    simp only [htick] at hv'
    exact hv'
  · intro hr hopen
    rw [hreq] at hopen
    have hkey : req ≠ .keyboardInt := by
      rintro rfl
      exact hr (hkeyboard.mp hreq)
    rw [deviceStep_keystate hsane hdev hkey (fun ho => hopen (congrArg some ho)), hsame.kbd]

/-- In a run, the handlers of the interrupts are executed for these interrupts only, exactly when no
system call of the run has the number of an interrupt.  In every step without such a call, CPU times,
the countdowns of sleepers and the keys held down change with the interrupts alone. -/
theorem interrupts_genuine (r : Run Links) :
    ((∀ k < r.len, Genuine (r.state k) (r.input k)) ↔ ∀ k < r.len, PlainRequest (r.input k)) ∧
      ∀ k < r.len, PlainRequest (r.input k) → InterruptEffects r k := by
  constructor
  · exact forall₂_congr fun k hk => genuine_iff (r.next k hk)
  · intro k hk
    exact interruptEffects r hk

/-- One process sleeps for 20 ms, and a timer interrupt comes. -/
def genuineTickScript : List Act :=
  [.call [2, 40400, 8192] [], .call [3] [], .call [11, 20] [], .tick]

/-- A tick that nobody forged takes one from the countdown of the sleeper. -/
theorem interrupts_genuine_tick : ∃ r : Run Links, r.len = 4 ∧
    (∀ k < r.len, Genuine (r.state k) (r.input k)) ∧
    ticksLeft (r.state 4) (.table 1) = ticksLeft (r.state 3) (.table 1) - 1 := by
  obtain ⟨r, hlen, hcheck, hin, htest⟩ := exists_run (Q := Links) smallPc 40300
    (fun _ t => KernelOf.Deviceless t ∧ (t.reason = .syscall →
      load32 t.mem (t.esp + 44) ≠ 0 ∧ load32 t.mem (t.esp + 44) ≠ 1)) genuineTickScript
    (fun n s => decide (n = 3 ∨ n = 4 → .table 1 ∈ s.queues.lists .sleeping)) (by decide +kernel)
  have hlen4 : r.len = 4 := hlen
  have hplain : ∀ k < r.len, PlainRequest (r.input k) := fun k hk => (hcheck k hk).2
  have hd : r.Deviceless r.len := fun k hk => (hcheck k hk).1
  have hreason : (r.input 3).reason = .timer := by
    rw [hin 3 _ rfl]
    rfl
  have h3 := of_decide_eq_true (htest 3 (by decide)) (.inl rfl)
  have h4 := of_decide_eq_true (htest 4 (by decide)) (.inr rfl)
  obtain ⟨hgenuine, heffects⟩ := interrupts_genuine r
  have hcount := (heffects 3 (by omega) (hplain 3 (by omega))).countdown (hd.mono (by omega))
    (.table 1) h3 h4
  rw [if_pos hreason] at hcount
  exact ⟨r, hlen4, hgenuine.mpr hplain, hcount⟩

/-- One process sleeps for 20 ms, and another one makes the system call 0. -/
def forgedTickScript : List Act :=
  [.call [2, 40400, 8192] [], .call [3] [], .call [11, 20] [], .call [0] []]

/-- A process forges a tick: it is charged for it, and the countdown of the sleeper goes on. -/
theorem forged_tick : ∃ r : Run Links, r.len = 4 ∧ (r.input 3).reason = .syscall ∧
    CallsTimerHandler (r.state 3) (r.input 3) ∧ ¬ Genuine (r.state 3) (r.input 3) ∧
    ((r.state 3).pcb (.table 0)).cpuTime = 0 ∧ ((r.state 4).pcb (.table 0)).cpuTime = 1 ∧
    (r.state 3).queues.lists .sleeping = [.table 1] ∧ ((r.state 3).pcb (.table 1)).ret = 2 ∧
    (r.state 4).queues.lists .sleeping = [.table 1] ∧ ((r.state 4).pcb (.table 1)).ret = 1 := by
  obtain ⟨r, hlen, -, hin, htest⟩ := exists_run (Q := Links) smallPc 40300 (fun _ _ => True)
    forgedTickScript (fun n s => match n with
      | 3 => decide ((Act.trap (.call [0] []) s).reqId = 0 ∧ (s.pcb (.table 0)).cpuTime = 0 ∧
          s.queues.lists .sleeping = [.table 1] ∧ (s.pcb (.table 1)).ret = 2)
      | 4 => decide ((s.pcb (.table 0)).cpuTime = 1 ∧ s.queues.lists .sleeping = [.table 1] ∧
          (s.pcb (.table 1)).ret = 1)
      | _ => true) (by decide +kernel)
  have hlen4 : r.len = 4 := hlen
  obtain ⟨hid, hcpu, hsl, hret⟩ := of_decide_eq_true (htest 3 (by decide))
  obtain ⟨hcpu', hsl', hret'⟩ := of_decide_eq_true (htest 4 (by decide))
  have hreason : (r.input 3).reason = .syscall := by
    rw [hin 3 _ rfl]
    rfl
  have hcall : CallsTimerHandler (r.state 3) (r.input 3) := by
    rw [callsTimerHandler_iff (r.next 3 (by omega)), hin 3 _ rfl]
    exact (ofId_interrupt _).1.mpr hid
  refine ⟨r, hlen4, hreason, hcall, fun h => ?_, hcpu, hcpu', hsl, hret, hsl', hret'⟩
  have ht := h.timer hcall
  rw [hreason] at ht
  simp at ht

end Xeros.Analysis
