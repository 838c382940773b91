import Xeros.Analysis.Runs
import Xeros.Interface.Links
import Xeros.Refinement.DeviceSteps

/-!
# Runs with devices

In every run, whatever processes do with the keyboard, each turn of the dispatcher is a `DeviceStep`
from a `Sane` state.  For the driver's variables alone it is a sequence of `KbdStep`s.
-/

set_option autoImplicit false

namespace Xeros.Model

open Xeros.Foundations Xeros.Abstract Xeros.Interface

namespace KernelOf

variable {Q : Type} [ProcLists Q] {s s' : KernelOf Q}

/-- The driver's variables after booting. -/
def bootKbd : Keyboard := Keyboard.zero.kbdInit.kbdInit

/-- After booting the driver has not been used, and nobody is in a read. -/
theorem boot_kbd [LawfulProcLists Q] {image : Image} {mem : Memory} {root : ℕ}
    (hs : (boot image mem root : Option (KernelOf Q)) = some s) :
    s.kbd = bootKbd ∧ ∀ p, ¬ s.Reading p := by
  obtain ⟨s1, b, ⟨r, s2⟩, htable, hkbd, -, hr, hs⟩ := boot_stages hs
  have hread1 : ∀ p, ¬ s1.Reading p := by
    rintro p ⟨hb, hn⟩
    cases p with
    | idle =>
      rw [htable.idle] at hn
      simp [idlePcb, Pcb.zero] at hn
    | table i =>
      rw [htable.table] at hb
      simp [tablePcb] at hb
  have hread2 : s2.kbd = s1.kbd ∧ ∀ p, ¬ s2.Reading p := by
    cases create_outcome hr with
    | failed heap => exact ⟨rfl, hread1⟩
    | filled p k heap x hp hpid hfd hx =>
      refine ⟨rfl, fun q hq => ?_⟩
      unfold Core.Reading at hq
      by_cases hqp : q = p
      · rw [hqp, withSlot_pcb_self] at hq
        rcases hx with hx | hx <;> rw [hx] at hq <;> simp at hq
      · rw [withSlot_pcb_ne _ _ _ hqp] at hq
        exact hread1 q hq
  obtain ⟨hc, -⟩ := reschedule_calm hs (hread2.2 .idle)
  refine ⟨?_, fun p hp => hread2.2 p ((hc.reading p).mp hp)⟩
  rw [hc.kbd, hread2.1, hkbd]
  rfl

theorem boot_sane [LawfulProcLists Q] {image : Image} {mem : Memory} {root : ℕ}
    (hs : (boot image mem root : Option (KernelOf Q)) = some s) : Sane s := by
  obtain ⟨hkbd, hread⟩ := boot_kbd hs
  have hready := boot_ready hs
  refine ⟨hready.running, hread _, fun i => ?_, fun k p hk => ?_⟩
  · obtain ⟨h1, htable⟩ := hready.sound.inv.table_of_pid (p := .table i) (by simp)
    exact ⟨h1, (PcbPtr.table.inj htable).symm⟩
  · rw [hkbd] at hk
    simp [bootKbd, Keyboard.kbdInit, Keyboard.zero] at hk

/-! ## The driver alone -/

/-- What happens to the driver's variables. -/
inductive KbdStep (k : Keyboard) : Keyboard → Prop where
  | opened (pid flag : ℤ) (k' : Keyboard) (h : k.kbdOpen pid flag = some (0, k')) : KbdStep k k'
  | closed (pid : ℤ) (h : 0 < k.gKbdRefcount) : KbdStep k (k.kbdClose pid).2
  | ioctl (e f : UInt8) : KbdStep k { k with gKeyboardEof := e, gKeyboardEchoFlag := f }
  | keystate (flag : BitVec 32) : KbdStep k { k with gKeyboardKeystateFlag := flag }
  | register (i : Fin kbdTaskListSize) (p : PcbPtr) (buf : ℕ) (buflen : ℤ)
      (hlen : 1 ≤ buflen ∧ buflen < kernelStack) : KbdStep k (k.register i p buf buflen)
  | eof : KbdStep k (k.finished.receiveAll none)
  | char (c : UInt8) (hc : c ≠ k.gKeyboardEof) : KbdStep k (k.receiveAll (some c))
  | advance (h : k.gKeyboardBufferTail ≠ k.gKeyboardBufferHead) : KbdStep k k.advance
  | push (c : UInt8) (hr : k.gKbdTaskRefcount ≤ 0)
      (hroom : ringSucc k.gKeyboardBufferHead ≠ k.gKeyboardBufferTail) : KbdStep k (k.push c)

/-- A sequence of steps of the driver. -/
abbrev KbdSteps : Keyboard → Keyboard → Prop := Relation.ReflTransGen KbdStep

/-- What every step of the driver keeps is kept by all of them. -/
theorem kbdSteps_inv {I : Keyboard → Prop} (hstep : ∀ k k', I k → KbdStep k k' → I k')
    {k k' : Keyboard} (h : KbdSteps k k') (hk : I k) : I k' := by
  induction h with
  | refl => exact hk
  | tail _ hs ih => exact hstep _ _ ih hs

/-- Steps of the driver that do not open the device. -/
inductive KbdUse (k : Keyboard) : Keyboard → Prop where
  | closed (pid : ℤ) (h : 0 < k.gKbdRefcount) : KbdUse k (k.kbdClose pid).2
  | ioctl (e f : UInt8) : KbdUse k { k with gKeyboardEof := e, gKeyboardEchoFlag := f }
  | keystate (flag : BitVec 32) : KbdUse k { k with gKeyboardKeystateFlag := flag }
  | register (i : Fin kbdTaskListSize) (p : PcbPtr) (buf : ℕ) (buflen : ℤ)
      (hlen : 1 ≤ buflen ∧ buflen < kernelStack) : KbdUse k (k.register i p buf buflen)
  | eof : KbdUse k (k.finished.receiveAll none)
  | char (c : UInt8) (hc : c ≠ k.gKeyboardEof) : KbdUse k (k.receiveAll (some c))
  | advance (h : k.gKeyboardBufferTail ≠ k.gKeyboardBufferHead) : KbdUse k k.advance
  | push (c : UInt8) (hr : k.gKbdTaskRefcount ≤ 0)
      (hroom : ringSucc k.gKeyboardBufferHead ≠ k.gKeyboardBufferTail) : KbdUse k (k.push c)

/-- A sequence of steps that do not open the device. -/
abbrev KbdUses : Keyboard → Keyboard → Prop := Relation.ReflTransGen KbdUse

theorem KbdUse.kbdStep {k k' : Keyboard} (h : KbdUse k k') : KbdStep k k' := by
  cases h with
  | closed pid h => exact .closed pid h
  | ioctl e f => exact .ioctl e f
  | keystate flag => exact .keystate flag
  | register i p buf buflen hlen => exact .register i p buf buflen hlen
  | eof => exact .eof
  | char c hc => exact .char c hc
  | advance h => exact .advance h
  | push c hr hroom => exact .push c hr hroom

theorem KbdUses.kbdSteps {k k' : Keyboard} (h : KbdUses k k') : KbdSteps k k' :=
  Relation.ReflTransGen.mono (fun _ _ => KbdUse.kbdStep) _ _ h

/-- What every use of the driver keeps is kept by all of them. -/
theorem kbdUses_inv {I : Keyboard → Prop} (huse : ∀ k k', I k → KbdUse k k' → I k')
    {k k' : Keyboard} (h : KbdUses k k') (hk : I k) : I k' := by
  induction h with
  | refl => exact hk
  | tail _ hs ih => exact huse _ _ ih hs

omit [ProcLists Q] in
theorem CharStep.kbdUse {c : UInt8} (h : CharStep s c s') : KbdUse s.kbd s'.kbd := by
  cases h with
  | eof hc h =>
    rw [h.kbd]
    exact .eof
  | char hc h =>
    rw [h.kbd]
    exact .char c hc

omit [ProcLists Q] in
theorem Flushes.kbdUses (h : Flushes s s') : KbdUses s.kbd s'.kbd := by
  induction h with
  | refl => exact .refl
  | @tail a b _ hstep ih =>
    obtain ⟨-, hne, u, hu, rfl⟩ := hstep
    refine (ih.tail hu.kbdUse).tail (.advance ?_)
    have hring : u.kbd.gKeyboardBufferTail = a.kbd.gKeyboardBufferTail ∧
        u.kbd.gKeyboardBufferHead = a.kbd.gKeyboardBufferHead := by
      cases hu with
      | eof _ h => rw [h.kbd]; exact ⟨rfl, rfl⟩
      | char _ h => rw [h.kbd]; exact ⟨rfl, rfl⟩
    rw [hring.1, hring.2]
    exact hne

omit [ProcLists Q] in
theorem ClosesSome.kbdUses {p : PcbPtr} (h : ClosesSome p s s') : KbdUses s.kbd s'.kbd := by
  induction h with
  | refl => exact .refl
  | tail _ hstep ih =>
    obtain ⟨i, hc⟩ := hstep
    rw [hc.kbd]
    exact ih.tail (.closed _ hc.refcount)

/-- A turn of the dispatcher opens the device once, or uses it. -/
theorem DeviceStep.kbdUses {req : SyscallRequest} (h : Sane s) (h' : DeviceStep s req s') :
    KbdUses s.kbd s'.kbd ∨
      req = .sysopen ∧ ∃ pid flag, s.kbd.kbdOpen pid flag = some (0, s'.kbd) := by
  cases h' with
  | opened e fd k hfd hk => exact .inr ⟨rfl, _, _, hk⟩
  | kept _ _ h' =>
    left
    rw [h'.kept.kbd]
  | signalled p _ hp h' =>
    left
    rw [h'.kept.kbd]
  | create r u h' =>
    left
    cases h' <;> exact .refl
  | ended _ heap u v w _ hu hv hw hs =>
    have hsv := ((h.setHeap heap).quiet hu).closesSome hv
    have hc : v.currproc = s.currproc := hv.fdsOnly.currproc.trans hu.currproc
    rw [← hc] at hw
    have huses := hv.kbdUses
    rw [hu.kbd] at huses
    left
    rw [(ended_calm hsv hw hs).1.kbd]
    exact huses
  | closed i u r h' =>
    left
    show KbdUses s.kbd u.kbd
    rw [h'.kbd]
    exact .single (.closed _ h'.refcount)
  | ioctl e f r => exact .inl (.single (.ioctl e f))
  | read i u hi hd hu hdone hr =>
    exact .inl (.head (.register _ _ _ _ (length_of_verified hd.verified)) hu.kbdUses)
  | blocked i u _ hi hd hu hdone hr hs =>
    have hsu := (h.startRead (i := i) _ _).flushes hu
    have hcur : u.currproc = .table i := hu.currproc.trans hi
    left
    rw [(blockedRead hsu (by rw [hcur]; simp) hs).2.1]
    exact .head (.register _ _ _ _ (length_of_verified hd.verified)) hu.kbdUses
  | key c flag _ h' =>
    left
    cases h' with
    | ignored hc heq =>
      rw [heq]
      exact .single (.keystate flag)
    | typed hc hr hstep => exact .head (.keystate flag) (.single hstep.kbdUse)
    | stored hc hr hroom heq =>
      rw [heq]
      refine .head (.keystate flag) (.single (.push c ?_ ?_))
      · exact hr
      · exact hroom

/-- The driver takes steps of its own during a turn of the dispatcher. -/
theorem DeviceStep.kbdSteps {req : SyscallRequest} (h : Sane s) (h' : DeviceStep s req s') :
    KbdSteps s.kbd s'.kbd := by
  rcases h'.kbdUses h with huses | ⟨-, pid, flag, hk⟩
  · exact huses.kbdSteps
  · exact .single (.opened pid flag _ hk)

namespace Run

variable [LawfulProcLists Q] (r : Run Q) {n : ℕ}

omit [LawfulProcLists Q] in
/-- Step `n` of a run goes through a handler. -/
theorem handler (hn : n < r.len) :
    ∃ s req, (r.state n).atTrap (r.input n) = some s ∧ (r.input n).request = some req ∧
      SameDevices (r.state n) s ∧ (req = .read → s.currproc ≠ .idle) ∧
      s.dispatchRequest (r.input n) req = some (r.state (n + 1)) := by
  obtain ⟨s, req, hs, hreq, hdis⟩ := dispatchStep_eq_some (r.next n hn)
  have hsame := atTrap_sameDevices hs
  refine ⟨s, req, hs, hreq, hsame, fun hr => ?_, hdis⟩
  subst hr
  rw [hsame.currproc]
  exact (r.allows n hn).1 (reason_of_request hreq ⟨by simp, by simp⟩ (by simp))

/-- Every state of every run is sane. -/
theorem sane (hn : n ≤ r.len) : Sane (r.state n) := by
  induction n with
  | zero => exact boot_sane r.start
  | succ n ih =>
    obtain ⟨s, req, -, -, hsame, hcur, hdis⟩ := r.handler hn
    have hs := (ih (by omega)).sameDevices hsame
    exact (dispatchRequest_step hs hcur hdis).sane hs

/-- What step `n` of a run does to devices. -/
theorem device (hn : n < r.len) :
    ∃ s req, (r.state n).atTrap (r.input n) = some s ∧ (r.input n).request = some req ∧
      SameDevices (r.state n) s ∧ Sane s ∧ (req = .read → s.currproc ≠ .idle) ∧
      s.dispatchRequest (r.input n) req = some (r.state (n + 1)) ∧
      DeviceStep s req (r.state (n + 1)) := by
  obtain ⟨s, req, hs, hreq, hsame, hcur, hdis⟩ := r.handler hn
  have hsane := (r.sane hn.le).sameDevices hsame
  exact ⟨s, req, hs, hreq, hsame, hsane, hcur, hdis, dispatchRequest_step hsane hcur hdis⟩

/-- What every step of the driver keeps holds in every state of every run. -/
theorem kbd_inv {I : Keyboard → Prop} (h0 : I bootKbd) (hstep : ∀ k k', I k → KbdStep k k' → I k')
    (hn : n ≤ r.len) : I (r.state n).kbd := by
  induction n with
  | zero =>
    rw [(boot_kbd r.start).1]
    exact h0
  | succ n ih =>
    obtain ⟨s, req, -, -, hsame, hsane, -, -, hdev⟩ := r.device hn
    refine kbdSteps_inv hstep (hdev.kbdSteps hsane) ?_
    rw [hsame.kbd]
    exact ih (by omega)

end Run

end KernelOf

end Xeros.Model
