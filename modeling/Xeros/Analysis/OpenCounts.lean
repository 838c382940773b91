import Xeros.Analysis.DeviceRuns
import Xeros.Refinement.Descriptors

/-!
# Opening and closing the keyboard

In every state of every run the driver's reference count is the number of descriptors that live
processes have open.  They are all of one keyboard type as long as nobody writes over the blocks in
which the two types are stored.
-/

set_option autoImplicit false

namespace Xeros.Model.KernelOf

open Xeros.Foundations Xeros.Abstract Xeros.Interface

variable {Q : Type} [ProcLists Q] {s s' : KernelOf Q}

/-- Only the two interrupts come without a system call. -/
theorem syscall_of_request {t : Trap} {req : SyscallRequest} (h : t.request = some req)
    (ht : req ≠ .timerInt) (hk : req ≠ .keyboardInt) : t.reason = .syscall := by
  unfold Trap.request Trap.reqId at h
  cases hr : t.reason with
  | syscall => rfl
  | timer =>
    rw [hr] at h
    exact absurd (Option.some.inj h).symm ht
  | keyboard =>
    rw [hr] at h
    exact absurd (Option.some.inj h).symm hk

theorem SameDevices.tidy (h' : SameDevices s s') (h : Tidy s) : Tidy s' := by
  refine ⟨h.toAccounts.same h'.fdTable (by rw [h'.kbd]) (fun k => by rw [h'.kbd]; exact id),
    ⟨fun p hp => ?_, ?_, fun p hp => ?_, fun p hp hb => ?_⟩, fun p hp fd => ?_⟩
  · rw [h'.queues] at hp
    rw [h'.state]
    exact h.orderly.head p hp
  · rw [h'.state]
    exact h.orderly.idle
  · rw [h'.pid] at hp
    exact h.orderly.pid p hp
  · rw [h'.state] at hb
    rw [h'.name]
    exact h.orderly.named p hp hb
  · rw [h'.state] at hp
    rw [h'.fdTable]
    exact h.closed p hp fd

variable [LawfulProcLists Q] [CheckedProcLists Q]

omit [CheckedProcLists Q] in
/-- The process table as booting leaves it. -/
theorem TableReady.orderly {b : ℕ} (h : TableReady b s) : Orderly none s := by
  have htable : ∀ i, (s.pcb (.table i)).currState = .stopped := by
    intro i
    rw [h.table]
    rfl
  refine ⟨fun p hp => ?_, ?_, fun p hp => ?_, fun p _ hb => ?_⟩
  · rw [LawfulProcLists.head h.wf, h.stopped] at hp
    obtain ⟨i, -, rfl⟩ := List.mem_map.mp (List.mem_of_mem_head? hp)
    rw [htable]
    simp
  · rw [h.idle]
    simp [idlePcb]
  · cases p with
    | idle => rfl
    | table i =>
      rw [h.table] at hp
      have hpos : (tablePcb i).pid = i.val + 1 := rfl
      rw [hpos] at hp
      omega
  · cases p with
    | idle =>
      rw [h.idle]
      simp [idlePcb, Pcb.zero]
    | table i =>
      rw [htable] at hb
      simp at hb

theorem boot_tidy {image : Image} {mem : Memory} {root : ℕ}
    (hs : (boot image mem root : Option (KernelOf Q)) = some s) : Tidy s := by
  have hclosed := (boot_ready hs).closed
  obtain ⟨hkbd, -⟩ := boot_kbd hs
  obtain ⟨s1, b, ⟨r, s2⟩, htable, -, -, hr, hs⟩ := boot_stages hs
  have ho := (reschedule_moves hs).orderly (create_slot hr htable.orderly).orderly
  refine ⟨⟨hclosed .idle, ?_, fun i hi => ?_⟩, ho, fun p _ => hclosed p⟩
  · rw [hkbd, Core.openFds_eq_zero.mpr fun i => hclosed (.table i)]
    rfl
  · rw [hkbd] at hi
    exact absurd hi (by simp [bootKbd, Keyboard.kbdInit])

/-- Every state of every run is tidy. -/
theorem Run.tidy (r : Run Q) {n : ℕ} (hn : n ≤ r.len) : Tidy (r.state n) := by
  induction n with
  | zero => exact boot_tidy r.start
  | succ n ih =>
    obtain ⟨s, req, -, hreq, hsame, hsane, -, hdis, hdev⟩ := r.device hn
    refine (hsame.tidy (ih (by omega))).step hsane (fun ht hk => ?_) hdis hdev
    rw [hsame.currproc]
    exact (r.allows n hn).1 (syscall_of_request hreq ht hk)

end Xeros.Model.KernelOf

namespace Xeros.Analysis

open Xeros.Foundations Xeros.Model Xeros.Abstract KernelOf

/-- `orig_echo_flag` of the two keyboards, as `di_init_devtable` stores it. -/
def echoFlagOf : DeviceId → ℤ
  | .keyboardNoEcho => 0
  | .keyboard => 1

/-- The number of descriptors that live processes have open. -/
def liveOpenFds (s : Kernel) : ℕ :=
  ∑ i : Fin pcbTableSize with (s.pcb (.table i)).currState ≠ .stopped, (s.pcb (.table i)).openFds

/-- The device blocks hold what `di_init_devtable` stored. -/
def DeviceBlocks (s : Kernel) : Prop :=
  ∀ e, toInt (load32 s.mem (s.gDeviceTable e)) = echoFlagOf e

/-- Whenever a process opens a device before step `n`, the device blocks are as they were stored. -/
def KeepsDeviceBlocks (r : Run Links) (n : ℕ) : Prop :=
  ∀ k < n, ∀ s, (r.state k).atTrap (r.input k) = some s →
    (r.input k).request = some .sysopen → DeviceBlocks s

/-- All open descriptors are of the type that the driver has recorded. -/
def OneType (s : Kernel) : Prop :=
  ∀ p fd e, (s.pcb p).fdTable fd = some e → echoFlagOf e = s.kbd.gKbdCurrentType

/-- Step `k` of the run opens a device whose `orig_echo_flag` is `flag`. -/
def OpensAs (r : Run Links) (k : ℕ) (flag : ℤ) : Prop :=
  ∃ s e fd s', (r.state k).atTrap (r.input k) = some s ∧ (r.input k).request = some .sysopen ∧
    deviceOf (toInt (s.arg 0)) = some e ∧ toInt (load32 s.mem (s.gDeviceTable e)) = flag ∧
    s.dispatchSyscallOpen = some (fd, s') ∧ 0 ≤ fd

/-- Why `sysopen` refuses: the device number is bad, no descriptor is free, or the other type is
open. -/
def OpenRefused (s : Kernel) : Prop :=
  match deviceOf (toInt (s.arg 0)) with
  | none => True
  | some e => (∀ fd, s.current.fdTable fd ≠ none) ∨
      0 < s.kbd.gKbdRefcount ∧ s.kbd.gKbdCurrentType ≠ toInt (load32 s.mem (s.gDeviceTable e))

/-- The descriptors of the processes and the driver agree. -/
structure OpenAccounting (s : Kernel) : Prop where
  count : s.kbd.gKbdRefcount = liveOpenFds s
  stopped : ∀ p, (s.pcb p).currState = .stopped → ∀ fd, (s.pcb p).fdTable fd = none

/-- Opening and closing: no assertion fails, and what is refused changes nothing. -/
structure OpensAndCloses (s : Kernel) : Prop where
  runs : ∃ r, s.dispatchSyscallOpen = some r
  refused : ∀ r s', s.dispatchSyscallOpen = some (r, s') → (r < 0 ↔ OpenRefused s) ∧
    (r < 0 → s' = s)
  closeRefused : (s.dispatchSyscallClose.1 ≠ 0 ↔ checkFd s.current (toInt (s.arg 0)) = none) ∧
    (s.dispatchSyscallClose.1 ≠ 0 → s.dispatchSyscallClose.2 = s)

variable {s s' : Kernel}

theorem liveOpenFds_eq (h : ∀ p, (s.pcb p).currState = .stopped → ∀ fd, (s.pcb p).fdTable fd = none) :
    liveOpenFds s = s.openFds := by
  unfold liveOpenFds Core.openFds
  refine Finset.sum_subset (Finset.filter_subset _ _) fun i _ hi => ?_
  have hstop : (s.pcb (.table i)).currState = .stopped := by simpa using hi
  exact Pcb.openFds_eq_zero.mpr (h _ hstop)

theorem openAccounting_of_tidy (h : Tidy s) : OpenAccounting s :=
  ⟨by rw [liveOpenFds_eq h.closed]; exact h.count, h.closed⟩

/-- The first opener finds no task registered. -/
theorem kbdOpen_runs (h : Accounts s) (pid flag : ℤ) : ∃ r, s.kbd.kbdOpen pid flag = some r := by
  unfold Keyboard.kbdOpen
  split_ifs with h1 h2
  · exact ⟨_, rfl⟩
  · exact ⟨_, rfl⟩
  · dsimp only
    rw [cAssert_pos (h.quiet (by omega) _)]
    exact ⟨_, rfl⟩

/-- What `kbd_open` answers. -/
theorem kbdOpen_result {k k' : Keyboard} {pid flag r : ℤ} (h : k.kbdOpen pid flag = some (r, k')) :
    r = if 0 < k.gKbdRefcount ∧ k.gKbdCurrentType ≠ flag then ebusy else 0 := by
  unfold Keyboard.kbdOpen at h
  split_ifs at h with h1 h2
  · rw [if_pos ⟨h1, h2⟩]
    exact (Prod.mk.inj (Option.some.inj h)).1.symm
  · rw [if_neg fun hc => hc.2 (not_not.mp h2)]
    exact (Prod.mk.inj (Option.some.inj h)).1.symm
  · rw [if_neg fun hc => h1 hc.1]
    dsimp only at h
    obtain ⟨_, -, h⟩ := Option.bind_eq_some_iff.mp h
    exact (Prod.mk.inj (Option.some.inj h)).1.symm

theorem dispatchSyscallOpen_runs (h : Accounts s) : ∃ r, s.dispatchSyscallOpen = some r := by
  unfold dispatchSyscallOpen diOpen
  cases deviceOf (toInt (s.arg 0)) with
  | none => exact ⟨_, rfl⟩
  | some e =>
    dsimp only
    cases (List.finRange pcbNumFds).find? fun fd => (s.pcb s.currproc).fdTable fd = none with
    | none => exact ⟨_, rfl⟩
    | some fd =>
      dsimp only
      obtain ⟨⟨result, k⟩, hk⟩ := kbdOpen_runs h (s.pcb s.currproc).pid
        (toInt (load32 s.mem (s.gDeviceTable e)))
      rw [hk]
      show ∃ r, (if result ≠ 0 then _ else _) = some r
      split_ifs
      · exact ⟨_, rfl⟩
      · exact ⟨_, rfl⟩

/-- `sysopen` is refused for one of the three reasons, and changes nothing then. -/
theorem dispatchSyscallOpen_refused {r : ℤ} (hs : s.dispatchSyscallOpen = some (r, s')) :
    (r < 0 ↔ OpenRefused s) ∧ (r < 0 → s' = s) := by
  have hs' := hs
  unfold dispatchSyscallOpen at hs hs'
  unfold OpenRefused
  have hout := diOpen_cases hs'
  unfold diOpen at hs
  cases he : deviceOf (toInt (s.arg 0)) with
  | none =>
    rw [he] at hs
    obtain ⟨rfl, rfl⟩ := Prod.mk.inj (Option.some.inj hs)
    exact ⟨by simp, fun _ => rfl⟩
  | some e =>
    rw [he] at hs
    dsimp only at hs ⊢
    cases hf : (List.finRange pcbNumFds).find? fun fd => (s.pcb s.currproc).fdTable fd = none with
    | none =>
      rw [hf] at hs
      obtain ⟨rfl, rfl⟩ := Prod.mk.inj (Option.some.inj hs)
      have hall : ∀ fd, s.current.fdTable fd ≠ none := by
        intro fd hfd
        have hno := List.find?_eq_none.mp hf fd (List.mem_finRange fd)
        exact hno (by simpa using hfd)
      exact ⟨⟨fun _ => .inl hall, fun _ => by decide⟩, fun _ => rfl⟩
    | some fd =>
      rw [hf] at hs
      dsimp only at hs
      have hfree : s.current.fdTable fd = none := by simpa using List.find?_some hf
      obtain ⟨⟨result, k⟩, hk, hs⟩ := Option.bind_eq_some_iff.mp hs
      have hresult := kbdOpen_result hk
      dsimp only at hs
      split_ifs at hs with hr
      · obtain ⟨rfl, rfl⟩ := Prod.mk.inj (Option.some.inj hs)
        have hbusy : 0 < s.kbd.gKbdRefcount ∧
            s.kbd.gKbdCurrentType ≠ toInt (load32 s.mem (s.gDeviceTable e)) := by
          by_contra hc
          rw [if_neg hc] at hresult
          exact hr hresult
        rw [kbdOpen_refused hk hr]
        exact ⟨⟨fun _ => .inr hbusy, fun _ => by decide⟩, fun _ => rfl⟩
      · obtain ⟨rfl, rfl⟩ := Prod.mk.inj (Option.some.inj hs)
        have hpos : ¬ ((fd.val : ℤ) < 0) := by omega
        refine ⟨⟨fun h => absurd h hpos, fun h => ?_⟩, fun h => absurd h hpos⟩
        rcases h with hall | hbusy
        · exact absurd hfree (hall fd)
        · rw [if_pos hbusy] at hresult
          exact absurd (hresult ▸ hr) (by decide)

/-- `sysclose` is refused for a bad descriptor only, and changes nothing then. -/
theorem dispatchSyscallClose_refused (h : Accounts s) :
    (s.dispatchSyscallClose.1 ≠ 0 ↔ checkFd s.current (toInt (s.arg 0)) = none) ∧
      (s.dispatchSyscallClose.1 ≠ 0 → s.dispatchSyscallClose.2 = s) := by
  unfold dispatchSyscallClose
  rcases diClose_cases s s.currproc (toInt (s.arg 0)) with ⟨heq, hwhy⟩ | ⟨i, e, hc, h0, -⟩
  · rw [heq]
    have hnone : checkFd s.current (toInt (s.arg 0)) = none := by
      by_contra hsome
      rcases hwhy with hcheck | hcount
      · obtain ⟨⟨i, e⟩, hie⟩ := Option.ne_none_iff_exists'.mp hsome
        exact hcheck i e hie
      · obtain ⟨i, hi⟩ := checkFd_ne_none hsome
        exact hi (h.none_open hcount _ i)
    have hne : syserr ≠ 0 := by decide
    exact ⟨⟨fun _ => hnone, fun _ => hne⟩, fun _ => rfl⟩
  · rw [h0]
    refine ⟨⟨fun h => absurd rfl h, fun h => ?_⟩, fun h => absurd rfl h⟩
    have hc' : checkFd s.current (toInt (s.arg 0)) = some (i, e) := hc
    rw [hc'] at h
    simp at h

/-! ## Types -/

/-- Steps that open nothing and leave the recorded type alone. -/
theorem OneType.mono (h : OneType s) (hfd : ∀ p fd e, (s'.pcb p).fdTable fd = some e →
    (s.pcb p).fdTable fd = some e) (htype : s'.kbd.gKbdCurrentType = s.kbd.gKbdCurrentType) :
    OneType s' := by
  intro p fd e hfe
  rw [htype]
  exact h p fd e (hfd p fd e hfe)

theorem OneType.same (h : OneType s) (hfd : ∀ p, (s'.pcb p).fdTable = (s.pcb p).fdTable)
    (htype : s'.kbd.gKbdCurrentType = s.kbd.gKbdCurrentType) : OneType s' :=
  h.mono (fun p fd e hfe => by rwa [hfd] at hfe) htype

theorem OneType.closes {p : PcbPtr} {i : Fin pcbNumFds} (h : OneType s) (h' : Closes p i s s') :
    OneType s' := by
  refine h.mono (fun q fd e hfe => ?_) ?_
  · by_cases hq : q = p
    · rw [hq, h'.pcb_self] at hfe
      dsimp only at hfe
      by_cases hfd : fd = i
      · rw [hfd, Function.update_self] at hfe
        simp at hfe
      · rw [Function.update_of_ne hfd] at hfe
        rw [hq]
        exact hfe
    · rwa [h'.pcb_ne hq] at hfe
  · rw [h'.kbd, kbdClose_eq h'.refcount]

theorem OneType.charStep {c : UInt8} (h : OneType s) (h' : CharStep s c s') : OneType s' := by
  refine h.same (fun p => (h'.broadcast.sameData p).fdTable) ?_
  cases h' with
  | eof _ h' =>
    rw [h'.kbd]
    rfl
  | char _ h' =>
    rw [h'.kbd]
    rfl

theorem OneType.flushes (h : OneType s) (h' : Flushes s s') : OneType s' := by
  induction h' with
  | refl => exact h
  | tail _ hstep ih =>
    obtain ⟨-, -, u, hu, rfl⟩ := hstep
    exact (ih.charStep hu).same (fun _ => rfl) rfl

/-- The first opener records its type; later ones have the same. -/
theorem OneType.opened {e : DeviceId} {fd : Fin pcbNumFds} {k : Keyboard} (h : OneType s)
    (hacc : Accounts s) (hblocks : DeviceBlocks s)
    (hk : s.kbd.kbdOpen (s.pcb s.currproc).pid (toInt (load32 s.mem (s.gDeviceTable e))) =
      some (0, k)) :
    OneType ((s.setKbd k).setPcb s.currproc fun x =>
      { x with fdTable := Function.update x.fdTable fd (some e) }) := by
  rw [hblocks e] at hk
  have htype : k.gKbdCurrentType = echoFlagOf e ∧
      (0 < s.kbd.gKbdRefcount → k.gKbdCurrentType = s.kbd.gKbdCurrentType) := by
    rcases kbdOpen_cases hk with ⟨-, hflag, heq⟩ | ⟨hzero, -, heq⟩
    · rw [heq]
      exact ⟨hflag, fun _ => rfl⟩
    · rw [heq]
      exact ⟨rfl, fun hpos => absurd hpos (by omega)⟩
  have hold : ∀ p fd' e', (s.pcb p).fdTable fd' = some e' → echoFlagOf e' = k.gKbdCurrentType := by
    intro p fd' e' hfe
    by_cases hpos : 0 < s.kbd.gKbdRefcount
    · rw [htype.2 hpos]
      exact h p fd' e' hfe
    · rw [hacc.none_open (by omega) p fd'] at hfe
      simp at hfe
  intro p fd' e' hfe
  show echoFlagOf e' = k.gKbdCurrentType
  by_cases hp : p = s.currproc
  · rw [hp, setPcb_toCore, Core.setPcb_pcb_self] at hfe
    dsimp only at hfe
    by_cases hfd : fd' = fd
    · rw [hfd, Function.update_self] at hfe
      rw [← Option.some.inj hfe, htype.1]
    · rw [Function.update_of_ne hfd] at hfe
      exact hold s.currproc fd' e' hfe
  · rw [setPcb_toCore, Core.setPcb_pcb_ne _ _ hp] at hfe
    exact hold p fd' e' hfe

theorem OneType.step {req : SyscallRequest} (h : OneType s) (hs : Sane s) (hacc : Accounts s)
    (hblocks : req = .sysopen → DeviceBlocks s) (h' : DeviceStep s req s') : OneType s' := by
  have hret : ∀ {u : Kernel} (r : ℤ), OneType u → OneType (u.setRet r) := fun {u} r hu =>
    hu.same (fun p => ((calm_setRet u r).pcb p).fdTable) rfl
  cases h' with
  | kept _ _ h' => exact h.same (fun p => (h'.kept.owner p).fdTable) (by rw [h'.kept.kbd])
  | signalled p _ hp h' => exact h.same (fun p => (h'.kept.owner p).fdTable) (by rw [h'.kept.kbd])
  | create r u h' =>
    refine hret r ?_
    cases h' with
    | failed heap => exact h.same (fun _ => rfl) rfl
    | filled p k heap x hp hpid hfd hx =>
      refine h.mono (fun q fd e hfe => ?_) rfl
      by_cases hq : q = p
      · rw [hq, withSlot_pcb_self, hfd] at hfe
        simp at hfe
      · rwa [withSlot_pcb_ne _ _ _ hq] at hfe
  | ended _ heap u v w _ hu hv hw hss =>
    have hsu := (hs.setHeap heap).quiet hu
    have hou : OneType u := OneType.same (s := s.setHeap heap) h (fun p => (hu.pcb p).fdTable)
      (by rw [hu.kbd])
    have hov : OneType v := by
      have hgen : ∀ {a b : Kernel}, ClosesSome s.currproc a b → OneType a → OneType b := by
        intro a b hab ha
        induction hab with
        | refl => exact ha
        | tail _ hstep ih =>
          obtain ⟨i, hc⟩ := hstep
          exact ih.closes hc
      exact hgen hv hou
    have hc : v.currproc = s.currproc := hv.fdsOnly.currproc.trans hu.currproc
    rw [← hc] at hw
    have hcalm := (ended_calm (hsu.closesSome hv) hw hss).1
    exact hov.same (fun p => (hcalm.pcb p).fdTable) (by rw [hcalm.kbd])
  | opened e fd k hfd hk => exact hret _ (h.opened hacc (hblocks rfl) hk)
  | closed i u r h' => exact hret r (h.closes h')
  | ioctl e f r => exact hret r (h.same (fun _ => rfl) rfl)
  | read i u hi hd hu hdone hr =>
    exact hret _ (OneType.flushes (s := s.startRead (.table i) _ _) (h.same (fun _ => rfl) rfl) hu)
  | blocked i u _ hi hd hu hdone hr hss =>
    have hsu := (hs.startRead (i := i) _ _).flushes hu
    have hcur : u.currproc = .table i := hu.currproc.trans hi
    obtain ⟨-, hkbd, -, -, hdata, -⟩ := blockedRead hsu (by rw [hcur]; simp) hss
    have hou := OneType.flushes (s := s.startRead (.table i) _ _) (h.same (fun _ => rfl) rfl) hu
    exact hou.same (fun p => (hdata p).fdTable) (by rw [hkbd])
  | key c flag _ h' =>
    cases h' with
    | ignored hc heq =>
      rw [heq]
      exact h.same (fun _ => rfl) rfl
    | typed hc hr hstep =>
      refine OneType.charStep ?_ hstep
      exact h.same (fun _ => rfl) rfl
    | stored hc hr hroom heq =>
      rw [heq]
      exact h.same (fun _ => rfl) rfl

theorem run_oneType (r : Run Links) {n : ℕ} (hn : n ≤ r.len) (hkeep : KeepsDeviceBlocks r n) :
    OneType (r.state n) := by
  induction n with
  | zero =>
    intro p fd e hfe
    rw [(boot_ready r.start).closed] at hfe
    simp at hfe
  | succ n ih =>
    obtain ⟨s, req, hs, hreq, hsame, hsane, -, -, hdev⟩ := r.device hn
    have h0 := ih (by omega) fun k hk => hkeep k (by omega)
    have hone : OneType s := OneType.same h0 hsame.fdTable (by rw [hsame.kbd])
    refine hone.step hsane (hsame.tidy (r.tidy (by omega))).toAccounts (fun hopen => ?_) hdev
    exact hkeep n (by omega) s hs (by rw [hreq, hopen])

/-- The recorded type stays while a descriptor is open. -/
theorem currentType_kept {req : SyscallRequest} (hs : Sane s) (hpos : 0 < s.kbd.gKbdRefcount)
    (h' : DeviceStep s req s') : s'.kbd.gKbdCurrentType = s.kbd.gKbdCurrentType := by
  rcases h'.kbdUses hs with huses | ⟨-, pid, flag, hk⟩
  · apply kbdUses_inv (I := fun k => k.gKbdCurrentType = s.kbd.gKbdCurrentType) ?_ huses rfl
    intro k k' h huse
    cases huse with
    | closed pid hk =>
      rw [kbdClose_eq hk]
      exact h
    | ioctl e f => exact h
    | keystate flag => exact h
    | register i p buf buflen hlen => exact h
    | eof => exact h
    | char c hc => exact h
    | advance hne => exact h
    | push c hr hroom => exact h
  · rcases kbdOpen_cases hk with ⟨-, -, heq⟩ | ⟨hzero, -, -⟩
    · rw [heq]
    · omega

/-- While descriptors are open the recorded type is that of every one that was opened. -/
theorem run_keepsType (r : Run Links) {k n : ℕ} {flag : ℤ} (hn : n ≤ r.len)
    (hopen : OpensAs r k flag) (hkn : k < n)
    (hpos : ∀ m, k < m → m ≤ n → 0 < (r.state m).kbd.gKbdRefcount) :
    (r.state n).kbd.gKbdCurrentType = flag := by
  induction n, hkn using Nat.le_induction with
  | base =>
    obtain ⟨s, e, fd, s', hs, hreq, he, hflag, hopen, hfd⟩ := hopen
    obtain ⟨s1, req, hs1, hreq1, hsame, hsane, -, hdis, -⟩ := r.device (n := k) (by omega)
    rw [hs] at hs1
    obtain rfl := Option.some.inj hs1
    rw [hreq] at hreq1
    obtain rfl := Option.some.inj hreq1
    have hstate : r.state (k + 1) = setRetOf (fd, s') := by
      unfold dispatchRequest at hdis
      dsimp only at hdis
      rw [hopen] at hdis
      exact (Option.some.inj hdis).symm
    rw [hstate]
    show s'.kbd.gKbdCurrentType = flag
    cases diOpen_cases hopen with
    | refused => exact absurd hfd (by decide)
    | opened e' fd' k' he' hfd' hk' =>
      obtain rfl : e = e' := Option.some.inj (he.symm.trans he')
      show k'.gKbdCurrentType = flag
      rw [hflag] at hk'
      rcases kbdOpen_cases hk' with ⟨-, htype, heq⟩ | ⟨-, -, heq⟩
      · rw [heq]
        exact htype
      · rw [heq]
        rfl
  | succ m hkm ih =>
    obtain ⟨s, req, -, -, hsame, hsane, -, -, hdev⟩ := r.device (n := m) (by omega)
    have hm := hpos m hkm (by omega)
    rw [← hsame.kbd] at hm
    rw [currentType_kept hsane hm hdev, hsame.kbd]
    exact ih (by omega) fun m' hm' hle => hpos m' hm' (by omega)

/-- In every state of every run the descriptors of the live processes are counted, the recorded type
is that of every device opened since all were closed, refused calls change nothing, and as long as
the device blocks are kept all descriptors are of the recorded type. -/
theorem open_accounting (r : Run Links) {n : ℕ} (hn : n ≤ r.len) :
    OpenAccounting (r.state n) ∧
      (∀ k flag, OpensAs r k flag → k < n →
        (∀ m, k < m → m ≤ n → 0 < (r.state m).kbd.gKbdRefcount) →
        (r.state n).kbd.gKbdCurrentType = flag) ∧
      (KeepsDeviceBlocks r n → OneType (r.state n)) ∧
      ∀ t s, (r.state n).atTrap t = some s → OpensAndCloses s := by
  have htidy := r.tidy hn
  refine ⟨openAccounting_of_tidy htidy, fun k flag => run_keepsType r hn, run_oneType r hn,
    fun t s hs => ?_⟩
  have hacc := ((atTrap_sameDevices hs).tidy htidy).toAccounts
  exact ⟨dispatchSyscallOpen_runs hacc, fun r s' => dispatchSyscallOpen_refused,
    dispatchSyscallClose_refused hacc⟩

/-- A process opens the echoing keyboard twice, the other keyboard in vain, and closes one
descriptor. -/
def openTwiceScript : List Act :=
  [.call [15, 1] [], .call [15, 1] [], .call [15, 0] [], .call [16, 0] []]

/-- The accounts while a process opens and closes. -/
theorem open_accounting_twice : ∃ r : Run Links, r.len = 4 ∧
    (r.state 3).kbd.gKbdRefcount = 2 ∧ ((r.state 3).pcb (.table 0)).ret = syserr ∧
    (r.state 4).kbd.gKbdRefcount = 1 ∧ OpenAccounting (r.state 3) ∧ OneType (r.state 3) ∧
    OpenAccounting (r.state 4) := by
  obtain ⟨r, hlen, hcheck, -, htest⟩ := exists_run (Q := Links) smallPc 40300
    (fun s t => ∀ u ∈ s.atTrap t, toInt (load32 u.mem (u.gDeviceTable .keyboardNoEcho)) = 0 ∧
      toInt (load32 u.mem (u.gDeviceTable .keyboard)) = 1)
    openTwiceScript (fun n s => match n with
      | 3 => decide (s.kbd.gKbdRefcount = 2 ∧ (s.pcb (.table 0)).ret = syserr)
      | 4 => decide (s.kbd.gKbdRefcount = 1)
      | _ => true) (by decide +kernel)
  obtain ⟨h3, hret⟩ := of_decide_eq_true (htest 3 (by decide))
  have h4 := of_decide_eq_true (htest 4 (by decide))
  have hlen' : r.len = 4 := hlen
  have hkeep : KeepsDeviceBlocks r 3 := by
    intro k hk s hs _ e
    have hblocks := hcheck k (by omega) s hs
    cases e with
    | keyboardNoEcho => exact hblocks.1
    | keyboard => exact hblocks.2
  obtain ⟨hacc3, -, htype, -⟩ := open_accounting r (n := 3) (by omega)
  exact ⟨r, hlen, h3, hret, h4, hacc3, htype hkeep, (open_accounting r (n := 4) (by omega)).1⟩

end Xeros.Analysis
