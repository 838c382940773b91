import Xeros.Analysis.FirstCome
import Xeros.Analysis.Sleeping

/-!
# Nobody starves

The scheduler is round robin.  Every timer interrupt, `sysyield` and `sysstop` moves a ready process
up by one in the ready queue, and nobody overtakes it; so it runs after at most as many of them as
its place in the queue says.  The idle process runs only while nobody is ready.
-/

set_option autoImplicit false

namespace Xeros.Analysis

open Xeros.Foundations Xeros.Model Xeros.Abstract Xeros.Interface KernelOf

/-- The running process yields or stops, or the timer takes the processor away. -/
def GivesUp (t : Trap) : Prop :=
  t.request = some .timerInt ∨ t.request = some .yield ∨ t.request = some .stop

instance : DecidablePred GivesUp := fun t =>
  inferInstanceAs (Decidable (t.request = _ ∨ t.request = _ ∨ t.request = _))

/-- How many ready processes are in front of `p`, as the pointers of the ready queue have it. -/
def queuePosition (s : Kernel) (p : PcbPtr) : ℕ := s.view.ready.idxOf p

variable {s : Kernel} {req : SyscallRequest} {e : Event} {p : PcbPtr}

/-! ## The ready queue -/

/-- After such a request the next process is dispatched. -/
theorem Handled.dispatches (hh : Handled s req e)
    (hreq : req = .timerInt ∨ req = .yield ∨ req = .stop) : e.Dispatches := by
  cases hh with
  | immediate _ r hr => rcases hreq with rfl | rfl | rfl <;> exact absurd hr id
  | timer => trivial
  | yield => trivial
  | stop => trivial
  | _ => simp at hreq

/-- The ready queue holds processes of the table, each once. -/
theorem ready_length {v : View} {run : Option PcbPtr} (h : Inv run v) :
    v.ready.length ≤ pcbTableSize := by
  have hnd : v.ready.Nodup := h.nodup _
  have hidle : PcbPtr.idle ∉ v.ready := h.not_mem_idle _
  have hcons : (PcbPtr.idle :: v.ready).length ≤ 33 :=
    Links.length_le_of_nodup (List.nodup_cons.mpr ⟨hidle, hnd⟩)
  rw [List.length_cons] at hcons
  show v.ready.length ≤ 32
  omega

/-- In a step after which `p` is still ready it does not move back, and it moves up when the running
process gives up the processor. -/
theorem queuePosition_step (r : Run Links) {k : ℕ} (hk : k < r.len) (hd : r.Deviceless (k + 1))
    (hp : ReadyAt (r.state k).view p) (hp' : ReadyAt (r.state (k + 1)).view p) :
    queuePosition (r.state (k + 1)) p + (if GivesUp (r.input k) then 1 else 0) ≤
      queuePosition (r.state k) p := by
  obtain ⟨s, req, e, -, hreq, hready, hview, hh, he, hv⟩ := r.event hk hd
  have hsame : s.view.ready = (r.state k).view.ready := by
    rw [hview]
    rfl
  have hmem : p ∈ s.view.ready := by
    rw [hsame]
    exact (readyAt_iff (run_inv r hk.le (hd.mono k.le_succ)) p).mpr hp
  have hmem' : p ∈ (e.apply s.view).ready := by
    rw [← hv]
    exact (readyAt_iff (run_inv r hk hd) p).mpr hp'
  obtain ⟨hup, hstay⟩ := Event.position hready.sound he hmem hmem'
  unfold queuePosition
  rw [hv, ← hsame]
  by_cases hdis : e.Dispatches
  · have hpos := hup hdis
    split_ifs <;> omega
  · have hno : ¬ GivesUp (r.input k) := by
      intro hgives
      apply hdis
      apply Handled.dispatches hh
      simpa only [GivesUp, hreq, Option.some_inj] using hgives
    rw [if_neg hno, hstay hdis]
    omega

/-- A ready process stays ready until it runs. -/
theorem ready_or_runs (r : Run Links) {k : ℕ} (hk : k < r.len) (hd : r.Deviceless (k + 1))
    (hp : ReadyAt (r.state k).view p) :
    ReadyAt (r.state (k + 1)).view p ∨ (r.state (k + 1)).currproc = p := by
  obtain ⟨s, req, e, -, -, hready, hview, -, he, hv⟩ := r.event hk hd
  have hinv := run_inv r hk.le (hd.mono k.le_succ)
  have hpc : p ≠ (r.state k).currproc := by
    intro hpc
    have hrun : ((r.state k).view.proc (r.state k).currproc).state = .running :=
      (hinv.running _).mpr rfl
    rw [← hpc, hp.2] at hrun
    exact absurd hrun (by simp)
  have hproc : s.view.proc p = (r.state k).view.proc p := by
    rw [hview]
    exact View.setRet_proc_ne _ _ hpc
  have hst : (s.view.proc p).state = .ready := by
    rw [hproc]
    exact hp.2
  rcases Event.ready_step hready.sound he hst with hsame | hrun
  · left
    refine ⟨hp.1, ?_⟩
    rw [hv, hsame]
    exact hst
  · right
    have hrunning : ((r.state (k + 1)).view.proc p).state = .running := by rw [hv, hrun]
    exact (Option.some.inj (((run_inv r hk hd).running p).mp hrunning))

/-! ## Runs -/

/-- While a process is ready, its place in the queue bounds how often the processor is given up. -/
theorem ready_count_le (r : Run Links) {m n : ℕ} (hmn : m ≤ n) (hn : n ≤ r.len)
    (hd : r.Deviceless n) (hp : ∀ k, m ≤ k → k ≤ n → ReadyAt (r.state k).view p) :
    r.count GivesUp m n + queuePosition (r.state n) p ≤ queuePosition (r.state m) p := by
  apply r.count_le (f := fun k => queuePosition (r.state k) p) hmn
  intro k hmk hkn
  exact queuePosition_step r (by omega) (hd.mono (by omega)) (hp k hmk (by omega))
    (hp (k + 1) (by omega) (by omega))

/-- In every run with no device open, a process that is ready has fewer than `PCB_TABLE_SIZE`
processes in front of it, and it runs before the processor was given up more often than that. -/
theorem ready_process_runs (r : Run Links) {m : ℕ} (hm : m ≤ r.len) (hd : r.Deviceless m)
    (i : Fin pcbTableSize) (hready : ((r.state m).pcb (.table i)).currState = .ready) :
    queuePosition (r.state m) (.table i) < pcbTableSize ∧
      ∀ n, m ≤ n → n ≤ r.len → r.Deviceless n →
        queuePosition (r.state m) (.table i) < r.count GivesUp m n →
        ∃ k, m < k ∧ k ≤ n ∧ (r.state k).currproc = .table i := by
  have hstart : ReadyAt (r.state m).view (.table i) := ⟨by simp, hready⟩
  have hinv := run_inv r hm hd
  constructor
  · have hmem := (readyAt_iff hinv _).mpr hstart
    exact (List.idxOf_lt_length_of_mem hmem).trans_le (ready_length hinv)
  · intro n hmn hn hdn hcount
    by_contra hno
    have hnever : ∀ k, m < k → k ≤ n → (r.state k).currproc ≠ .table i := fun k hmk hk hruns =>
      hno ⟨k, hmk, hk, hruns⟩
    have hall : ∀ k, m ≤ k → k ≤ n → ReadyAt (r.state k).view (.table i) := by
      intro k hmk
      induction k, hmk using Nat.le_induction with
      | base => exact fun _ => hstart
      | succ k hmk ih =>
        intro hk
        rcases ready_or_runs r (by omega) (hdn.mono hk) (ih (by omega)) with hstill | hruns
        · exact hstill
        · exact absurd hruns (hnever (k + 1) (by omega) hk)
    have hle := ready_count_le r hmn hn hdn hall
    omega

/-- Process 34, which the root has just created, runs after one `sysyield`. -/
theorem ready_process_runs_created : ∃ r : Run Links, r.len = 4 ∧
    ((r.state 1).pcb (.table 1)).currState = .ready ∧
    ∃ k, 1 < k ∧ k ≤ 2 ∧ (r.state k).currproc = .table 1 := by
  obtain ⟨r, hlen, hcheck, hin, htest⟩ := exists_run (Q := Links) smallPc 40300
    (fun _ t => KernelOf.Deviceless t) rendezvousScript
    (fun n s => decide (n = 1 → (s.pcb (.table 1)).currState = .ready ∧
      queuePosition s (.table 1) = 0 ∧ GivesUp ((Act.call [3] []).trap s))) (by decide +kernel)
  obtain ⟨hready, hpos, hgives⟩ := of_decide_eq_true (htest 1 (by decide)) rfl
  have hlen4 : r.len = 4 := hlen
  have hd : r.Deviceless 4 := fun k hk => hcheck k (by omega)
  have hcount : r.count GivesUp 1 2 = 1 := by
    rw [r.count_succ (le_refl 1), r.count_self, hin 1 (Act.call [3] []) rfl, if_pos hgives]
  obtain ⟨-, hruns⟩ := ready_process_runs r (by omega) (hd.mono (by omega)) 1 hready
  refine ⟨r, hlen4, hready, hruns 2 (by omega) (by omega) (hd.mono (by omega)) ?_⟩
  rw [hpos, hcount]
  omega

/-! ## The idle process -/

theorem dispatch_idle {w : View} (h : Inv none w) (hc : w.dispatch.currproc = .idle) :
    w.dispatch.ready = [] := by
  have hnot : PcbPtr.idle ∉ w.ready := h.not_mem_idle _
  have hhead : w.ready.head?.getD .idle = .idle := hc
  rw [dispatch_ready]
  cases hw : w.ready with
  | nil => rfl
  | cons p l =>
    rw [hw] at hnot hhead
    have hp : p = .idle := hhead
    rw [hp] at hnot
    exact absurd (List.mem_cons_self ..) hnot

/-- The idle process is interrupted by the timer only. -/
theorem idle_request (r : Run Links) {k : ℕ} (hk : k < r.len) (hd : r.Deviceless (k + 1))
    (hidle : (r.state k).currproc = .idle) (hreq : (r.input k).request = some req) :
    req = .timerInt := by
  by_contra hne
  have hdev := hd k k.lt_succ_self req hreq
  exact (r.allows k hk).1 (reason_of_request hreq hdev hne) hidle

/-- While the idle process runs, the ready queue is empty. -/
theorem idle_ready (r : Run Links) {n : ℕ} (hn : n ≤ r.len) (hd : r.Deviceless n)
    (hidle : (r.state n).currproc = .idle) : (r.state n).view.ready = [] := by
  cases n with
  | zero =>
    obtain ⟨s, hrest, hb⟩ := boot_atRest r.start
    rw [hb.view]
    apply dispatch_idle hrest.good.inv
    rw [← hb.view]
    exact hidle
  | succ k =>
    obtain ⟨s, req, e, -, hreq, hready, hview, hh, he, hv⟩ := r.event hn hd
    have hc : s.currproc = (r.state k).currproc := congrArg View.currproc hview
    have hcur : (e.apply s.view).currproc = .idle := by
      rw [← hv]
      exact hidle
    have hdis : e.Dispatches := by
      by_contra hdis
      obtain ⟨hsame, -⟩ := Event.not_dispatches hready.sound he hdis
      have hprev : (r.state k).currproc = .idle := by
        rw [← hc]
        exact hsame.symm.trans hcur
      exact hdis (Handled.dispatches hh (.inl (idle_request r hn hd hprev hreq)))
    obtain ⟨w, hw, -, happ⟩ := Event.dispatches hready.sound he hdis
    rw [happ] at hcur hv
    rw [hv]
    exact dispatch_idle hw hcur

/-- In every state of every run with no device open, the idle process runs exactly if no process of
the table could. -/
theorem idle_runs_iff (r : Run Links) {n : ℕ} (hn : n ≤ r.len) (hd : r.Deviceless n) :
    (r.state n).currproc = .idle ↔ ∀ i, ((r.state n).pcb (.table i)).currState = .blocked ∨
      ((r.state n).pcb (.table i)).currState = .stopped := by
  have hinv := run_inv r hn hd
  constructor
  · intro hidle i
    cases hst : ((r.state n).pcb (.table i)).currState with
    | blocked => exact .inl rfl
    | stopped => exact .inr rfl
    | ready =>
      have hmem : PcbPtr.table i ∈ (r.state n).view.ready :=
        (readyAt_iff hinv _).mpr ⟨by simp, hst⟩
      rw [idle_ready r hn hd hidle] at hmem
      exact absurd hmem List.not_mem_nil
    | running =>
      have hcur := Option.some.inj ((hinv.running (.table i)).mp hst)
      rw [hidle] at hcur
      exact absurd hcur (by simp)
  · intro hall
    by_contra hidle
    obtain ⟨i, hi⟩ : ∃ i, (r.state n).currproc = .table i := by
      cases hc : (r.state n).currproc with
      | idle => exact absurd hc hidle
      | table i => exact ⟨i, rfl⟩
    have hrun : ((r.state n).view.proc (r.state n).currproc).state = .running :=
      (hinv.running _).mpr rfl
    rw [hi] at hrun
    have hst : ((r.state n).pcb (.table i)).currState = .running := hrun
    rcases hall i with h | h <;> rw [hst] at h <;> exact absurd h (by simp)

/-- The idle process runs while the root sleeps, and not after it. -/
theorem idle_runs_sleeping : ∃ r : Run Links, r.len = 3 ∧ (r.state 1).currproc = .idle ∧
    ∀ i, ((r.state 1).pcb (.table i)).currState = .blocked ∨
      ((r.state 1).pcb (.table i)).currState = .stopped := by
  obtain ⟨r, hlen, hcheck, -, htest⟩ := exists_run (Q := Links) smallPc 40300
    (fun _ t => KernelOf.Deviceless t) sleepScript
    (fun n s => decide (n = 1 → s.currproc = .idle)) (by decide +kernel)
  have hidle := of_decide_eq_true (htest 1 (by decide)) rfl
  have hlen3 : r.len = 3 := hlen
  have hd : r.Deviceless 1 := fun k hk => hcheck k (by omega)
  exact ⟨r, hlen3, hidle, (idle_runs_iff r (by omega) hd).mp hidle⟩

end Xeros.Analysis
