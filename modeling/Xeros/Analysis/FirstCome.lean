import Xeros.Abstract.Order
import Xeros.Analysis.Rendezvous
import Xeros.Refinement.Frames

/-!
# First come, first served

The queues of the kernel are first in, first out, whatever is removed from their middle: after any
calls of `add_proc_to_queue` and `remove_proc_from_queue` the pointers are the expected lists, and
the head of a queue is the process that joined it first.  So the process that is dispatched has been
ready longest, and `recv_any` takes the message of the sender that has been blocked longest.
-/

set_option autoImplicit false

namespace Xeros.Analysis

open Xeros.Foundations Xeros.Model Xeros.Abstract Xeros.Interface KernelOf

/-! ## The queue functions -/

/-- A call of one of the two queue functions of pcb.c. -/
inductive QueueOp where
  | add (proc : PcbPtr) (queue : QueueRef)
  | remove (proc : PcbPtr) (queue : QueueRef)

namespace QueueOp

/-- What the call does to the pointers. -/
def run (k : Links) : QueueOp → Option Links
  | .add p q => k.addProcToQueue p q
  | .remove p q => some (k.removeProcFromQueue p q)

/-- What the call does to the lists. -/
def apply (L : ListId → List PcbPtr) : QueueOp → ListId → List PcbPtr
  | .add p q => Function.update L (.queue q) (L (.queue q) ++ [p])
  | .remove p q => Function.update L (.queue q) ((L (.queue q)).erase p)

/-- Whom the functions may be called with: nobody joins a queue out of another one, and only
members are removed. -/
def Allowed (L : ListId → List PcbPtr) : QueueOp → Prop
  | .add p _ => ∀ i, p ∉ L i
  | .remove p q => p ∈ L (.queue q)

end QueueOp

/-- The pointers after some calls. -/
def runOps (k : Links) (ops : List QueueOp) : Option Links := ops.foldlM QueueOp.run k

/-- The lists after some calls. -/
def contents (L : ListId → List PcbPtr) (ops : List QueueOp) : ListId → List PcbPtr :=
  ops.foldl QueueOp.apply L

/-- Every call is allowed when it is made. -/
def AllAllowed : (ListId → List PcbPtr) → List QueueOp → Prop
  | _, [] => True
  | L, op :: ops => op.Allowed L ∧ AllAllowed (op.apply L) ops

variable {k k' : Links} {L : ListId → List PcbPtr} {op : QueueOp} {ops : List QueueOp}
variable {p q : PcbPtr} {i : ListId}

theorem QueueOp.run_represents (h : k.Represents L) (hop : op.Allowed L) :
    ∃ k', op.run k = some k' ∧ k'.Represents (op.apply L) := by
  cases op with
  | add p q => exact h.addProcToQueue hop q
  | remove p q => exact ⟨_, rfl, h.removeProcFromQueue hop⟩

/-- The pointers go with the lists. -/
theorem runOps_represents (h : k.Represents L) (hops : AllAllowed L ops) :
    ∃ k', runOps k ops = some k' ∧ k'.Represents (contents L ops) := by
  induction ops generalizing k L with
  | nil => exact ⟨k, rfl, h⟩
  | cons op ops ih =>
    obtain ⟨hop, hrest⟩ := hops
    obtain ⟨k1, hk1, h1⟩ := QueueOp.run_represents h hop
    obtain ⟨k', hk', h'⟩ := ih h1 hrest
    refine ⟨k', ?_, h'⟩
    unfold runOps at hk' ⊢
    rw [List.foldlM_cons, hk1]
    exact hk'

/-- A call lets one queue age and leaves the others as they are. -/
theorem QueueOp.ages (hop : op.Allowed L) (i : ListId) : Ages (L i) (op.apply L i) := by
  cases op with
  | add p q =>
    show Ages (L i) (Function.update L _ _ i)
    by_cases hi : i = .queue q
    · rw [hi, Function.update_self]
      exact Ages.join (hop _)
    · rw [Function.update_of_ne hi]
      exact Ages.refl _
  | remove p q =>
    show Ages (L i) (Function.update L _ _ i)
    by_cases hi : i = .queue q
    · rw [hi, Function.update_self]
      exact Ages.of_sublist (List.erase_sublist ..)
    · rw [Function.update_of_ne hi]
      exact Ages.refl _

theorem contents_ages (hops : AllAllowed L ops) {n : ℕ} (hn : n < ops.length) (i : ListId) :
    Ages (contents L (ops.take n) i) (contents L (ops.take (n + 1)) i) := by
  induction ops generalizing L n with
  | nil => exact absurd hn (Nat.not_lt_zero n)
  | cons op ops ih =>
    obtain ⟨hop, hrest⟩ := hops
    cases n with
    | zero => exact QueueOp.ages hop i
    | succ n => exact ih hrest (Nat.lt_of_succ_lt_succ hn)

/-- The pointers, read forwards from the head and backwards from the tail, are the lists. -/
structure ReadsAs (k : Links) (L : ListId → List PcbPtr) : Prop where
  forward : ∀ q n, (L (.queue q)).length ≤ n → follow k.next n (k.head q) = L (.queue q)
  backward : ∀ q n, (L (.queue q)).length ≤ n →
    follow k.prev n (k.tail q) = (L (.queue q)).reverse

theorem Represents.readsAs (h : k.Represents L) : ReadsAs k L := by
  constructor
  · intro q n hn
    rw [h.head q]
    exact (h.family.seg (.queue q)).follow_eq hn
  · intro q n hn
    rw [h.tail q]
    exact (h.family.seg (.queue q)).follow_prev hn

/-- The process `p` is the oldest member of the list `i` after the calls `ops`. -/
def Oldest (L : ListId → List PcbPtr) (ops : List QueueOp) (i : ListId) (p : PcbPtr) : Prop :=
  p ∈ contents L ops i ∧ ∀ p' ∈ contents L ops i,
    WaitsLonger (fun n x => x ∈ contents L (ops.take n) i) ops.length p p'

theorem oldest_head (hops : AllAllowed L ops) (hp : (contents L ops i).head? = some p) :
    Oldest L ops i p := by
  refine ⟨List.mem_of_head? hp, ?_⟩
  intro p' hp'
  apply head_waits_longest (l := fun n => contents L (ops.take n) i)
  · exact fun n hn => contents_ages hops hn i
  · rw [List.take_length]
    exact hp
  · rw [List.take_length]
    exact hp'

variable {s s' : Kernel}

/-- `get_next_proc` takes the head of the ready queue. -/
theorem getNextProc_head (hs : s.getNextProc = some (p, s')) :
    p = (s.queues.head (.proc .ready)).getD .idle := by
  unfold getNextProc at hs
  have hhead : ProcLists.head s.queues (.proc .ready) = s.queues.head (.proc .ready) := rfl
  rw [hhead] at hs
  cases hh : s.queues.head (.proc .ready) with
  | none =>
    rw [hh] at hs
    exact (Prod.mk.inj (Option.some.inj hs)).1.symm
  | some x =>
    rw [hh] at hs
    dsimp only at hs
    cases hr : s.removePcbFromQueue x with
    | none =>
      rw [hr] at hs
      exact absurd hs (by simp)
    | some u =>
      rw [hr] at hs
      exact (Prod.mk.inj (Option.some.inj hs)).1.symm

/-- `recv_any` takes the message of the head of the sender queue, if of anyone. -/
theorem recvAny_head {dest : PcbPtr} {buffer len : ℕ} {r : ℤ}
    (hs : s.recvAny dest buffer len = some (r, s')) :
    s'.transfers = s.transfers ∨ ∃ src, s.queues.head (.blocking dest .sender) = some src ∧
      s'.transfers = s.transfers ++ [(src, dest)] := by
  unfold recvAny at hs
  obtain ⟨_, -, hs⟩ := Option.bind_eq_some_iff.mp hs
  have hhead : ProcLists.head s.queues (.blocking dest .sender) =
      s.queues.head (.blocking dest .sender) := rfl
  rw [hhead] at hs
  cases hh : s.queues.head (.blocking dest .sender) with
  | none =>
    rw [hh] at hs
    obtain ⟨-, rfl⟩ := Prod.mk.inj (Option.some.inj hs)
    exact .inl rfl
  | some src =>
    rw [hh] at hs
    dsimp only at hs
    obtain ⟨⟨ret, u⟩, hu, hs⟩ := Option.bind_eq_some_iff.mp hs
    have hut : u.transfers = s.transfers := by
      unfold removeProcFromBlockingQueue at hu
      obtain ⟨owner, -, hu⟩ := Option.bind_eq_some_iff.mp hu
      split_ifs at hu
      · obtain ⟨-, rfl⟩ := Prod.mk.inj (Option.some.inj hu)
        rfl
      · obtain ⟨_, -, hu⟩ := Option.bind_eq_some_iff.mp hu
        obtain ⟨-, rfl⟩ := Prod.mk.inj (Option.some.inj hu)
        rfl
    dsimp only at hs
    split_ifs at hs
    · obtain ⟨w, hw, hs⟩ := Option.bind_eq_some_iff.mp hs
      obtain ⟨-, rfl⟩ := Prod.mk.inj (Option.some.inj hs)
      refine .inr ⟨src, rfl, ?_⟩
      unfold unblockPeer at hw
      obtain ⟨_, -, hw⟩ := Option.bind_eq_some_iff.mp hw
      obtain ⟨-, k, rfl⟩ := addPcbToQueue_eq hw
      show u.transfers ++ [(src, dest)] = _
      rw [hut]
    · obtain ⟨-, rfl⟩ := Prod.mk.inj (Option.some.inj hs)
      exact .inl hut

/-- What the queues are for, after the calls `ops`: the kernel takes the oldest members. -/
structure ServesOldest (k : Links) (L : ListId → List PcbPtr) (ops : List QueueOp) : Prop where
  dispatch : ∀ s : Kernel, s.queues = k → ∀ p s', s.getNextProc = some (p, s') →
    p = .idle ∧ contents L ops (.queue (.proc .ready)) = [] ∨
      Oldest L ops (.queue (.proc .ready)) p
  message : ∀ s : Kernel, s.queues = k → ∀ dest buffer len r s',
    s.recvAny dest buffer len = some (r, s') → s'.transfers = s.transfers ∨
      ∃ src, Oldest L ops (.queue (.blocking dest .sender)) src ∧
        s'.transfers = s.transfers ++ [(src, dest)]

theorem servesOldest (h : k.Represents (contents L ops)) (hops : AllAllowed L ops) :
    ServesOldest k L ops := by
  constructor
  · rintro s rfl p s' hs
    have hp := getNextProc_head hs
    rw [h.head] at hp
    cases hl : (contents L ops (.queue (.proc .ready))).head? with
    | none =>
      rw [hl] at hp
      exact .inl ⟨hp, List.head?_eq_none_iff.mp hl⟩
    | some x =>
      rw [hl] at hp
      obtain rfl : p = x := hp
      exact .inr (oldest_head hops hl)
  · rintro s rfl dest buffer len r s' hs
    rcases recvAny_head hs with ht | ⟨src, hsrc, ht⟩
    · exact .inl ht
    · rw [h.head] at hsrc
      exact .inr ⟨src, oldest_head hops hsrc, ht⟩

/-! ## Runs -/

/-- The process `p` is a ready process of the table. -/
def ReadyAt (v : View) (p : PcbPtr) : Prop := p ≠ .idle ∧ (v.proc p).state = .ready

/-- The process that runs after step `n` has been ready longest, or was running before. -/
def DispatchesOldest (r : Run Links) (n : ℕ) : Prop :=
  (r.state (n + 1)).currproc = (r.state n).currproc ∨ ∀ q, ReadyAt (r.state (n + 1)).view q →
    (r.state (n + 1)).currproc ≠ .idle ∧
      WaitsLonger (fun m => ReadyAt (r.state m).view) n (r.state (n + 1)).currproc q

/-- A `recv_any` of the running process takes the message of the sender that has been blocked on it
longest. -/
def ReceivesOldest (r : Run Links) (n : ℕ) (s : Kernel) : Prop :=
  ∀ buffer len, buffer ≠ 0 ∧ 0 < len → ∀ q, BlockedOn (r.state n).view q .sender s.currproc →
    q ≠ .idle → ∃ src s', s.recvAny s.currproc buffer len = some (syspidOk, s') ∧
      s'.transfers = s.transfers ++ [(src, s.currproc)] ∧
      BlockedOn (r.state n).view src .sender s.currproc ∧
      WaitsLonger (fun m p => p ≠ .idle ∧ BlockedOn (r.state m).view p .sender s.currproc) n src q

theorem readyAt_iff {run : Option PcbPtr} {v : View} (h : Inv run v) (p : PcbPtr) :
    p ∈ v.ready ↔ ReadyAt v p := by
  unfold View.ready ReadyAt
  rw [h.mem_iff, ProcView.place_eq_ready_iff]

theorem blockedOn_iff {run : Option PcbPtr} {v : View} (h : Inv run v) (p o : PcbPtr) :
    p ∈ v.blockedOn o .sender ↔ p ≠ .idle ∧ BlockedOn v p .sender o := by
  unfold View.blockedOn BlockedOn
  rw [h.mem_iff, ProcView.place_eq_blocking_iff]
  constructor
  · rintro ⟨hi, hst, -, hq, ho⟩
    exact ⟨hi, hst, hq, ho⟩
  · rintro ⟨hi, hst, hq, ho⟩
    exact ⟨hi, hst, .inl rfl, hq, ho⟩

/-- In a run with no device open, every step keeps the order of the queues. -/
theorem run_keepsOrder (r : Run Links) {n : ℕ} (hn : n < r.len) (hd : r.Deviceless (n + 1)) :
    KeepsOrder (r.state n).view (r.state (n + 1)).view := by
  obtain ⟨s, req, e, -, -, hready, hview, -, he, hv⟩ := r.event hn hd
  have ho := Event.keepsOrder hready.sound he
  rw [hv]
  rw [hview] at ho ⊢
  exact ⟨ho.ready, ho.blocked, ho.dispatched⟩

theorem run_inv (r : Run Links) {n : ℕ} (hn : n ≤ r.len) (hd : r.Deviceless n) :
    Inv (some (r.state n).currproc) (r.state n).view := (r.ready hn hd).sound.inv

theorem dispatchesOldest (r : Run Links) {n : ℕ} (hn : n < r.len) (hd : r.Deviceless (n + 1)) :
    DispatchesOldest r n := by
  have hinv : ∀ k ≤ n + 1, Inv (some (r.state k).currproc) (r.state k).view := fun k hk =>
    run_inv r (by omega) (hd.mono hk)
  rcases (run_keepsOrder r hn hd).dispatched with hsame | ⟨l, hgrows, hidle, hnext, htail⟩
  · exact .inl hsame
  refine .inr fun q hq => ?_
  rw [← readyAt_iff (hinv (n + 1) (le_refl _)), htail] at hq
  obtain ⟨p, rest, rfl⟩ := List.exists_cons_of_ne_nil (List.ne_nil_of_mem (List.mem_of_mem_tail hq))
  have hp : (r.state (n + 1)).currproc = p := hnext
  rw [hp]
  refine ⟨fun hp => hidle ?_, ?_⟩
  · rw [← hp]
    exact List.mem_cons_self ..
  · intro m hm hall
    have hall' : ∀ k, m ≤ k → k ≤ n → q ∈ (r.state k).view.ready := fun k hmk hk =>
      (readyAt_iff (hinv k (by omega)) q).mpr (hall k hmk hk)
    have hqn := hall' n hm (le_refl n)
    have hhead : (r.state n).view.ready.head? = some p := by
      obtain ⟨joined, hl, -⟩ := hgrows
      obtain ⟨x, l', hx⟩ := List.exists_cons_of_ne_nil (List.ne_nil_of_mem hqn)
      rw [hx, List.cons_append] at hl
      rw [hx, (List.cons.inj hl).1]
      rfl
    have hlong := head_waits_longest (l := fun k => (r.state k).view.ready)
      (fun k hk => (run_keepsOrder r (by omega) (hd.mono (by omega))).ready) hhead hqn
    intro k hmk hk
    exact (readyAt_iff (hinv k (by omega)) p).mp (hlong m hm hall' k hmk hk)

theorem receivesOldest (r : Run Links) {n : ℕ} {s : Kernel} (hn : n < r.len)
    (hd : r.Deviceless (n + 1)) (hs : (r.state n).atTrap (r.input n) = some s) :
    ReceivesOldest r n s := by
  have hinv : ∀ k ≤ n + 1, Inv (some (r.state k).currproc) (r.state k).view := fun k hk =>
    run_inv r (by omega) (hd.mono hk)
  obtain ⟨s1, req, hs1, -, hready, hview, -, -⟩ := r.turn hn hd
  rw [hs] at hs1
  obtain rfl := Option.some.inj hs1
  intro buffer len hbuf q hq hqi
  have hmem : ∀ k ≤ n, ∀ p, p ∈ (r.state k).view.blockedOn s.currproc .sender ↔
      p ≠ .idle ∧ BlockedOn (r.state k).view p .sender s.currproc := fun k hk p =>
    blockedOn_iff (hinv k (by omega)) p s.currproc
  have hqn := (hmem n (le_refl n) q).mpr ⟨hqi, hq⟩
  obtain ⟨src, rest, hl⟩ := List.exists_cons_of_ne_nil (List.ne_nil_of_mem hqn)
  have hl' : s.view.lists (.queue (.blocking s.currproc .sender)) = src :: rest := by
    rw [hview]
    exact hl
  obtain ⟨s', hrecv, hb⟩ := recvAny_sender hready.good hl' hbuf
  refine ⟨src, s', hrecv, hb.transfers, ?_, ?_⟩
  · refine ((hmem n (le_refl n) src).mp ?_).2
    rw [hl]
    exact List.mem_cons_self ..
  · intro m hm hall k hmk hk
    have hlong := head_waits_longest (l := fun k => (r.state k).view.blockedOn s.currproc .sender)
      (fun k hk => (run_keepsOrder r (by omega) (hd.mono (by omega))).blocked _ _)
      (p := src) (by rw [hl]; rfl) hqn
    refine (hmem k hk src).mp (hlong m hm ?_ k hmk hk)
    exact fun j hmj hj => (hmem j hj q).mpr (hall j hmj hj)

/-- The queues are first in, first out, with arbitrary removal, and the kernel serves their oldest
members. -/
theorem first_come_first_served :
    (∀ (k : Links) (L : ListId → List PcbPtr) (ops : List QueueOp), k.Represents L →
      AllAllowed L ops → ∃ k', runOps k ops = some k' ∧ ReadsAs k' (contents L ops) ∧
        ServesOldest k' L ops) ∧
    ∀ (r : Run Links) (n : ℕ), n < r.len → r.Deviceless (n + 1) →
      DispatchesOldest r n ∧ ∃ s, (r.state n).atTrap (r.input n) = some s ∧
        ReceivesOldest r n s := by
  constructor
  · intro k L ops h hops
    obtain ⟨k', hk', h'⟩ := runOps_represents h hops
    exact ⟨k', hk', Represents.readsAs h', servesOldest h' hops⟩
  · intro r n hn hd
    obtain ⟨s, -, hs, -⟩ := r.turn hn hd
    exact ⟨dispatchesOldest r hn hd, s, hs, receivesOldest r hn hd hs⟩

/-- Three processes become ready, and the one in the middle is removed. -/
def middleOps (p p' p'' : PcbPtr) : List QueueOp :=
  [.add p (.proc .ready), .add p' (.proc .ready), .add p'' (.proc .ready), .remove p' (.proc .ready)]

/-- Three processes send to the root; the one in the middle is signalled out of its send, and the
root receives from anyone. -/
def middleScript : List Act :=
  [.call [2, 40400, 8192] [], .call [2, 40400, 8192] [], .call [2, 40400, 8192] [], .call [3] [],
    .call [9, 33, 2000000, 4] [], .call [13, 5, 40500, 2000200] [], .call [9, 33, 2000000, 4] [],
    .call [9, 33, 2000000, 4] [], .call [6, 35, 5] [],
    .call [10, 1900000, 2000100, 4] [(1900000, [0])]]

/-- The process `p` is blocked in a send to `o`. -/
abbrev SendsTo (s : Kernel) (p o : PcbPtr) : Prop := BlockedOn s.view p .sender o

/-- The other two remain in order, from either end, and the root takes the message of the first. -/
theorem first_come_first_served_middle :
    (∃ k', runOps ProcLists.empty (middleOps (.table 1) (.table 2) (.table 3)) = some k' ∧
      follow k'.next 2 (k'.head (.proc .ready)) = [.table 1, .table 3] ∧
      follow k'.prev 2 (k'.tail (.proc .ready)) = [.table 3, .table 1]) ∧
    ∃ (r : Run Links) (s s' : Kernel), SendsTo (r.state 8) (.table 2) (.table 0) ∧
      (r.state 9).atTrap (r.input 9) = some s ∧ SendsTo (r.state 9) (.table 1) (.table 0) ∧
      ¬ SendsTo (r.state 9) (.table 2) (.table 0) ∧ SendsTo (r.state 9) (.table 3) (.table 0) ∧
      s.recvAny s.currproc 2000100 4 = some (syspidOk, s') ∧
      s'.transfers = s.transfers ++ [(.table 1, .table 0)] := by
  constructor
  · have hlists : contents (fun _ => []) (middleOps (.table 1) (.table 2) (.table 3))
        (.queue (.proc .ready)) = [PcbPtr.table 1, .table 3] := by decide
    have hallowed : AllAllowed (fun _ => []) (middleOps (.table 1) (.table 2) (.table 3)) := by
      refine ⟨fun i => List.not_mem_nil, fun i => ?_, fun i => ?_, ?_, trivial⟩
      · simp only [QueueOp.apply, Function.update_apply]
        split_ifs <;> simp
      · simp only [QueueOp.apply, Function.update_apply]
        split_ifs <;> simp
      · show PcbPtr.table 2 ∈ contents (fun _ => [])
          ((middleOps (.table 1) (.table 2) (.table 3)).take 3) (.queue (.proc .ready))
        decide
    obtain ⟨k', hk', hreads, -⟩ := first_come_first_served.1 ProcLists.empty (fun _ => []) _
      Links.Represents.empty hallowed
    refine ⟨k', hk', ?_, ?_⟩
    · rw [hreads.forward _ 2 (by rw [hlists]; decide), hlists]
    · rw [hreads.backward _ 2 (by rw [hlists]; decide), hlists]
      rfl
  · obtain ⟨r, hlen, hcheck, hin, htest⟩ := exists_run (Q := Links) smallPc 40300
      (fun _ t => KernelOf.Deviceless t) middleScript
      (fun n s => decide ((n = 5 → ∀ j, SendsTo s (.table j) (.table 0) → j = 1) ∧
        (5 ≤ n → n ≤ 9 → SendsTo s (.table 1) (.table 0)) ∧
        (n = 8 → SendsTo s (.table 2) (.table 0)) ∧
        (n = 9 → s.currproc = .table 0 ∧ ¬ SendsTo s (.table 2) (.table 0) ∧
          SendsTo s (.table 3) (.table 0)))) (by decide +kernel)
    have hlen10 : r.len = 10 := hlen
    have hd : r.Deviceless r.len := hcheck
    have hfirst := (of_decide_eq_true (htest 5 (by decide))).1 rfl
    have hone : ∀ k, 5 ≤ k → k ≤ 9 → SendsTo (r.state k) (.table 1) (.table 0) := fun k h5 h9 =>
      (of_decide_eq_true (htest k (h9.trans (by decide)))).2.1 h5 h9
    have htwo := (of_decide_eq_true (htest 8 (by decide))).2.2.1 rfl
    obtain ⟨hcur, hgone, hthree⟩ := (of_decide_eq_true (htest 9 (by decide))).2.2.2 rfl
    obtain ⟨-, s, hs, hreceives⟩ := first_come_first_served.2 r 9 (by omega) (hd.mono (by omega))
    have hroot : s.currproc = .table 0 := by
      have hready : Ready (r.state 9) := r.ready (by omega) (hd.mono (by omega))
      exact (atTrap_view hready hs).2.1.trans hcur
    have hone9 : BlockedOn (r.state 9).view (.table 1) .sender s.currproc := by
      rw [hroot]
      exact hone 9 (by omega) le_rfl
    obtain ⟨src, s', hrecv, htransfers, -, hwaits⟩ :=
      hreceives 2000100 4 (by decide) _ hone9 (by simp)
    rw [hroot] at htransfers hwaits
    -- only slot 1 was sending at step 5, and it has been sending since
    have hsrc : src = .table 1 := by
      obtain ⟨hidle, hblocked⟩ := hwaits 5 (by omega)
        (fun k h5 h9 => ⟨by simp, hone k h5 h9⟩) 5 le_rfl (by omega)
      cases src with
      | idle => exact absurd rfl hidle
      | table j => rw [hfirst j hblocked]
    rw [hsrc] at htransfers
    exact ⟨r, s, s', htwo, hs, hone 9 (by omega) le_rfl, hgone, hthree, hrecv, htransfers⟩

end Xeros.Analysis
