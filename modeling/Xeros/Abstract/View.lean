import Xeros.Model.Processes

/-!
# The process core, abstractly

A `View` forgets memory, stacks and devices and keeps what scheduling and blocking are about:
for every process its pid, state, return code and what it is blocked on, and the process lists
as lists.  A process belongs to the list that its state names, `ProcView.place`.

Every operation of the kernel on processes is one `View.move`: a process leaves whatever list it
is in, changes, and joins the end of the list its new state names.  The one exception is falling
asleep, where the process joins the middle of its list (`View.insertSleeper`).
-/

set_option autoImplicit false

namespace Xeros.Abstract

open Xeros.Model Xeros.Foundations

/-- The lists that a process can be in. -/
inductive ListId where
  | queue (q : QueueRef)
  | sleeping
  deriving DecidableEq

/-- The queues that belong to a process: `SENDER`, `RECEIVER` and `WAITING`. -/
def owned (q : BlockingQueue) : Prop := q = .sender ∨ q = .receiver ∨ q = .waiting

instance (q : BlockingQueue) : Decidable (owned q) := inferInstanceAs (Decidable (_ ∨ _))

/-- What a process is to the others. -/
@[ext] structure ProcView where
  pid : ℤ
  state : ProcState
  queue : BlockingQueue
  peer : Option PcbPtr
  ret : ℤ

/-- The list that the state of a process names. -/
def ProcView.place (x : ProcView) : Option ListId :=
  match x.state with
  | .ready => some (.queue (.proc .ready))
  | .stopped => some (.queue (.proc .stopped))
  | .running => none
  | .blocked =>
    if owned x.queue then x.peer.map fun o => .queue (.blocking o x.queue)
    else if x.queue = .sleep then some .sleeping
    else none

/-- State, queue name and peer fit together. -/
structure ProcView.Consistent (x : ProcView) : Prop where
  free : x.state = .ready ∨ x.state = .running → x.queue = .noBlocker ∧ x.peer = none
  named : x.state = .blocked → x.queue ≠ .noBlocker
  peer : x.state = .blocked → owned x.queue → ∃ o, o ≠ PcbPtr.idle ∧ x.peer = some o
  alone : x.state = .blocked → ¬ owned x.queue → x.peer = none

/-- The abstract state of the process core. -/
@[ext] structure View where
  proc : PcbPtr → ProcView
  lists : ListId → List PcbPtr
  currproc : PcbPtr
  transfers : List (PcbPtr × PcbPtr)

namespace View

/-- Change what process `p` is, but not where. -/
def set (v : View) (p : PcbPtr) (f : ProcView → ProcView) : View :=
  { v with proc := Function.update v.proc p (f (v.proc p)) }

/-- The return code of `p`. -/
def setRet (v : View) (p : PcbPtr) (r : ℤ) : View := v.set p fun x => { x with ret := r }

/-- Process `p` leaves its list, becomes `x` and joins the end of the list of `x`. -/
def move (v : View) (p : PcbPtr) (x : ProcView) : View :=
  { v with
    proc := Function.update v.proc p x
    lists := fun i =>
      (v.lists i).erase p ++ if p ≠ .idle ∧ x.place = some i then [p] else [] }

/-- Process `p` leaves its list and becomes `x`, without joining a list. -/
def take (v : View) (p : PcbPtr) (x : ProcView) : View :=
  { v with
    proc := Function.update v.proc p x
    lists := fun i => (v.lists i).erase p }

/-- Process `p` becomes `x` and is put between the sleepers `a` and the sleepers `b`. -/
def insertSleeper (v : View) (p : PcbPtr) (x : ProcView) (a b : List PcbPtr) : View :=
  { v with
    proc := Function.update v.proc p x
    lists := Function.update v.lists .sleeping (a ++ p :: b) }

/-- Process `p` joins a queue of `o`, whatever its state is. -/
def enqueue (v : View) (p o : PcbPtr) (q : BlockingQueue) : View :=
  { v with
    proc := Function.update v.proc p { v.proc p with queue := q, peer := some o }
    lists := Function.update v.lists (.queue (.blocking o q))
      (v.lists (.queue (.blocking o q)) ++ [p]) }

@[simp] theorem set_lists (v : View) (p : PcbPtr) (f : ProcView → ProcView) :
    (v.set p f).lists = v.lists := rfl

@[simp] theorem set_currproc (v : View) (p : PcbPtr) (f : ProcView → ProcView) :
    (v.set p f).currproc = v.currproc := rfl

@[simp] theorem set_transfers (v : View) (p : PcbPtr) (f : ProcView → ProcView) :
    (v.set p f).transfers = v.transfers := rfl

@[simp] theorem set_proc_self (v : View) (p : PcbPtr) (f : ProcView → ProcView) :
    (v.set p f).proc p = f (v.proc p) := by
  simp [set]

@[simp] theorem set_proc_ne (v : View) {p q : PcbPtr} (f : ProcView → ProcView) (h : q ≠ p) :
    (v.set p f).proc q = v.proc q := by
  simp [set, h]

theorem set_eq_self {v : View} {p : PcbPtr} {f : ProcView → ProcView} (h : f (v.proc p) = v.proc p) :
    v.set p f = v := by
  unfold set
  rw [h, Function.update_eq_self]

@[simp] theorem setRet_lists (v : View) (p : PcbPtr) (r : ℤ) : (v.setRet p r).lists = v.lists :=
  rfl

@[simp] theorem setRet_currproc (v : View) (p : PcbPtr) (r : ℤ) :
    (v.setRet p r).currproc = v.currproc := rfl

@[simp] theorem setRet_transfers (v : View) (p : PcbPtr) (r : ℤ) :
    (v.setRet p r).transfers = v.transfers := rfl

@[simp] theorem setRet_proc_self (v : View) (p : PcbPtr) (r : ℤ) :
    (v.setRet p r).proc p = { v.proc p with ret := r } := by
  simp [setRet]

@[simp] theorem setRet_proc_ne (v : View) {p q : PcbPtr} (r : ℤ) (h : q ≠ p) :
    (v.setRet p r).proc q = v.proc q := by
  simp [setRet, h]

theorem move_lists (v : View) (p : PcbPtr) (x : ProcView) (i : ListId) :
    (v.move p x).lists i =
      (v.lists i).erase p ++ if p ≠ .idle ∧ x.place = some i then [p] else [] := rfl

@[simp] theorem move_proc_self (v : View) (p : PcbPtr) (x : ProcView) :
    (v.move p x).proc p = x := by
  simp [move]

@[simp] theorem move_proc_ne (v : View) {p q : PcbPtr} (x : ProcView) (h : q ≠ p) :
    (v.move p x).proc q = v.proc q := by
  simp [move, h]

@[simp] theorem move_currproc (v : View) (p : PcbPtr) (x : ProcView) :
    (v.move p x).currproc = v.currproc := rfl

@[simp] theorem move_transfers (v : View) (p : PcbPtr) (x : ProcView) :
    (v.move p x).transfers = v.transfers := rfl

@[simp] theorem take_proc_self (v : View) (p : PcbPtr) (x : ProcView) :
    (v.take p x).proc p = x := by
  simp [take]

@[simp] theorem take_proc_ne (v : View) {p q : PcbPtr} (x : ProcView) (h : q ≠ p) :
    (v.take p x).proc q = v.proc q := by
  simp [take, h]

@[simp] theorem take_lists (v : View) (p : PcbPtr) (x : ProcView) (i : ListId) :
    (v.take p x).lists i = (v.lists i).erase p := rfl

@[simp] theorem take_currproc (v : View) (p : PcbPtr) (x : ProcView) :
    (v.take p x).currproc = v.currproc := rfl

@[simp] theorem take_transfers (v : View) (p : PcbPtr) (x : ProcView) :
    (v.take p x).transfers = v.transfers := rfl

@[simp] theorem take_set (v : View) (p : PcbPtr) (x : ProcView) (f : ProcView → ProcView) :
    (v.take p x).set p f = v.take p (f x) := by
  simp [take, set]

/-- A process that was taken out joins a list as if it had moved there. -/
theorem take_move {v : View} (hnd : ∀ i, (v.lists i).Nodup) (p : PcbPtr) (x y : ProcView) :
    (v.take p x).move p y = v.move p y := by
  unfold take move
  simp only [Function.update_idem, View.mk.injEq, true_and, and_true]
  funext i
  rw [List.erase_of_not_mem (hnd i).not_mem_erase]

/-- A process in no list is taken by changing it. -/
theorem take_eq_set {v : View} {p : PcbPtr} (h : ∀ i, p ∉ v.lists i) (f : ProcView → ProcView) :
    v.take p (f (v.proc p)) = v.set p f := by
  unfold take set
  congr 1
  funext i
  exact List.erase_of_not_mem (h i)

/-- Taking a process that is in no list changes nothing. -/
theorem take_self {v : View} {p : PcbPtr} (h : ∀ i, p ∉ v.lists i) : v.take p (v.proc p) = v :=
  (take_eq_set h id).trans (set_eq_self rfl)

/-! ## The operations of the kernel -/

/-- A process that is ready with return code `r`. -/
def readied (x : ProcView) (r : ℤ) : ProcView :=
  { x with state := .ready, queue := .noBlocker, peer := none, ret := r }

/-- A process that sleeps for `r` more ticks than the sleeper before it. -/
def asleep (x : ProcView) (r : ℤ) : ProcView :=
  { x with state := .blocked, queue := .sleep, peer := none, ret := r }

/-- A blocked process becomes ready with return code `r`. -/
def unblock (v : View) (p : PcbPtr) (r : ℤ) : View := v.move p (readied (v.proc p) r)

/-- The running process blocks in a queue of `o`, with a preset return code. -/
def block (v : View) (o : PcbPtr) (q : BlockingQueue) (r : ℤ) : View :=
  v.move v.currproc
    { v.proc v.currproc with state := .blocked, queue := q, peer := some o, ret := r }

/-- What `block` does when the running process is in no list. -/
theorem block_eq {v : View} {p : PcbPtr} (hp : p = v.currproc) (hnot : ∀ i, p ∉ v.lists i)
    (hi : p ≠ .idle) {q : BlockingQueue} (hq : owned q) (o : PcbPtr) (r : ℤ) :
    v.block o q r = (v.enqueue p o q).set p fun x => { x with state := .blocked, ret := r } := by
  subst hp
  unfold block move enqueue set
  simp only [Function.update_self, Function.update_idem, View.mk.injEq, true_and, and_true]
  funext i
  have hplace : ({ v.proc v.currproc with state := .blocked, queue := q, peer := some o, ret := r } :
      ProcView).place = some (.queue (.blocking o q)) := by
    simp [ProcView.place, hq]
  rw [hplace, List.erase_of_not_mem (hnot i)]
  by_cases hiq : i = .queue (.blocking o q)
  · subst hiq
    simp [hi]
  · rw [Function.update_of_ne hiq, if_neg fun hc => hiq (Option.some.inj hc.2).symm]
    simp

/-- The running process blocks without being in any queue. -/
def blockAlone (v : View) (q : BlockingQueue) (r : ℤ) : View :=
  v.move v.currproc
    { v.proc v.currproc with state := .blocked, queue := q, peer := none, ret := r }

theorem blockAlone_eq {v : View} {p : PcbPtr} (hp : p = v.currproc) (hnot : ∀ i, p ∉ v.lists i)
    {q : BlockingQueue} (hq : ¬ owned q) (hs : q ≠ .sleep) (r : ℤ) :
    v.blockAlone q r =
      v.set p fun x => { x with state := .blocked, queue := q, peer := none, ret := r } := by
  subst hp
  unfold blockAlone move set
  simp only [View.mk.injEq, true_and, and_true]
  funext i
  have hplace : ({ v.proc v.currproc with state := .blocked, queue := q, peer := none, ret := r } :
      ProcView).place = none := by
    simp [ProcView.place, hq, hs]
  rw [hplace, List.erase_of_not_mem (hnot i)]
  simp

/-- The running process gives up the processor. -/
def preempt (v : View) : View :=
  v.move v.currproc { v.proc v.currproc with state := .ready }

/-- The running process ends. -/
def exit (v : View) : View :=
  v.move v.currproc { v.proc v.currproc with state := .stopped }

/-- A new process with the given pid takes the slot `p`. -/
def spawn (v : View) (p : PcbPtr) (pid : ℤ) : View :=
  v.move p { pid := pid, state := .ready, queue := .noBlocker, peer := none, ret := 0 }

/-- The slot `p`, taken for a process that could not be created, is put back. -/
def recycle (v : View) (p : PcbPtr) : View :=
  v.move p { pid := (v.proc p).pid, state := .stopped, queue := .sender, peer := none, ret := 0 }

/-- The first ready process runs, or the idle process when there is none. -/
def dispatch (v : View) : View :=
  let next := ((v.lists (.queue (.proc .ready))).head?).getD .idle
  { v.move next { v.proc next with state := .running } with currproc := next }

/-- The difference of the sleeper `p` is added to that of the sleeper behind it. -/
def handOn (v : View) (next : Option PcbPtr) (p : PcbPtr) : View :=
  match next with
  | none => v
  | some n => v.setRet n ((v.proc n).ret + (v.proc p).ret)

/-- Process `p`, which sleeps, is taken out of the delta list and becomes ready. -/
def wake (v : View) (next : Option PcbPtr) (p : PcbPtr) : View :=
  (v.handOn next p).unblock p (wrapInt (((v.handOn next p).proc p).ret * tickLengthInMs))

/-- The sleeper behind `p`. -/
def successor (v : View) (p : PcbPtr) : Option PcbPtr :=
  ((v.lists .sleeping).drop ((v.lists .sleeping).idxOf p + 1)).head?

/-- A signal ends what the process `p` is blocked on. -/
def interrupt (v : View) (p : PcbPtr) : View :=
  if (v.proc p).queue = .sleep then v.wake (v.successor p) p
  else v.unblock p (signalledRet (v.proc p).queue (v.proc p).ret)

/-- The blocked processes of a list become ready with the return codes preset for them. -/
def release : List PcbPtr → View → View
  | [], v => v
  | p :: l, v => release l (v.unblock p (v.proc p).ret)

/-- The processes blocked in a queue of `o` become ready. -/
def notify (v : View) (o : PcbPtr) (q : BlockingQueue) : View :=
  release (v.lists (.queue (.blocking o q))) v

/-- The end of the running process `o`: first everyone blocked on it becomes ready. -/
def terminate (v : View) : View :=
  (((v.notify v.currproc .sender).notify v.currproc .receiver).notify v.currproc .waiting).exit

/-- One more message was copied. -/
def record (v : View) (src dest : PcbPtr) : View :=
  { v with transfers := v.transfers ++ [(src, dest)] }

end View

end Xeros.Abstract
