import Xeros.Interface.LawfulLists

/-!
# The pointers of the C code are lists

`Links.Represents k L` says that following the pointers of `k` gives the lists `L`.  Each pointer
operation of pcb.c and sleep.c is one of the three updates of `Family`.
-/

set_option autoImplicit false

namespace Xeros.Model.Links

open Xeros.Foundations Xeros.Abstract Xeros.Interface

/-! ## What the pointer assignments change -/

@[simp] theorem setNext_next (k : Links) (p : PcbPtr) (v : Option PcbPtr) :
    (k.setNext p v).next = Function.update k.next p v := by
  funext q
  by_cases h : q = p <;> simp [setNext, setPcb, next, h]

@[simp] theorem setNext_prev (k : Links) (p : PcbPtr) (v : Option PcbPtr) :
    (k.setNext p v).prev = k.prev := by
  funext q
  by_cases h : q = p <;> simp [setNext, setPcb, prev, h]

@[simp] theorem setNext_head (k : Links) (p : PcbPtr) (v : Option PcbPtr) :
    (k.setNext p v).head = k.head := by
  funext q
  cases q with
  | proc st => rfl
  | blocking o b => by_cases h : o = p <;> simp [setNext, setPcb, head, h]

@[simp] theorem setNext_tail (k : Links) (p : PcbPtr) (v : Option PcbPtr) :
    (k.setNext p v).tail = k.tail := by
  funext q
  cases q with
  | proc st => rfl
  | blocking o b => by_cases h : o = p <;> simp [setNext, setPcb, tail, h]

@[simp] theorem setNext_gSleepingList (k : Links) (p : PcbPtr) (v : Option PcbPtr) :
    (k.setNext p v).gSleepingList = k.gSleepingList := rfl

@[simp] theorem setPrev_next (k : Links) (p : PcbPtr) (v : Option PcbPtr) :
    (k.setPrev p v).next = k.next := by
  funext q
  by_cases h : q = p <;> simp [setPrev, setPcb, next, h]

@[simp] theorem setPrev_prev (k : Links) (p : PcbPtr) (v : Option PcbPtr) :
    (k.setPrev p v).prev = Function.update k.prev p v := by
  funext q
  by_cases h : q = p <;> simp [setPrev, setPcb, prev, h]

@[simp] theorem setPrev_head (k : Links) (p : PcbPtr) (v : Option PcbPtr) :
    (k.setPrev p v).head = k.head := by
  funext q
  cases q with
  | proc st => rfl
  | blocking o b => by_cases h : o = p <;> simp [setPrev, setPcb, head, h]

@[simp] theorem setPrev_tail (k : Links) (p : PcbPtr) (v : Option PcbPtr) :
    (k.setPrev p v).tail = k.tail := by
  funext q
  cases q with
  | proc st => rfl
  | blocking o b => by_cases h : o = p <;> simp [setPrev, setPcb, tail, h]

@[simp] theorem setPrev_gSleepingList (k : Links) (p : PcbPtr) (v : Option PcbPtr) :
    (k.setPrev p v).gSleepingList = k.gSleepingList := rfl

@[simp] theorem setHead_next (k : Links) (q : QueueRef) (v : Option PcbPtr) :
    (k.setHead q v).next = k.next := by
  cases q with
  | proc st => rfl
  | blocking o b =>
    funext p
    by_cases h : p = o <;> simp [setHead, setPcb, next, h]

@[simp] theorem setHead_prev (k : Links) (q : QueueRef) (v : Option PcbPtr) :
    (k.setHead q v).prev = k.prev := by
  cases q with
  | proc st => rfl
  | blocking o b =>
    funext p
    by_cases h : p = o <;> simp [setHead, setPcb, prev, h]

@[simp] theorem setHead_head (k : Links) (q : QueueRef) (v : Option PcbPtr) :
    (k.setHead q v).head = Function.update k.head q v := by
  funext r
  cases q with
  | proc st =>
    cases r with
    | proc st' => by_cases h : st' = st <;> simp [setHead, head, h]
    | blocking o b => simp [setHead, head]
  | blocking o b =>
    cases r with
    | proc st => simp [setHead, setPcb, head]
    | blocking o' b' =>
      by_cases h : o' = o <;> by_cases h' : b' = b <;>
        simp [setHead, setPcb, head, h, h']

@[simp] theorem setHead_tail (k : Links) (q : QueueRef) (v : Option PcbPtr) :
    (k.setHead q v).tail = k.tail := by
  funext r
  cases q with
  | proc st => cases r <;> rfl
  | blocking o b =>
    cases r with
    | proc st => rfl
    | blocking o' b' => by_cases h : o' = o <;> simp [setHead, setPcb, tail, h]

@[simp] theorem setHead_gSleepingList (k : Links) (q : QueueRef) (v : Option PcbPtr) :
    (k.setHead q v).gSleepingList = k.gSleepingList := by
  cases q <;> rfl

@[simp] theorem setTail_next (k : Links) (q : QueueRef) (v : Option PcbPtr) :
    (k.setTail q v).next = k.next := by
  cases q with
  | proc st => rfl
  | blocking o b =>
    funext p
    by_cases h : p = o <;> simp [setTail, setPcb, next, h]

@[simp] theorem setTail_prev (k : Links) (q : QueueRef) (v : Option PcbPtr) :
    (k.setTail q v).prev = k.prev := by
  cases q with
  | proc st => rfl
  | blocking o b =>
    funext p
    by_cases h : p = o <;> simp [setTail, setPcb, prev, h]

@[simp] theorem setTail_tail (k : Links) (q : QueueRef) (v : Option PcbPtr) :
    (k.setTail q v).tail = Function.update k.tail q v := by
  funext r
  cases q with
  | proc st =>
    cases r with
    | proc st' => by_cases h : st' = st <;> simp [setTail, tail, h]
    | blocking o b => simp [setTail, tail]
  | blocking o b =>
    cases r with
    | proc st => simp [setTail, setPcb, tail]
    | blocking o' b' =>
      by_cases h : o' = o <;> by_cases h' : b' = b <;>
        simp [setTail, setPcb, tail, h, h']

@[simp] theorem setTail_head (k : Links) (q : QueueRef) (v : Option PcbPtr) :
    (k.setTail q v).head = k.head := by
  funext r
  cases q with
  | proc st => cases r <;> rfl
  | blocking o b =>
    cases r with
    | proc st => rfl
    | blocking o' b' => by_cases h : o' = o <;> simp [setTail, setPcb, head, h]

@[simp] theorem setTail_gSleepingList (k : Links) (q : QueueRef) (v : Option PcbPtr) :
    (k.setTail q v).gSleepingList = k.gSleepingList := by
  cases q <;> rfl

/-! ## Taking a node out -/

/-- The assignments that link the two neighbours of a node to each other. -/
def bypass (k : Links) (proc : PcbPtr) : Links :=
  let k := match k.prev proc with
    | some p => k.setNext p (k.next proc)
    | none => k
  match k.next proc with
  | some n => k.setPrev n (k.prev proc)
  | none => k

/-- `if (*head == proc) *head = v;` -/
def setHeadIf (k : Links) (q : QueueRef) (proc : PcbPtr) (v : Option PcbPtr) : Links :=
  if k.head q = some proc then k.setHead q v else k

/-- `if (*tail == proc) *tail = v;` -/
def setTailIf (k : Links) (q : QueueRef) (proc : PcbPtr) (v : Option PcbPtr) : Links :=
  if k.tail q = some proc then k.setTail q v else k

theorem setAt_self {α : Type} [DecidableEq α] (f : α → Option α) (a : Option α) (x : α) :
    setAt f a (f x) x = f x := by
  cases a with
  | none => rfl
  | some y =>
    by_cases hxy : x = y
    · subst hxy
      simp
    · simp [hxy]

@[simp] theorem bypass_next (k : Links) (p : PcbPtr) :
    (k.bypass p).next = setAt k.next (k.prev p) (k.next p) := by
  unfold bypass
  cases hprev : k.prev p with
  | none => cases hnext : k.next p <;> simp [hnext]
  | some x =>
    have hself := setAt_self k.next (some x) p
    simp only [setAt_some] at hself
    cases hnext : k.next p <;> simp [← hnext, hself] <;> simp [hnext]

@[simp] theorem bypass_prev (k : Links) (p : PcbPtr) :
    (k.bypass p).prev = setAt k.prev (k.next p) (k.prev p) := by
  unfold bypass
  cases hprev : k.prev p with
  | none => cases hnext : k.next p <;> simp [hnext, hprev]
  | some x =>
    have hself := setAt_self k.next (some x) p
    simp only [setAt_some] at hself
    cases hnext : k.next p <;> simp [← hnext, hself] <;> simp [hnext, hprev]

@[simp] theorem bypass_head (k : Links) (p : PcbPtr) : (k.bypass p).head = k.head := by
  unfold bypass
  dsimp only
  split <;> split <;> simp

@[simp] theorem bypass_tail (k : Links) (p : PcbPtr) : (k.bypass p).tail = k.tail := by
  unfold bypass
  dsimp only
  split <;> split <;> simp

@[simp] theorem bypass_gSleepingList (k : Links) (p : PcbPtr) :
    (k.bypass p).gSleepingList = k.gSleepingList := by
  unfold bypass
  dsimp only
  split <;> split <;> simp

@[simp] theorem setHeadIf_next (k : Links) (q : QueueRef) (p : PcbPtr) (v : Option PcbPtr) :
    (k.setHeadIf q p v).next = k.next := by
  unfold setHeadIf
  split_ifs <;> simp

@[simp] theorem setHeadIf_prev (k : Links) (q : QueueRef) (p : PcbPtr) (v : Option PcbPtr) :
    (k.setHeadIf q p v).prev = k.prev := by
  unfold setHeadIf
  split_ifs <;> simp

theorem setHeadIf_head (k : Links) (q : QueueRef) (p : PcbPtr) (v : Option PcbPtr)
    (r : QueueRef) : (k.setHeadIf q p v).head r =
      if r = q then (if k.head q = some p then v else k.head q) else k.head r := by
  unfold setHeadIf
  split_ifs <;> simp_all

@[simp] theorem setHeadIf_tail (k : Links) (q : QueueRef) (p : PcbPtr) (v : Option PcbPtr) :
    (k.setHeadIf q p v).tail = k.tail := by
  unfold setHeadIf
  split_ifs <;> simp

@[simp] theorem setHeadIf_gSleepingList (k : Links) (q : QueueRef) (p : PcbPtr)
    (v : Option PcbPtr) : (k.setHeadIf q p v).gSleepingList = k.gSleepingList := by
  unfold setHeadIf
  split_ifs <;> simp

@[simp] theorem setTailIf_next (k : Links) (q : QueueRef) (p : PcbPtr) (v : Option PcbPtr) :
    (k.setTailIf q p v).next = k.next := by
  unfold setTailIf
  split_ifs <;> simp

@[simp] theorem setTailIf_prev (k : Links) (q : QueueRef) (p : PcbPtr) (v : Option PcbPtr) :
    (k.setTailIf q p v).prev = k.prev := by
  unfold setTailIf
  split_ifs <;> simp

@[simp] theorem setTailIf_head (k : Links) (q : QueueRef) (p : PcbPtr) (v : Option PcbPtr) :
    (k.setTailIf q p v).head = k.head := by
  unfold setTailIf
  split_ifs <;> simp

theorem setTailIf_tail (k : Links) (q : QueueRef) (p : PcbPtr) (v : Option PcbPtr)
    (r : QueueRef) : (k.setTailIf q p v).tail r =
      if r = q then (if k.tail q = some p then v else k.tail q) else k.tail r := by
  unfold setTailIf
  split_ifs <;> simp_all

@[simp] theorem setTailIf_gSleepingList (k : Links) (q : QueueRef) (p : PcbPtr)
    (v : Option PcbPtr) : (k.setTailIf q p v).gSleepingList = k.gSleepingList := by
  unfold setTailIf
  split_ifs <;> simp

theorem removeProcFromQueue_eq (k : Links) (p : PcbPtr) (q : QueueRef) :
    k.removeProcFromQueue p q =
      (((((k.bypass p).setHeadIf q p (k.next p)).setTailIf q p (k.prev p)).setPrev p none).setNext
        p none) := by
  have hnext : (k.bypass p).next p = k.next p := by rw [bypass_next, setAt_self]
  have hprev : (k.bypass p).prev p = k.prev p := by rw [bypass_prev, setAt_self]
  have hprev' : ((k.bypass p).setHeadIf q p (k.next p)).prev p = k.prev p := by simp [setAt_self]
  have heq : k.removeProcFromQueue p q =
      ((((k.bypass p).setHeadIf q p ((k.bypass p).next p)).setTailIf q p
        (((k.bypass p).setHeadIf q p ((k.bypass p).next p)).prev p)).setPrev p none).setNext
          p none := rfl
  rw [heq, hnext, hprev']

/-- `if (g_sleeping_list == proc) g_sleeping_list = v;` -/
def setSleepingIf (k : Links) (proc : PcbPtr) (v : Option PcbPtr) : Links :=
  if k.gSleepingList = some proc then { k with gSleepingList := v } else k

@[simp] theorem setSleepingIf_next (k : Links) (p : PcbPtr) (v : Option PcbPtr) :
    (k.setSleepingIf p v).next = k.next := by
  unfold setSleepingIf
  split_ifs <;> rfl

@[simp] theorem setSleepingIf_prev (k : Links) (p : PcbPtr) (v : Option PcbPtr) :
    (k.setSleepingIf p v).prev = k.prev := by
  unfold setSleepingIf
  split_ifs <;> rfl

@[simp] theorem setSleepingIf_head (k : Links) (p : PcbPtr) (v : Option PcbPtr) :
    (k.setSleepingIf p v).head = k.head := by
  unfold setSleepingIf
  split_ifs
  · funext q
    cases q <;> rfl
  · rfl

@[simp] theorem setSleepingIf_tail (k : Links) (p : PcbPtr) (v : Option PcbPtr) :
    (k.setSleepingIf p v).tail = k.tail := by
  unfold setSleepingIf
  split_ifs
  · funext q
    cases q <;> rfl
  · rfl

theorem setSleepingIf_gSleepingList (k : Links) (p : PcbPtr) (v : Option PcbPtr) :
    (k.setSleepingIf p v).gSleepingList =
      if k.gSleepingList = some p then v else k.gSleepingList := by
  unfold setSleepingIf
  split_ifs <;> rfl

theorem unlinkSleeper_eq (k : Links) (p : PcbPtr) :
    k.unlinkSleeper p =
      (((k.bypass p).setSleepingIf p (k.next p)).setPrev p none).setNext p none := by
  have hnext : (k.bypass p).next p = k.next p := by rw [bypass_next, setAt_self]
  have heq : k.unlinkSleeper p =
      (((k.bypass p).setSleepingIf p ((k.bypass p).next p)).setPrev p none).setNext p none := rfl
  rw [heq, hnext]

/-! ## Putting a sleeper in -/

theorem setAt_update_comm {f : PcbPtr → Option PcbPtr} {a b c : Option PcbPtr} {p : PcbPtr}
    (h : a ≠ some p) : setAt (Function.update f p b) a c = Function.update (setAt f a c) p b := by
  cases a with
  | none => rfl
  | some x => exact Function.update_comm (fun hx => h (by rw [hx])) _ _ _

theorem linkSleeper_next (k : Links) (p : PcbPtr) (prev entry : Option PcbPtr) :
    (k.linkSleeper p prev entry).next = Function.update (setAt k.next prev (some p)) p entry := by
  unfold linkSleeper
  cases prev <;> cases entry <;> simp <;> rfl

theorem linkSleeper_prev (k : Links) (p : PcbPtr) (prev entry : Option PcbPtr) :
    (k.linkSleeper p prev entry).prev = setAt (Function.update k.prev p prev) entry (some p) := by
  unfold linkSleeper
  cases prev <;> cases entry <;> simp <;> rfl

theorem linkSleeper_head (k : Links) (p : PcbPtr) (prev entry : Option PcbPtr) :
    (k.linkSleeper p prev entry).head = k.head := by
  funext q
  unfold linkSleeper
  cases prev <;> cases entry <;> cases q <;> simp <;> rfl

theorem linkSleeper_tail (k : Links) (p : PcbPtr) (prev entry : Option PcbPtr) :
    (k.linkSleeper p prev entry).tail = k.tail := by
  funext q
  unfold linkSleeper
  cases prev <;> cases entry <;> cases q <;> simp <;> rfl

theorem linkSleeper_gSleepingList (k : Links) (p : PcbPtr) (prev entry : Option PcbPtr) :
    (k.linkSleeper p prev entry).gSleepingList =
      if prev = none then some p else k.gSleepingList := by
  unfold linkSleeper
  cases prev <;> cases entry <;> rfl

/-! ## Representation -/

/-- The pointers of `k` are the lists `L`. -/
structure Represents (k : Links) (L : ListId → List PcbPtr) : Prop where
  family : Family k.next k.prev L
  head : ∀ q, k.head q = (L (.queue q)).head?
  tail : ∀ q, k.tail q = (L (.queue q)).getLast?
  sleeping : k.gSleepingList = (L .sleeping).head?

/-- The slot of a process of the table. -/
def tableSlot : PcbPtr → Option (Fin 32)
  | .table i => some i
  | .idle => none

/-- A list of distinct processes is at most as long as the table, plus one. -/
theorem length_le_of_nodup {l : List PcbPtr} (h : l.Nodup) : l.length ≤ 33 := by
  have hinj : Function.Injective tableSlot := by
    intro p q hpq
    cases p <;> cases q <;> simp_all [tableSlot]
  simpa using (h.map hinj).length_le_card

/-- The first node of a list. -/
def first (k : Links) : ListId → Option PcbPtr
  | .queue q => k.head q
  | .sleeping => k.gSleepingList

/-- The nodes met from the first one on. -/
def lists (k : Links) (i : ListId) : List PcbPtr := follow k.next 33 (k.first i)

/-- The lists that pointers represent are found by following them. -/
theorem Represents.lists_eq {k : Links} {L : ListId → List PcbPtr} (h : k.Represents L) :
    k.lists = L := by
  funext i
  have hfirst : k.first i = (L i).head? := by
    cases i with
    | queue q => exact h.head q
    | sleeping => exact h.sleeping
  rw [lists, hfirst]
  exact (h.family.seg i).follow_eq (length_le_of_nodup (h.family.nodup i))

/-- The pointers represent some lists. -/
def WellFormed (k : Links) : Prop := k.Represents k.lists

theorem Represents.wellFormed {k : Links} {L : ListId → List PcbPtr} (h : k.Represents L) :
    k.WellFormed ∧ k.lists = L := by
  have hl := h.lists_eq
  exact ⟨by rw [WellFormed, hl]; exact h, hl⟩

namespace Represents

variable {k : Links} {L : ListId → List PcbPtr}

theorem empty : (ProcLists.empty : Links).Represents fun _ => [] := by
  refine ⟨⟨fun _ => List.nodup_nil, fun _ _ x hx => absurd hx List.not_mem_nil, fun _ => trivial⟩,
    fun q => ?_, fun q => ?_, rfl⟩
  · cases q <;> rfl
  · cases q <;> rfl

/-- `add_proc_to_queue` puts a process that is in no list at the end of one. -/
theorem addProcToQueue (h : k.Represents L) {p : PcbPtr} (hp : ∀ i, p ∉ L i) (q : QueueRef) :
    ∃ k', k.addProcToQueue p q = some k' ∧
      k'.Represents (Function.update L (.queue q) (L (.queue q) ++ [p])) := by
  have hf := h.family.insert (i := .queue q) (x := p) (a := L (.queue q)) (b := []) hp (by simp)
  have hlast : (L (.queue q)).getLast? = none ↔ (L (.queue q)).head? = none := by
    rw [List.getLast?_eq_none_iff, List.head?_eq_none_iff]
  unfold Links.addProcToQueue
  cases hhead : k.head q with
  | none =>
    have hnil : L (.queue q) = [] := List.head?_eq_none_iff.mp ((h.head q).symm.trans hhead)
    have htail : k.tail q = none := by rw [h.tail, hnil]; rfl
    refine ⟨_, rfl, ?_, fun r => ?_, fun r => ?_, ?_⟩
    · simpa [hnil, htail] using hf
    · by_cases hr : r = q
      · subst hr
        simp [hnil]
      · simp [hr, h.head]
    · by_cases hr : r = q
      · subst hr
        simp [hnil]
      · simp [hr, h.tail]
    · simp [h.sleeping]
  | some x =>
    have hne : L (.queue q) ≠ [] := fun hnil => by simp [h.head, hnil] at hhead
    obtain ⟨t, ht⟩ : ∃ t, (L (.queue q)).getLast? = some t :=
      Option.ne_none_iff_exists'.mp fun hn => hne (List.getLast?_eq_none_iff.mp hn)
    have htail : k.tail q = some t := (h.tail q).trans ht
    refine ⟨(((k.setNext t (some p)).setPrev p (some t)).setNext p none).setTail q (some p),
      by simp [htail], ?_, fun r => ?_, fun r => ?_, ?_⟩
    · simpa [ht] using hf
    · by_cases hr : r = q
      · subst hr
        simp [h.head, List.head?_append, (h.head r).symm.trans hhead]
      · simp [hr, h.head]
    · by_cases hr : r = q
      · subst hr
        simp
      · simp [hr, h.tail]
    · simp [h.sleeping]

/-- After a node has left, the head is the old one or the node's successor. -/
theorem head?_erase {l a b : List PcbPtr} {p : PcbPtr} (hl : l = a ++ p :: b) (hnd : l.Nodup) :
    (l.erase p).head? = if l.head? = some p then b.head? else l.head? := by
  subst hl
  have hpa : p ∉ a := fun hpa => (List.nodup_append.mp hnd).2.2 p hpa p (by simp) rfl
  rw [List.erase_append_right _ hpa, List.erase_cons_head]
  cases a with
  | nil => simp
  | cons x a =>
    have hxp : x ≠ p := fun hxp => hpa (by simp [hxp])
    simp [hxp]

/-- After a node has left, the tail is the old one or the node's predecessor. -/
theorem getLast?_erase {l a b : List PcbPtr} {p : PcbPtr} (hl : l = a ++ p :: b)
    (hnd : l.Nodup) :
    (l.erase p).getLast? = if l.getLast? = some p then a.getLast? else l.getLast? := by
  subst hl
  have hpa : p ∉ a := fun hpa => (List.nodup_append.mp hnd).2.2 p hpa p (by simp) rfl
  have hpb : p ∉ b := (List.nodup_cons.mp (List.nodup_append.mp hnd).2.1).1
  rw [List.erase_append_right _ hpa, List.erase_cons_head]
  obtain rfl | ⟨b', y, hb⟩ := b.eq_nil_or_concat
  · simp
  · rw [List.concat_eq_append] at hb
    subst hb
    have hyp : y ≠ p := fun hyp => hpb (by simp [hyp])
    have hold : (a ++ p :: (b' ++ [y])).getLast? = some y := by
      rw [← List.cons_append, ← List.append_assoc, List.getLast?_concat]
    have hnew : (a ++ (b' ++ [y])).getLast? = some y := by
      rw [← List.append_assoc, List.getLast?_concat]
    rw [hold, hnew]
    simp [hyp]

/-- `remove_proc_from_queue` takes a process out of the queue it is in. -/
theorem removeProcFromQueue (h : k.Represents L) {p : PcbPtr} {q : QueueRef}
    (hp : p ∈ L (.queue q)) : (k.removeProcFromQueue p q).Represents
      (Function.update L (.queue q) ((L (.queue q)).erase p)) := by
  obtain ⟨a, b, hL⟩ := List.append_of_mem hp
  have hf := h.family.unlink hp
  have hnext := h.family.next_eq hL
  have hprev := h.family.prev_eq hL
  have hhead := head?_erase hL (h.family.nodup _)
  have hlast := getLast?_erase hL (h.family.nodup _)
  rw [removeProcFromQueue_eq]
  refine ⟨?_, fun r => ?_, fun r => ?_, ?_⟩
  · simp only [setNext_next, setPrev_next, setTailIf_next, setHeadIf_next, setNext_prev,
      setPrev_prev, setTailIf_prev, setHeadIf_prev, bypass_next, bypass_prev]
    exact hf
  · simp only [setNext_head, setPrev_head, setTailIf_head, setHeadIf_head, bypass_head]
    by_cases hr : r = q
    · subst hr
      rw [if_pos rfl, h.head, hnext, Function.update_self, hhead]
    · rw [if_neg hr, h.head, Function.update_of_ne (by simp [hr])]
  · simp only [setNext_tail, setPrev_tail, setTailIf_tail, setHeadIf_tail, bypass_tail]
    by_cases hr : r = q
    · subst hr
      rw [if_pos rfl, h.tail, hprev, Function.update_self, hlast]
    · rw [if_neg hr, h.tail, Function.update_of_ne (by simp [hr])]
  · simp only [setNext_gSleepingList, setPrev_gSleepingList, setTailIf_gSleepingList,
      setHeadIf_gSleepingList, bypass_gSleepingList, h.sleeping]
    simp

/-- `remove_from_sleeping_list` takes a sleeper out of the sleeping list. -/
theorem unlinkSleeper (h : k.Represents L) {p : PcbPtr} (hp : p ∈ L .sleeping) :
    (k.unlinkSleeper p).Represents (Function.update L .sleeping ((L .sleeping).erase p)) := by
  obtain ⟨a, b, hL⟩ := List.append_of_mem hp
  have hf := h.family.unlink hp
  have hnext := h.family.next_eq hL
  have hhead := head?_erase hL (h.family.nodup _)
  rw [unlinkSleeper_eq]
  refine ⟨?_, fun r => ?_, fun r => ?_, ?_⟩
  · simp only [setNext_next, setPrev_next, setSleepingIf_next, setNext_prev, setPrev_prev,
      setSleepingIf_prev, bypass_next, bypass_prev]
    exact hf
  · simp only [setNext_head, setPrev_head, setSleepingIf_head, bypass_head]
    rw [h.head, Function.update_of_ne (by simp)]
  · simp only [setNext_tail, setPrev_tail, setSleepingIf_tail, bypass_tail]
    rw [h.tail, Function.update_of_ne (by simp)]
  · simp only [setNext_gSleepingList, setPrev_gSleepingList, setSleepingIf_gSleepingList,
      bypass_gSleepingList]
    rw [h.sleeping, hnext, Function.update_self, hhead]

/-- `add_to_sleeping_list` puts a process between two neighbours of the sleeping list. -/
theorem linkSleeper (h : k.Represents L) {p : PcbPtr} (hp : ∀ i, p ∉ L i) {a b : List PcbPtr}
    (hL : L .sleeping = a ++ b) : (k.linkSleeper p a.getLast? b.head?).Represents
      (Function.update L .sleeping (a ++ p :: b)) := by
  have hf := h.family.insert (i := .sleeping) hp hL
  have hpb : b.head? ≠ some p := fun hpb =>
    hp .sleeping (by rw [hL]; simp [List.mem_of_mem_head? hpb])
  refine ⟨?_, fun r => ?_, fun r => ?_, ?_⟩
  · rw [linkSleeper_next, linkSleeper_prev, setAt_update_comm hpb]
    exact hf
  · rw [linkSleeper_head, h.head, Function.update_of_ne (by simp)]
  · rw [linkSleeper_tail, h.tail, Function.update_of_ne (by simp)]
  · rw [linkSleeper_gSleepingList, Function.update_self, h.sleeping, hL]
    cases a with
    | nil => simp
    | cons x a => simp [List.getLast?_cons]

/-- Clearing the links of a process that is in no list and has nobody in its queues. -/
theorem clearLinks (h : k.Represents L) {p : PcbPtr} (hp : ∀ i, p ∉ L i)
    (hq : ∀ q, L (.queue (.blocking p q)) = []) :
    (k.setPcb p fun _ => PcbLinks.zero).Represents L := by
  refine ⟨h.family.congr (fun i x hx => ?_) (fun i x hx => ?_), fun r => ?_, fun r => ?_,
    h.sleeping⟩
  · have hxp : x ≠ p := ne_of_mem_of_not_mem hx (hp i)
    simp [setPcb, next, hxp]
  · have hxp : x ≠ p := ne_of_mem_of_not_mem hx (hp i)
    simp [setPcb, prev, hxp]
  · cases r with
    | proc st => exact h.head (.proc st)
    | blocking o b =>
      by_cases ho : o = p
      · subst ho
        simp [setPcb, Links.head, PcbLinks.zero, hq]
      · rw [← h.head]
        simp [setPcb, Links.head, ho]
  · cases r with
    | proc st => exact h.tail (.proc st)
    | blocking o b =>
      by_cases ho : o = p
      · subst ho
        simp [setPcb, Links.tail, PcbLinks.zero, hq]
      · rw [← h.tail]
        simp [setPcb, Links.tail, ho]

theorem initProcQueues (h : k.Represents L) (hq : ∀ st, L (.queue (.proc st)) = []) :
    (ProcLists.initProcQueues k).Represents L := by
  refine ⟨h.family, fun r => ?_, fun r => ?_, h.sleeping⟩
  · cases r with
    | proc st =>
      rw [hq]
      rfl
    | blocking o b => exact h.head (.blocking o b)
  · cases r with
    | proc st =>
      rw [hq]
      rfl
    | blocking o b => exact h.tail (.blocking o b)

/-- The position of a node is the number of nodes before it. -/
theorem idxOf_eq {l a b : List PcbPtr} {p : PcbPtr} (hl : l = a ++ p :: b) (hnd : l.Nodup) :
    l.idxOf p = a.length := by
  subst hl
  have hpa : p ∉ a := fun hpa => (List.nodup_append.mp hnd).2.2 p hpa p (by simp) rfl
  rw [List.idxOf_append_of_notMem hpa]
  simp

/-- The loop of `verify_pcb_queues` gets from any node but the first to the last one. -/
theorem verify_loop (h : k.Represents L) {state : PcbPtr → ProcState} {st : ProcState}
    (hst : ∀ p ∈ L (.queue (.proc st)), state p = st) {a b : List PcbPtr} {curr : PcbPtr}
    (hcurr : L (.queue (.proc st)) = a ++ curr :: b) (hab : a = [] → b = []) :
    ∃ last, loop (k.verifyRound state st) loopBound curr = some last ∧
      ∃ c, L (.queue (.proc st)) = c ++ [last] := by
  have hnd := h.family.nodup (.queue (.proc st))
  have hlen := length_le_of_nodup hnd
  refine loop_total (I := fun x => ∃ a b, L (.queue (.proc st)) = a ++ x :: b ∧ (a = [] → b = []))
    (fun x => 33 - (L (.queue (.proc st))).idxOf x) ?_ ⟨a, b, hcurr, hab⟩ (by
      unfold loopBound
      omega)
  rintro x ⟨a, b, hx, hab⟩
  unfold Links.verifyRound
  cases b with
  | nil =>
    refine .inr ⟨x, ?_, a, hx⟩
    rw [h.family.next_eq hx]
    rfl
  | cons n b =>
    have hxn : k.next x = some n := h.family.next_eq hx
    have hx' : L (.queue (.proc st)) = (a ++ [x]) ++ n :: b := by simpa using hx
    have hnx : k.prev n = some x := by
      rw [h.family.prev_eq hx']
      simp
    obtain ⟨a', p, rfl⟩ : ∃ a' p, a = a' ++ [p] := by
      obtain rfl | ⟨a', p, ha⟩ := a.eq_nil_or_concat
      · simpa using hab rfl
      · exact ⟨a', p, by simpa using ha⟩
    have hxp : k.prev x = some p := by simpa using h.family.prev_eq hx
    have hpx : k.next p = some x := by
      rw [h.family.next_eq (a := a') (b := x :: n :: b) (by simpa using hx)]
      rfl
    refine .inl ⟨n, ?_, ⟨_, b, hx', by simp⟩, ?_⟩
    · simp [hxn, hnx, hxp, hpx, cAssert_pos, hst x (by simp [hx])]
    · have h1 := idxOf_eq hx hnd
      have h2 := idxOf_eq hx' hnd
      have hlen' := congrArg List.length hx
      simp only [List.length_append, List.length_cons, List.length_nil] at h1 h2 hlen'
      omega

/-- The checks after the loop of `verify_pcb_queues`. -/
theorem verify_last (h : k.Represents L) {state : PcbPtr → ProcState} {st : ProcState}
    (hst : ∀ p ∈ L (.queue (.proc st)), state p = st) {c : List PcbPtr} {last : PcbPtr}
    (hlast : L (.queue (.proc st)) = c ++ [last]) :
    (do
      match k.prev last with
      | none => some ()
      | some p => cAssert (k.next p = some last)
      cAssert (state last = st)
      cAssert (k.next last = none)) = some () := by
  have hmem : last ∈ L (.queue (.proc st)) := by simp [hlast]
  have hnext : k.next last = none := by simpa using h.family.next_eq (b := []) hlast
  cases hp : k.prev last with
  | none => simp [hnext, hst last hmem, cAssert_pos]
  | some p =>
    have hpl : k.next p = some last :=
      (h.family.next_eq_some_iff (h.family.prev_mem hmem hp) hmem).mpr hp
    simp [hnext, hst last hmem, cAssert_pos, hpl]

/-- The checks of `verify_pcb_queues` all succeed on a queue whose members have its state. -/
theorem verifyQueue (h : k.Represents L) {state : PcbPtr → ProcState} {st : ProcState}
    (hst : ∀ p ∈ L (.queue (.proc st)), state p = st) : k.verifyQueue state st = some () := by
  have hhead : k.gProcQueueHeads st = (L (.queue (.proc st))).head? := h.head (.proc st)
  unfold Links.verifyQueue
  cases hL : L (.queue (.proc st)) with
  | nil => simp [hhead, hL]
  | cons first rest =>
    have hfirst : k.prev first = none := h.family.prev_eq (a := []) hL
    have hnext : k.next first = rest.head? := h.family.next_eq (a := []) hL
    have hstate : state first = st := hst first (by simp [hL])
    rw [hhead, hL]
    cases rest with
    | nil =>
      obtain ⟨last, hrun, c, hlast⟩ := h.verify_loop hst (a := []) hL fun _ => rfl
      simp only [List.head?_cons, hfirst, hstate, cAssert_pos, hnext, List.head?_nil, hrun,
        Option.bind_eq_bind, Option.bind_some]
      exact h.verify_last hst hlast
    | cons n rest =>
      have hL' : L (.queue (.proc st)) = [first] ++ n :: rest := hL
      have hprev : k.prev n = some first := h.family.prev_eq hL'
      obtain ⟨last, hrun, c, hlast⟩ := h.verify_loop hst hL' (by simp)
      simp only [List.head?_cons, hfirst, hstate, cAssert_pos, hnext, hprev, hrun,
        Option.bind_eq_bind, Option.bind_some, Option.map_some]
      exact h.verify_last hst hlast

end Represents

/-- The pointers of the C code obey the laws of process lists. -/
instance : LawfulProcLists Links where
  lists := lists
  WellFormed := WellFormed
  empty := ⟨Represents.empty.wellFormed.1, fun i => by rw [Represents.empty.lists_eq]⟩
  head h q := h.head q
  gSleepingList h := h.sleeping
  nextProc h _ _ _ hl := h.family.next_eq hl
  length_le h i := length_le_of_nodup (h.family.nodup i)
  addProcToQueue h _ hp q := by
    obtain ⟨k', hk, hr⟩ := Represents.addProcToQueue h hp q
    exact ⟨k', hk, hr.wellFormed⟩
  removeProcFromQueue h _ _ hp := (Represents.removeProcFromQueue h hp).wellFormed
  linkSleeper h _ hp _ _ hl := (Represents.linkSleeper h hp hl).wellFormed
  unlinkSleeper h _ hp := (Represents.unlinkSleeper h hp).wellFormed
  clearLinks h _ hp hq := (Represents.clearLinks h hp hq).wellFormed
  initProcQueues h hq := (Represents.initProcQueues h hq).wellFormed
  verifyPcbQueues h _ hr hs := by
    show (Links.verifyPcbQueues _ _) = some ()
    unfold Links.verifyPcbQueues
    rw [Represents.verifyQueue h hr]
    exact Represents.verifyQueue h hs

end Xeros.Model.Links
