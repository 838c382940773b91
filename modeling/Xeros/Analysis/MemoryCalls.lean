import Xeros.Analysis.UserPointers
import Xeros.Foundations.Execution
import Xeros.Refinement.Allocator

/-!
# Runs of the memory manager

The kernel and the processes call `kmalloc` and `kfree`, and write to the blocks they hold.  A `Use`
is any sequence of such steps after `kmeminit`: sizes are arbitrary words, and what is freed is a
block that is held, or null.  The free list is then always the list of the maximal intervals that
the blocks handed out leave of the two regions, and `kmalloc` takes the first that is large enough.
-/

set_option autoImplicit false

namespace Xeros.Analysis

open Xeros.Foundations Xeros.Model Xeros.Refinement

/-- A use that is made of the memory manager: a call, or a byte written to a block. -/
inductive MemoryCall where
  | kmalloc (size : ℕ)
  | kfree (ptr : ℕ)
  | store (a : ℕ) (v : UInt8)

/-- The memory, and the blocks that have been handed out: the header and the rounded payload. -/
structure Clients where
  heap : Heap
  live : List Block

namespace Clients

/-- What a call does; `none` stands for a failed assertion. -/
def step (s : Clients) : MemoryCall → Option Clients
  | .kmalloc size => (s.heap.kmalloc size).map fun r =>
      ⟨r.2, if r.1 = 0 then s.live else ⟨r.1 - 16, paragraphs size + 16⟩ :: s.live⟩
  | .kfree ptr => (s.heap.kfree ptr).map fun h =>
      ⟨h, s.live.eraseP fun l => l.addr + 16 = ptr⟩
  | .store a v => some ⟨{ s.heap with mem := store8 s.heap.mem a v }, s.live⟩

theorem step_kmalloc (s : Clients) (size : ℕ) : s.step (.kmalloc size) =
    (s.heap.kmalloc size).map fun r =>
      ⟨r.2, if r.1 = 0 then s.live else ⟨r.1 - 16, paragraphs size + 16⟩ :: s.live⟩ := rfl

theorem step_kfree (s : Clients) (ptr : ℕ) : s.step (.kfree ptr) =
    (s.heap.kfree ptr).map fun h => ⟨h, s.live.eraseP fun l => l.addr + 16 = ptr⟩ := rfl

/-- A size is a word, and only blocks that are held are freed or written. -/
def Allowed (s : Clients) : MemoryCall → Prop
  | .kmalloc size => size < 4294967296
  | .kfree ptr => ptr = 0 ∨ ∃ l ∈ s.live, l.addr + 16 = ptr
  | .store a _ => ∃ l ∈ s.live, l.addr + 16 ≤ a ∧ a < l.limit

instance (s : Clients) (c : MemoryCall) : Decidable (s.Allowed c) :=
  match c with
  | .kmalloc _ => Nat.decLt _ _
  | .kfree ptr => inferInstanceAs (Decidable (ptr = 0 ∨ ∃ l ∈ s.live, l.addr + 16 = ptr))
  | .store a _ => inferInstanceAs (Decidable (∃ l ∈ s.live, l.addr + 16 ≤ a ∧ a < l.limit))

end Clients

/-- A sequence of calls after `kmeminit`, on a machine with `maxaddr` as `setsegs` sets it and a
program that ends below the hole. -/
structure Use extends Execution Clients.step Clients.Allowed where
  initial : Heap
  maxaddr : initial.image.maxaddr = 4194303
  freemem : initial.image.freemem < 4294967296
  room : roundToParagraph initial.image.freemem + 16 ≤ holeStart
  start : initial.kmeminit = some (state 0).heap
  unused : (state 0).live = []

/-! ## What a call does -/

/-- What a call does to the free list `F` and its headers. -/
inductive Change (s : Clients) (F : List Block) (c : MemoryCall) (s' : Clients) :
    List Block → Prop where
  | same (hlive : s'.live = s.live)
      (hfree : ∀ l ∈ s.live, c ≠ .kfree (l.addr + 16))
      (hfull : ∀ size, c = .kmalloc size → size = 0 ∨ s.heap.image.maxaddr ≤ size ∨
        ∀ f ∈ F, f.size < paragraphs size + 16)
      (hsanity : ∀ f ∈ F, s'.heap.sanityCheck f.addr = s.heap.sanityCheck f.addr) :
      Change s F c s' F
  | taken (size : ℕ) (A : List Block) (b : Block) (B : List Block) (hc : c = .kmalloc size)
      (hF : F = A ++ b :: B) (hn0 : size ≠ 0) (hn : size < s.heap.image.maxaddr)
      (hA : ∀ a ∈ A, a.size < paragraphs size + 16) (hb : paragraphs size + 16 ≤ b.size)
      (hlive : s'.live = ⟨b.addr, paragraphs size + 16⟩ :: s.live)
      (hrest : ∀ f ∈ restOf b (paragraphs size + 16), s'.heap.sanityCheck f.addr = 0)
      (hsanity : ∀ f ∈ A ++ B, s'.heap.sanityCheck f.addr = s.heap.sanityCheck f.addr) :
      Change s F c s' (A ++ restOf b (paragraphs size + 16) ++ B)
  | freed (l : Block) (A B : List Block) (hc : c = .kfree (l.addr + 16)) (hl : l ∈ s.live)
      (hF : F = A ++ B) (hlive : s'.live = s.live.erase l)
      (hA : ∀ f ∈ A, f.limit ≤ l.addr) (hB : ∀ f ∈ B, l.limit ≤ f.addr)
      (hsanity : ∀ a, Slot a → s'.heap.sanityCheck a = s.heap.sanityCheck a) :
      Change s F c s' (insertBetween A l B)

section Steps

variable {s : Clients} {F : List Block} {c : MemoryCall}

/-- Taking a live block out by its address takes out that block. -/
theorem eraseP_eq_erase {L : List Block} {l : Block} (hl : l ∈ L)
    (hinj : ∀ c ∈ L, c.addr = l.addr → c = l) :
    L.eraseP (fun c => c.addr + 16 = l.addr + 16) = L.erase l := by
  induction L with
  | nil => rfl
  | cons d L ih =>
    by_cases hd : d = l
    · rw [hd, List.erase_cons_head, List.eraseP_cons_of_pos (by simp)]
    · have hne : d.addr + 16 ≠ l.addr + 16 := fun heq =>
        hd (hinj d List.mem_cons_self (Nat.add_right_cancel heq))
      rw [List.erase_cons_tail (by simpa using hd), List.eraseP_cons_of_neg (by simpa using hne),
        ih ((List.mem_cons.mp hl).resolve_left (Ne.symm hd))
          fun c hc => hinj c (List.mem_cons_of_mem d hc)]

/-- Live blocks at one address are one block. -/
theorem live_injective {h : Heap} {L : List Block} (hM : Managed h F L) {l d : Block} (hl : l ∈ L)
    (hd : d ∈ L) (haddr : d.addr = l.addr) : d = l := by
  obtain ⟨a, m⟩ := d
  obtain ⟨b, n⟩ := l
  have h1 := (hM.headers _ hd).2.1
  have h2 := (hM.headers _ hl).2.1
  dsimp only at haddr h1 h2
  rw [← h1, ← h2, haddr]

/-- Every call that is allowed succeeds and keeps the invariant. -/
theorem step_change (hM : Managed s.heap F s.live) (hc : s.Allowed c) :
    ∃ s' F', s.step c = some s' ∧ s'.heap.image = s.heap.image ∧
      Managed s'.heap F' s'.live ∧ Change s F c s' F' := by
  cases c with
  | kmalloc size =>
    by_cases hnull : size = 0 ∨ s.heap.image.maxaddr ≤ size ∨
        ∀ f ∈ F, f.size < paragraphs size + 16
    · have hrun := hM.kmalloc_null hnull
      refine ⟨s, F, ?_, rfl, hM, .same rfl ?_ ?_ fun _ _ => rfl⟩
      · rw [Clients.step_kmalloc, hrun, Option.map_some, if_pos rfl]
      · simp
      · intro n hn
        cases hn
        exact hnull
    · rw [not_or, not_or] at hnull
      obtain ⟨hn0, hn, hfits⟩ := hnull
      obtain ⟨A, b, B, rfl, hA, hb⟩ := (firstFit F (paragraphs size + 16)).resolve_left hfits
      obtain ⟨h', hrun, himage, hM', hrest, hkept⟩ := hM.kmalloc_take hn0 (by omega) hA hb
      refine ⟨⟨h', ⟨b.addr, paragraphs size + 16⟩ :: s.live⟩, _, ?_, himage, hM',
        .taken size A b B rfl rfl hn0 (by omega) hA hb rfl hrest hkept⟩
      rw [Clients.step_kmalloc, hrun, Option.map_some, if_neg (Nat.succ_ne_zero _),
        Nat.add_sub_cancel]
  | kfree ptr =>
    rcases hc with rfl | ⟨l, hl, rfl⟩
    · have herase : s.live.eraseP (fun l => l.addr + 16 = 0) = s.live := by
        apply List.eraseP_of_forall_not
        simp
      refine ⟨s, F, ?_, rfl, hM, .same rfl ?_ ?_ fun _ _ => rfl⟩
      · have hnull : s.heap.kfree 0 = some s.heap := if_pos rfl
        rw [Clients.step_kfree, hnull, Option.map_some, herase]
      · intro l _ heq
        cases heq
      · intro size heq
        cases heq
    · obtain ⟨A, B, h', rfl, hA, hB, hrun, himage, hM', hkept⟩ := hM.kfree hl
      refine ⟨⟨h', s.live.erase l⟩, _, ?_, himage, hM', .freed l A B rfl hl rfl rfl hA hB hkept⟩
      rw [Clients.step_kfree, hrun, Option.map_some,
        eraseP_eq_erase hl fun d hd => live_injective hM hl hd]
  | store a v =>
    obtain ⟨l, hl, hlo, hhi⟩ := hc
    obtain ⟨hM', hkept⟩ := hM.write hl v hlo hhi
    refine ⟨_, F, rfl, rfl, hM', .same rfl ?_ ?_ hkept⟩
    · intro l _ heq
      cases heq
    · intro size heq
      cases heq

end Steps

/-! ## Runs -/

namespace Use

variable (r : Use) {n : ℕ}

/-- After `kmeminit` the two regions are free. -/
theorem managed_start : (r.state 0).heap.image = r.initial.image ∧
    Managed (r.state 0).heap (initialBlocks r.initial) (r.state 0).live ∧
    ∀ f ∈ initialBlocks r.initial, (r.state 0).heap.sanityCheck f.addr = 0 := by
  have himage := memoryImage_of_kmeminit r.maxaddr r.freemem r.room r.start
  obtain ⟨h', hinit, hkeep, hM, hsanity⟩ := kmeminit_managed himage
  rw [r.start] at hinit
  obtain rfl := Option.some.inj hinit
  rw [r.unused]
  exact ⟨hkeep, hM, hsanity⟩

/-- The invariant holds in every state of a run. -/
theorem managed (hn : n ≤ r.len) : (r.state n).heap.image = r.initial.image ∧
    ∃ F, Managed (r.state n).heap F (r.state n).live := by
  apply r.invariant (I := fun k => (r.state k).heap.image = r.initial.image ∧
    ∃ F, Managed (r.state k).heap F (r.state k).live) (Nat.zero_le n) hn
  · obtain ⟨himage, hM, -⟩ := r.managed_start
    exact ⟨himage, _, hM⟩
  · rintro k - - hallowed hstep ⟨himage, F, hM⟩
    obtain ⟨s', F', hstep', himage', hM', -⟩ := step_change hM hallowed
    rw [hstep] at hstep'
    obtain rfl := Option.some.inj hstep'
    exact ⟨himage'.trans himage, F', hM'⟩

end Use

/-! ## The free list -/

/-- The free list is made of the maximal intervals that the live blocks leave, in order. -/
structure Canonical (h : Heap) (L F : List Block) : Prop where
  list : FreeList h F
  ordered : F.Pairwise fun a b => a.addr < b.addr
  maximal : ∀ b, b ∈ F ↔ b.Maximal fun x => InRegions h x ∧ ¬ Covers L x

section FreeLists

variable {h h' : Heap} {F F' L L' : List Block}

/-- A free address is one of a region and of no live block. -/
theorem free_iff (hM : Managed h F L) (x : ℕ) : InRegions h x ∧ ¬ Covers L x ↔ Covers F x := by
  rw [hM.tiles x]
  constructor
  · rintro ⟨hfree | hlive, hno⟩
    · exact hfree
    · exact absurd hlive hno
  · rintro ⟨f, hf, hfx⟩
    refine ⟨.inl ⟨f, hf, hfx⟩, ?_⟩
    rintro ⟨l, hl, hlx⟩
    exact hM.free l hl f hf x hlx hfx

theorem managed_canonical (hM : Managed h F L) : Canonical h L F := by
  refine ⟨hM.list, ?_, fun b => hM.separated.mem_iff_maximal (free_iff hM)⟩
  apply hM.separated.gap.imp
  intro a b hab
  unfold Block.limit at hab
  omega

/-- The live blocks determine the free list. -/
theorem managed_unique (hM : Managed h F L) (hM' : Managed h' F' L') (himage : h'.image = h.image)
    (hlive : ∀ b, b ∈ L' ↔ b ∈ L) : F' = F := by
  apply hM'.separated.unique hM.separated
  intro x
  have hcovers : Covers L' x ↔ Covers L x := by
    unfold Covers
    simp only [hlive]
  have hregions : InRegions h' x ↔ InRegions h x := by
    unfold InRegions memstart
    rw [himage]
  rw [← free_iff hM', ← free_iff hM, hcovers, hregions]

/-- Allocating and freeing again leaves the free list as it was. -/
theorem managed_roundTrip (hM : Managed h F L) (size : ℕ) : ∃ p h1 h2,
    h.kmalloc size = some (p, h1) ∧ h1.kfree p = some h2 ∧ FreeList h2 F := by
  by_cases hnull : size = 0 ∨ h.image.maxaddr ≤ size ∨ ∀ f ∈ F, f.size < paragraphs size + 16
  · exact ⟨0, h, h, hM.kmalloc_null hnull, if_pos rfl, hM.list⟩
  · rw [not_or, not_or] at hnull
    obtain ⟨hn0, hn, hfits⟩ := hnull
    obtain ⟨A, b, B, rfl, hA, hb⟩ := (firstFit F (paragraphs size + 16)).resolve_left hfits
    obtain ⟨h1, hrun, himage, hM1, -⟩ := hM.kmalloc_take hn0 (by omega) hA hb
    obtain ⟨A', B', h2, -, -, -, hfree, himage2, hM2, -⟩ := hM1.kfree List.mem_cons_self
    rw [List.erase_cons_head] at hM2
    have heq := managed_unique hM hM2 (himage2.trans himage) fun _ => Iff.rfl
    exact ⟨b.addr + 16, h1, h2, hrun, hfree, heq ▸ hM2.list⟩

end FreeLists

/-- Make the calls on the machine of the examples, and test the states on the way. -/
def performCalls (calls : List MemoryCall) (test : ℕ → Clients → Bool) : Bool :=
  match smallHeap.kmeminit with
  | none => false
  | some h => checkRun Clients.step Clients.Allowed test 0 ⟨h, []⟩ (calls.map fun c _ => c)

/-- Calls that can be made are a run, which passes the tests. -/
theorem exists_use (calls : List MemoryCall) (test : ℕ → Clients → Bool)
    (h : performCalls calls test = true) : ∃ r : Use, r.len = calls.length ∧
      r.initial = smallHeap ∧ (∀ n c, calls[n]? = some c → r.input n = c) ∧
      ∀ n ≤ calls.length, test n (r.state n) = true := by
  unfold performCalls at h
  cases hinit : smallHeap.kmeminit with
  | none =>
    rw [hinit] at h
    cases h
  | some h0 =>
    rw [hinit] at h
    obtain ⟨e, he0, hlen, hin, htest⟩ := exists_execution (.kmalloc 0) h
    rw [List.length_map] at hlen htest
    refine ⟨⟨e, smallHeap, rfl, by decide, by decide, ?_, ?_⟩, hlen, rfl, ?_, ?_⟩
    · rw [he0]
      exact hinit
    · rw [he0]
    · intro n c hc
      refine hin n (fun _ => c) ?_
      rw [List.getElem?_map, hc]
      rfl
    · intro n hn
      have ht := htest n hn
      rwa [Nat.zero_add] at ht

/-- Every call succeeds, and the free list consists of the maximal intervals of the two regions that
the live blocks leave.  It depends on the set of live blocks only: when everything is freed it is
the initial one, and `kfree` undoes `kmalloc`. -/
theorem freeList_canonical (r : Use) {n : ℕ} (hn : n ≤ r.len) :
    ∃ F, Canonical (r.state n).heap (r.state n).live F ∧
      (r.state n).live.Pairwise Block.Disjoint ∧
      (∀ l ∈ (r.state n).live, (r.state n).heap.size l.addr = l.size ∧
        ∀ x, l.Has x → InRegions (r.state n).heap x) ∧
      (∀ c, (r.state n).Allowed c → ∃ s, (r.state n).step c = some s) ∧
      (∀ (r' : Use) (m : ℕ), m ≤ r'.len → r'.initial.image = r.initial.image →
        (∀ b, b ∈ (r'.state m).live ↔ b ∈ (r.state n).live) → FreeList (r'.state m).heap F) ∧
      ((r.state n).live = [] → F = initialBlocks r.initial) ∧
      ∀ size, ∃ p h1 h2, (r.state n).heap.kmalloc size = some (p, h1) ∧ h1.kfree p = some h2 ∧
        FreeList h2 F := by
  obtain ⟨himage, F, hM⟩ := r.managed hn
  refine ⟨F, managed_canonical hM, hM.apart, ?_, ?_, ?_, ?_, managed_roundTrip hM⟩
  · intro l hl
    exact ⟨(hM.headers l hl).2.1, fun x hx => (hM.tiles x).mpr (.inr ⟨l, hl, hx⟩)⟩
  · intro c hc
    obtain ⟨s', F', hstep, -⟩ := step_change hM hc
    exact ⟨s', hstep⟩
  · intro r' m hm hsame hlive
    obtain ⟨himage', F', hM'⟩ := r'.managed hm
    have heq := managed_unique hM hM' (by rw [himage', himage, hsame]) hlive
    exact heq ▸ hM'.list
  · intro hempty
    obtain ⟨himage0, hM0, -⟩ := r.managed_start
    apply managed_unique hM0 hM (himage.trans himage0.symm)
    rw [hempty, r.unused]
    exact fun _ => Iff.rfl

/-- A block freed below another one. -/
theorem freeList_canonical_hole : ∃ (r : Use) (F : List Block),
    Canonical (r.state 3).heap (r.state 3).live F ∧ F.length = 3 := by
  obtain ⟨r, hlen, -, -, htest⟩ := exists_use [.kmalloc 1, .kmalloc 2, .kfree 131088]
    (fun n s => decide (n = 3 → s.heap.kmemGetFreeListLength = some 3)) (by decide +kernel)
  obtain ⟨F, hF, -⟩ := freeList_canonical r (n := 3) (by rw [hlen]; rfl)
  have hcount := of_decide_eq_true (htest 3 le_rfl) rfl
  rw [kmemGetFreeListLength_eq hF.list] at hcount
  exact ⟨r, F, hF, Option.some.inj hcount⟩

/-! ## First fit -/

/-- `kmalloc` answers null exactly when the size is zero, not below `maxaddr` or too large for every
free block, and then changes nothing.  Otherwise it takes the beginning of the lowest free block
that is large enough, and no sum of words overflows. -/
theorem kmalloc_firstFit (r : Use) {n : ℕ} (hn : n ≤ r.len) (size : ℕ) :
    ∃ F p h', FreeList (r.state n).heap F ∧ (r.state n).heap.kmalloc size = some (p, h') ∧
      (p = 0 ↔ size = 0 ∨ (r.state n).heap.image.maxaddr ≤ size ∨
        ∀ f ∈ F, f.size < paragraphs size + 16) ∧
      (p = 0 → h' = (r.state n).heap) ∧
      (p ≠ 0 → ∃ A b B, F = A ++ b :: B ∧ paragraphs size + 16 ≤ b.size ∧
        (∀ f ∈ F, paragraphs size + 16 ≤ f.size → b.addr ≤ f.addr) ∧
        p = b.addr + 16 ∧ p % 16 = 0 ∧ h'.size b.addr = paragraphs size + 16 ∧
        FreeList h' (A ++ restOf b (paragraphs size + 16) ++ B) ∧
        size + 16 < 4294967296 ∧ paragraphs size + 16 < 4294967296 ∧
        b.addr + 16 < 4294967296 ∧ b.addr + b.size < 4294967296) := by
  obtain ⟨himage, F, hM⟩ := r.managed hn
  have hmax := hM.image.maxaddr
  by_cases hnull : size = 0 ∨ (r.state n).heap.image.maxaddr ≤ size ∨
      ∀ f ∈ F, f.size < paragraphs size + 16
  · refine ⟨F, 0, _, hM.list, hM.kmalloc_null hnull, ⟨fun _ => hnull, fun _ => rfl⟩, fun _ => rfl,
      fun hne => absurd rfl hne⟩
  · have hgoes := hnull
    rw [not_or, not_or] at hgoes
    obtain ⟨hn0, hlt, hfits⟩ := hgoes
    obtain ⟨A, b, B, rfl, hA, hb⟩ := (firstFit F (paragraphs size + 16)).resolve_left hfits
    obtain ⟨h', hrun, -, hM', -⟩ := hM.kmalloc_take hn0 (by omega) hA hb
    have hbF : b ∈ A ++ b :: B := by simp
    have hlim := hM.free_limit hbF
    have hslot := (hM.list.slots b hbF).aligned
    have hfirst : ∀ f ∈ A ++ b :: B, paragraphs size + 16 ≤ f.size → b.addr ≤ f.addr := by
      intro f hf hlarge
      rcases List.mem_append.mp hf with hf | hf
      · have hsmall := hA f hf
        omega
      · rcases List.mem_cons.mp hf with rfl | hf
        · exact le_rfl
        · obtain ⟨-, hbB, -⟩ := separated_append.mp hM.separated
          have hgap := (separated_cons.mp hbB).2.1 f hf
          unfold Block.limit at hgap
          omega
    unfold Block.limit at hlim
    refine ⟨_, b.addr + 16, h', hM.list, hrun, ⟨fun h0 => absurd h0 (by omega), fun h0 =>
      absurd h0 hnull⟩, fun h0 => absurd h0 (by omega), fun _ => ⟨A, b, B, rfl, hb, hfirst, rfl,
      by omega, (hM'.headers _ List.mem_cons_self).2.1, hM'.list, ?_, ?_, ?_, ?_⟩⟩
    all_goals omega

/-- The block after the first one handed out. -/
theorem kmalloc_firstFit_second : ∃ (r : Use) (F A B : List Block) (b : Block) (h' : Heap),
    FreeList (r.state 1).heap F ∧ F = A ++ b :: B ∧
      (r.state 1).heap.kmalloc 100 = some (131120, h') ∧ b.addr = 131104 ∧
      h'.size b.addr = 128 := by
  obtain ⟨r, hlen, -, -, htest⟩ := exists_use [.kmalloc 16] (fun n s =>
    decide (n = 1 → (s.heap.kmalloc 100).map Prod.fst = some 131120)) (by decide +kernel)
  obtain ⟨F, p, h', hF, hrun, -, -, htakes⟩ := kmalloc_firstFit r (n := 1) (by rw [hlen]; rfl) 100
  have hp := of_decide_eq_true (htest 1 le_rfl) rfl
  rw [hrun] at hp
  obtain rfl : p = 131120 := Option.some.inj hp
  obtain ⟨A, b, B, hsplit, -, -, hb, -, hsize, -⟩ := htakes (by decide)
  exact ⟨r, F, A, B, b, h', hF, hsplit, hrun, by omega, hsize⟩

end Xeros.Analysis
