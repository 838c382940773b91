import Xeros.Foundations.Holdings
import Xeros.Refinement.Allocator
import Xeros.Refinement.ProcessData

/-!
# The heap's accounts

Every block that is not free belongs to somebody: boot allocated the state of the two keyboard
devices and the idle process's stack, and each process that has not stopped has a stack and a signal
table.  `liveBlocks` reads these blocks off the kernel's tables; the heap is accounted for when they
and the free list fill the two memory regions.
-/

set_option autoImplicit false

namespace Xeros.Refinement

open Xeros.Foundations Xeros.Model

section Memory

variable {h h' : Heap} {F F' L L' : List Block} {b c l : Block} {a n p : ℕ}

/-- The order of the live blocks does not matter. -/
theorem Managed.perm (hM : Managed h F L) (hp : L'.Perm L) : Managed h F L' where
  image := hM.image
  list := hM.list
  separated := hM.separated
  limits := hM.limits
  headers := fun l hl => hM.headers l (hp.mem_iff.mp hl)
  sizes := fun l hl => hM.sizes l (hp.mem_iff.mp hl)
  apart := (hp.pairwise_iff fun hbc => Block.Disjoint.symm hbc).mpr hM.apart
  free := fun l hl => hM.free l (hp.mem_iff.mp hl)
  tiles := by
    intro x
    rw [hM.tiles x]
    unfold Covers
    simp only [hp.mem_iff]

/-! ## What may be written -/

/-- The byte at `a` is outside the two regions, or in the data of a live block.  Below `memstart`
lies the kernel itself: its code and its variables are no part of `mem`, so a run in which this
holds of every byte written is still one in which nobody stores into the kernel's variables. -/
def Writable (h : Heap) (L : List Block) (a : ℕ) : Prop :=
  a < memstart h ∨ (holeStart ≤ a ∧ a < holeEnd) ∨ h.image.maxaddr < a ∨
    ∃ l ∈ L, l.addr + 16 ≤ a ∧ a < l.limit

theorem Managed.addr_inRegions (hM : Managed h F L) (hc : c ∈ F ∨ c ∈ L) :
    InRegions h c.addr ∧ c.addr % 16 = 0 := by
  have hhas : 0 < c.size → c.Has c.addr := by
    intro hpos
    unfold Block.Has Block.limit
    omega
  rcases hc with hc | hc
  · have hpos := hM.separated.pos c hc
    exact ⟨(hM.tiles _).mpr (.inl ⟨c, hc, hhas hpos⟩), (hM.list.slots c hc).aligned⟩
  · have hmin := (hM.sizes c hc).2
    exact ⟨(hM.tiles _).mpr (.inr ⟨c, hc, hhas (by omega)⟩), (hM.headers c hc).1.aligned⟩

/-- No header has such a byte. -/
theorem Managed.writable_out (hM : Managed h F L) (ha : Writable h L a) (hc : c ∈ F ∨ c ∈ L) :
    a < c.addr ∨ c.addr + 16 ≤ a := by
  obtain ⟨hin, h16⟩ := hM.addr_inRegions hc
  have hmax := hM.image.maxaddr
  have hroom := hM.image.room
  have hlow : holeStart = 655360 := rfl
  have hhigh : holeEnd = 1662976 := rfl
  have hstart : memstart h ≤ holeStart := by
    unfold memstart
    rw [roundToParagraph_eq (by omega)]
    unfold paragraphs
    omega
  unfold InRegions at hin
  rcases ha with ha | ha | ha | ⟨l, hl, hlo, hhi⟩
  · omega
  · omega
  · omega
  · exact hM.data_out hl hlo hhi hc

theorem headerAt_congr {m : Memory} (hm : ∀ i < 16, load8 m (a + i) = load8 h.mem (a + i)) :
    headerAt { h with mem := m } a = headerAt h a := by
  have hword : ∀ j ≤ 12, load32 m (a + j) = load32 h.mem (a + j) := by
    intro j hj
    apply load32_congr
    intro i hi
    rw [Nat.add_assoc]
    exact hm (j + i) (by omega)
  have h0 := hword 0 (by omega)
  rw [Nat.add_zero] at h0
  unfold headerAt Heap.size Heap.prev Heap.next Heap.sanityCheck
  dsimp only
  rw [h0, hword 4 (by omega), hword 8 (by omega), hword 12 (by omega)]

/-- Programs may change any bytes that may be written. -/
theorem Managed.rewrite (hM : Managed h F L) {m : Memory}
    (hm : ∀ a < 4294967296, load8 m a ≠ load8 h.mem a → Writable h L a) :
    Managed { h with mem := m } F L ∧
      ∀ c, c ∈ F ∨ c ∈ L → headerAt { h with mem := m } c.addr = headerAt h c.addr := by
  have hkept : ∀ c, c ∈ F ∨ c ∈ L →
      headerAt { h with mem := m } c.addr = headerAt h c.addr := by
    intro c hc
    have hfit : c.addr + 16 ≤ 4294967296 := by
      rcases hc with hc | hc
      · exact (hM.list.slots c hc).fits
      · exact (hM.headers c hc).1.fits
    apply headerAt_congr
    intro i hi
    by_contra hne
    have hout := hM.writable_out (hm _ (by omega) hne) hc
    omega
  refine ⟨⟨?_, ?_, hM.separated, hM.limits, ?_, hM.sizes, hM.apart, hM.free, hM.tiles⟩, hkept⟩
  · exact ⟨hM.image.maxaddr, hM.image.pos, hM.image.room⟩
  · refine ⟨hM.list.slots, hM.list.nodup, hM.list.head, ?_, ?_⟩
    · apply hM.list.seg.congr
      · intro x hx
        obtain ⟨f, hf, rfl⟩ := exists_of_mem_addrs hx
        exact congrArg (fun e => link (Header.next e)) (hkept f (.inl hf))
      · intro x hx
        obtain ⟨f, hf, rfl⟩ := exists_of_mem_addrs hx
        exact congrArg (fun e => link (Header.prev e)) (hkept f (.inl hf))
    · intro f hf
      exact (congrArg Header.size (hkept f (.inl hf))).trans (hM.list.sizes f hf)
  · intro c hc
    obtain ⟨hslot, hsize, hsanity⟩ := hM.headers c hc
    exact ⟨hslot, (congrArg Header.size (hkept c (.inr hc))).trans hsize,
      (congrArg Header.sanityCheck (hkept c (.inr hc))).trans hsanity⟩

/-! ## Blocks by the address of their data -/

/-- The block whose data start at `p`, of the size in its header. -/
def blockAt (h : Heap) (p : ℕ) : Block := ⟨p - 16, h.size (p - 16)⟩

theorem Managed.blockAt_data (hM : Managed h F L) (hl : l ∈ L) :
    blockAt h (l.addr + 16) = l := by
  unfold blockAt
  rw [Nat.add_sub_cancel, (hM.headers l hl).2.1]

theorem Managed.data_blockAt (hM : Managed h F L) (hl : blockAt h p ∈ L) :
    (blockAt h p).addr + 16 = p := by
  have hne := (hM.headers _ hl).1.ne_zero
  unfold blockAt at hne ⊢
  dsimp only at hne ⊢
  omega

/-- A block that stays live keeps its size. -/
theorem Managed.blockAt_eq (hM : Managed h F L) (hM' : Managed h' F' L') (hl : blockAt h p ∈ L)
    (hl' : blockAt h p ∈ L') : blockAt h' p = blockAt h p := by
  have hdata := hM'.blockAt_data hl'
  rwa [hM.data_blockAt hl] at hdata

/-- `kmalloc` finds nothing and changes nothing, or a block becomes live. -/
theorem Managed.kmalloc_total (hM : Managed h F L) (n : ℕ) :
    h.kmalloc n = some (0, h) ∨ ∃ l F' h', h.kmalloc n = some (l.addr + 16, h') ∧
      h'.image = h.image ∧ Managed h' F' (l :: L) ∧ n + 16 ≤ l.size := by
  have hpar : n ≤ paragraphs n := by
    unfold paragraphs
    omega
  by_cases hn0 : n = 0
  · exact .inl (hM.kmalloc_null (.inl hn0))
  by_cases hn : h.image.maxaddr ≤ n
  · exact .inl (hM.kmalloc_null (.inr (.inl hn)))
  rcases firstFit F (paragraphs n + 16) with hnone | ⟨A, b, B, rfl, hA, hb⟩
  · exact .inl (hM.kmalloc_null (.inr (.inr hnone)))
  · obtain ⟨h', hk, himage, hM', -, -⟩ := hM.kmalloc_take hn0 (by omega) hA hb
    exact .inr ⟨⟨b.addr, paragraphs n + 16⟩, _, h', hk, himage, hM', Nat.add_le_add_right hpar 16⟩

theorem Managed.kmalloc_cases (hM : Managed h F L) (hk : h.kmalloc n = some (p, h')) :
    p = 0 ∧ h' = h ∨ ∃ l F', p = l.addr + 16 ∧ h'.image = h.image ∧
      Managed h' F' (l :: L) ∧ n + 16 ≤ l.size := by
  rcases hM.kmalloc_total n with hnull | ⟨l, F', h1, hk1, himage, hM1, hsize⟩
  · rw [hk] at hnull
    exact .inl (Prod.mk.inj (Option.some.inj hnull))
  · rw [hk] at hk1
    obtain ⟨rfl, rfl⟩ := Prod.mk.inj (Option.some.inj hk1)
    exact .inr ⟨l, F', rfl, himage, hM1, hsize⟩

/-- A live block can be freed, and is not live after it. -/
theorem Managed.kfree_total (hM : Managed h F (l :: L)) :
    ∃ F' h', h.kfree (l.addr + 16) = some h' ∧ h'.image = h.image ∧ Managed h' F' L := by
  obtain ⟨A, B, h', -, -, -, hk, himage, hM', -⟩ := hM.kfree List.mem_cons_self
  rw [List.erase_cons_head] at hM'
  exact ⟨_, h', hk, himage, hM'⟩

theorem Managed.kfree_cases (hM : Managed h F (l :: L)) (hk : h.kfree (l.addr + 16) = some h') :
    h'.image = h.image ∧ ∃ F', Managed h' F' L := by
  obtain ⟨F', h1, hk1, himage, hM'⟩ := hM.kfree_total
  rw [hk] at hk1
  obtain rfl := Option.some.inj hk1
  exact ⟨himage, F', hM'⟩

end Memory

end Xeros.Refinement

namespace Xeros.Model

open Xeros.Foundations Xeros.Refinement KernelOf

/-! ## What `create` writes -/

/-- The stack of a new process is written inside its block. -/
theorem stackHeap_writes {h : Heap} {b func : ℕ} {size : ℤ} (h16 : 16 ≤ b) (hmin : 8192 ≤ size)
    (hb : b + size < 4294967296) {a : ℕ} (ha : a < 4294967296)
    (hne : load8 (stackHeap h b func size).mem a ≠ load8 h.mem a) : b ≤ a ∧ (a : ℤ) < b + size := by
  by_contra hout
  rw [not_and_or] at hout
  obtain ⟨n, rfl⟩ : ∃ n : ℕ, size = n := ⟨size.toNat, by omega⟩
  have hret : toWord (b + (n : ℤ) - 4) = b + n - 4 := by
    unfold toWord
    omega
  have hcf : subWord (b + n - 4) sizeofContextFrame = b + n - 48 := by
    rw [subWord_of_le (by omega) (by show 44 ≤ b + n - 4; omega)]
    show b + n - 4 - 44 = b + n - 48
    omega
  apply hne
  unfold stackHeap
  dsimp only
  rw [hret, hcf, load8_setupContextFrame_of_ne, load8_store32_of_ne]
  · intro i hi
    omega
  · intro j hj
    have hj44 : j < 44 := hj
    omega

namespace KernelOf

section Create

variable {h h' : Heap} {F L : List Block} {func b t : ℕ} {size : ℤ}

/-- A call of `create` that makes no process keeps no block. -/
theorem Allocates.none_managed (ha : Allocates h func size none h') (hM : Managed h F L) :
    h'.image = h.image ∧ ∃ F', Managed h' F' L := by
  cases ha with
  | refused => exact ⟨rfl, F, hM⟩
  | noStack _ hk =>
    rcases hM.kmalloc_cases hk with ⟨-, rfl⟩ | ⟨l, F1, hb, -⟩
    · exact ⟨rfl, F, hM⟩
    · omega
  | full b h1 _ hk hb hf =>
    rcases hM.kmalloc_cases hk with ⟨hb0, -⟩ | ⟨l, F1, rfl, himage1, hM1, -⟩
    · exact absurd hb0 hb
    · obtain ⟨himage2, hM2⟩ := hM1.kfree_cases hf
      exact ⟨himage2.trans himage1, hM2⟩
  | noTable b h1 h2 _ hk hb hk2 hf =>
    rcases hM.kmalloc_cases hk with ⟨hb0, -⟩ | ⟨l, F1, rfl, himage1, hM1, -⟩
    · exact absurd hb0 hb
    rcases hM1.kmalloc_cases hk2 with ⟨-, rfl⟩ | ⟨l2, F2, hl2, -⟩
    · obtain ⟨himage3, hM3⟩ := hM1.kfree_cases hf
      exact ⟨himage3.trans himage1, hM3⟩
    · omega

/-- A new process has a stack and a signal table of its own. -/
theorem Allocates.some_managed (ha : Allocates h func size (some (b, t)) h') (hM : Managed h F L)
    (hmin : 8192 ≤ size) (hmax : size < 4294967296) :
    h'.image = h.image ∧ ∃ F' stack table, b = stack.addr + 16 ∧ t = table.addr + 16 ∧
      Managed h' F' (table :: stack :: L) := by
  cases ha with
  | created _ _ h1 h2 hk hb hk2 ht =>
    rcases hM.kmalloc_cases hk with ⟨hb0, -⟩ | ⟨stack, F1, rfl, himage1, hM1, hsize1⟩
    · exact absurd hb0 hb
    rcases hM1.kmalloc_cases hk2 with ⟨ht0, -⟩ | ⟨table, F2, rfl, himage2, hM2, hsize2⟩
    · exact absurd ht0 ht
    obtain ⟨m, hm⟩ : ∃ m, m = memset h2.mem (table.addr + 16) 0 4 := ⟨_, rfl⟩
    have hwrites : ∀ a < 4294967296, load8 (stackHeap { h2 with mem := m } (stack.addr + 16)
        func size).mem a ≠ load8 h2.mem a → Writable h2 (table :: stack :: L) a := by
      intro a ha hne
      have hstack := hM2.live_limit (l := stack) (by simp)
      have htable := hM2.live_limit (l := table) (by simp)
      have hsize2 : 128 + 16 ≤ table.size := hsize2
      have hword : (toWord size : ℤ) = size := toWord_of_range (by omega) hmax
      unfold Block.limit at hstack htable
      right
      right
      right
      by_cases hframe : load8 (stackHeap { h2 with mem := m } (stack.addr + 16) func size).mem a =
          load8 m a
      · -- the byte was cleared in the signal table
        rw [hframe, hm] at hne
        refine ⟨table, by simp, ?_⟩
        by_contra hout
        unfold Block.limit at hout
        apply hne
        apply load8_memset_of_ne
        intro j hj
        omega
      · obtain ⟨hlo, hhi⟩ := stackHeap_writes (by omega) hmin (by omega) ha hframe
        refine ⟨stack, by simp, hlo, ?_⟩
        unfold Block.limit
        omega
    rw [← hm]
    exact ⟨himage2.trans himage1, F2, stack, table, rfl, rfl, (hM2.rewrite hwrites).1⟩

end Create

end KernelOf

/-! ## The blocks in use -/

/-- The data of the blocks that a process owns. -/
def Pcb.allocations (x : Pcb) : List ℕ :=
  if x.currState = .stopped then [] else [x.memoryRegion, x.signalTable]

theorem Pcb.allocations_stopped {x : Pcb} (h : x.currState = .stopped) : x.allocations = [] :=
  if_pos h

theorem Pcb.allocations_live {x : Pcb} (h : x.currState ≠ .stopped) :
    x.allocations = [x.memoryRegion, x.signalTable] := if_neg h

namespace KernelOf

variable {Q : Type} {s s' : KernelOf Q} {F F' L L' : List Block} {i : Fin pcbTableSize}

/-- What boot allocates and nobody frees: the state of two devices and the stack of the idle
process. -/
def bootAllocations (s : KernelOf Q) : List ℕ :=
  [s.gDeviceTable .keyboardNoEcho, s.gDeviceTable .keyboard, (s.pcb .idle).memoryRegion]

def bootBlocks (s : KernelOf Q) : List Block := s.bootAllocations.map (blockAt s.toHeap)

/-- The blocks of the process in slot `i`. -/
def blocksOf (s : KernelOf Q) (i : Fin pcbTableSize) : List Block :=
  (s.pcb (.table i)).allocations.map (blockAt s.toHeap)

/-- The blocks that somebody owns. -/
def liveBlocks (s : KernelOf Q) : List Block := s.bootBlocks ++ holdings s.blocksOf

/-- The blocks that somebody owns and the free list fill the two regions. -/
def Accounted (s : KernelOf Q) : Prop := ∃ F, Managed s.toHeap F s.liveBlocks

/-- Nobody loses a block, or gets another one for it. -/
structure KeepsBlocks (s s' : KernelOf Q) : Prop where
  image : s'.image = s.image
  boot : s'.bootBlocks = s.bootBlocks
  table : ∀ i, (s.pcb (.table i)).currState ≠ .stopped →
    (s'.pcb (.table i)).currState ≠ .stopped → s'.blocksOf i = s.blocksOf i

/-- The same blocks in the same hands. -/
structure SameBlocks (s s' : KernelOf Q) : Prop where
  image : s'.image = s.image
  boot : s'.bootBlocks = s.bootBlocks
  table : ∀ i, s'.blocksOf i = s.blocksOf i

/-- The same owners, by the kernel's tables. -/
structure SameOwners (s s' : KernelOf Q) : Prop where
  image : s'.image = s.image
  boot : s'.bootAllocations = s.bootAllocations
  table : ∀ i, (s'.pcb (.table i)).allocations = (s.pcb (.table i)).allocations

theorem blocksOf_stopped (h : (s.pcb (.table i)).currState = .stopped) : s.blocksOf i = [] := by
  unfold blocksOf
  rw [Pcb.allocations_stopped h, List.map_nil]

theorem bootBlocks_mem {b : Block} (hb : b ∈ s.bootBlocks) : b ∈ s.liveBlocks :=
  List.mem_append_left _ hb

theorem blocksOf_mem {b : Block} (hb : b ∈ s.blocksOf i) : b ∈ s.liveBlocks :=
  List.mem_append_right _ (mem_holdings.mpr ⟨i, hb⟩)

/-- The blocks of boot are found again while they are live. -/
theorem bootBlocks_eq (hM : Managed s.toHeap F L) (hM' : Managed s'.toHeap F' L')
    (hL : ∀ b ∈ s.bootBlocks, b ∈ L) (hL' : ∀ b ∈ s.bootBlocks, b ∈ L')
    (h : s'.bootAllocations = s.bootAllocations) : s'.bootBlocks = s.bootBlocks := by
  unfold bootBlocks at hL hL' ⊢
  rw [h]
  apply List.map_congr_left
  intro p hp
  exact hM.blockAt_eq hM' (hL _ (List.mem_map_of_mem hp)) (hL' _ (List.mem_map_of_mem hp))

/-- So are the blocks of a process. -/
theorem blocksOf_eq (hM : Managed s.toHeap F L) (hM' : Managed s'.toHeap F' L')
    (hL : ∀ b ∈ s.blocksOf i, b ∈ L) (hL' : ∀ b ∈ s.blocksOf i, b ∈ L')
    (h : (s'.pcb (.table i)).allocations = (s.pcb (.table i)).allocations) :
    s'.blocksOf i = s.blocksOf i := by
  unfold blocksOf at hL hL' ⊢
  rw [h]
  apply List.map_congr_left
  intro p hp
  exact hM.blockAt_eq hM' (hL _ (List.mem_map_of_mem hp)) (hL' _ (List.mem_map_of_mem hp))

theorem SameBlocks.keeps (h : SameBlocks s s') : KeepsBlocks s s' :=
  ⟨h.image, h.boot, fun i _ _ => h.table i⟩

theorem SameBlocks.live (h : SameBlocks s s') : s'.liveBlocks = s.liveBlocks := by
  unfold liveBlocks
  rw [h.boot, holdings_congr h.table]

/-- Nothing is allocated or freed. -/
theorem SameOwners.blocks (h : SameOwners s s') (hM : Managed s.toHeap F s.liveBlocks)
    (hM' : Managed s'.toHeap F' s.liveBlocks) : SameBlocks s s' where
  image := h.image
  boot := bootBlocks_eq hM hM' (fun _ => bootBlocks_mem) (fun _ => bootBlocks_mem) h.boot
  table := fun i => blocksOf_eq hM hM' (fun _ => blocksOf_mem) (fun _ => blocksOf_mem) (h.table i)

theorem SameOwners.accounted (h : SameOwners s s') (hM : Managed s.toHeap F s.liveBlocks)
    (hM' : Managed s'.toHeap F' s.liveBlocks) : Accounted s' ∧ KeepsBlocks s s' := by
  have hblocks := h.blocks hM hM'
  refine ⟨⟨F', ?_⟩, hblocks.keeps⟩
  rw [hblocks.live]
  exact hM'

/-- A free slot of the table gets a process with a stack and a signal table. -/
theorem accounted_created {stack table : Block} (hM : Managed s.toHeap F s.liveBlocks)
    (hM' : Managed s'.toHeap F' (table :: stack :: s.liveBlocks))
    (himage : s'.image = s.image) (hboot : s'.bootAllocations = s.bootAllocations)
    (hstop : (s.pcb (.table i)).currState = .stopped)
    (hnew : (s'.pcb (.table i)).allocations = [stack.addr + 16, table.addr + 16])
    (hother : ∀ j, j ≠ i → (s'.pcb (.table j)).allocations = (s.pcb (.table j)).allocations) :
    Accounted s' ∧ KeepsBlocks s s' := by
  have hkept : ∀ b ∈ s.liveBlocks, b ∈ table :: stack :: s.liveBlocks := fun b hb =>
    List.mem_cons_of_mem _ (List.mem_cons_of_mem _ hb)
  have hbb : s'.bootBlocks = s.bootBlocks :=
    bootBlocks_eq hM hM' (fun _ => bootBlocks_mem) (fun b hb => hkept b (bootBlocks_mem hb)) hboot
  have hoth : ∀ j, j ≠ i → s'.blocksOf j = s.blocksOf j := fun j hj =>
    blocksOf_eq hM hM' (fun _ => blocksOf_mem) (fun b hb => hkept b (blocksOf_mem hb))
      (hother j hj)
  have hi : s'.blocksOf i = [stack, table] := by
    unfold blocksOf
    rw [hnew, List.map_cons, List.map_cons, List.map_nil, hM'.blockAt_data (by simp),
      hM'.blockAt_data (by simp)]
  have hperm : s'.liveBlocks.Perm (table :: stack :: s.liveBlocks) := by
    have hacq := holdings_acquire (blocksOf_stopped hstop) hoth
    rw [hi] at hacq
    unfold liveBlocks
    rw [hbb]
    have hfront := List.perm_append_comm_assoc s.bootBlocks [stack, table] (holdings s.blocksOf)
    exact (hacq.append_left _).trans (hfront.trans (List.Perm.swap _ _ _))
  refine ⟨⟨F', hM'.perm hperm⟩, himage, hbb, fun j hj _ => hoth j ?_⟩
  rintro rfl
  exact hj hstop

/-- The two blocks of a process that has not stopped come first, in some order. -/
theorem liveBlocks_perm (hlive : (s.pcb (.table i)).currState ≠ .stopped) :
    s.liveBlocks.Perm (blockAt s.toHeap (s.pcb (.table i)).memoryRegion ::
      blockAt s.toHeap (s.pcb (.table i)).signalTable ::
        (s.bootBlocks ++ othersHold s.blocksOf i)) := by
  have hperm := holdings_perm s.blocksOf i
  have hi : s.blocksOf i = [blockAt s.toHeap (s.pcb (.table i)).memoryRegion,
      blockAt s.toHeap (s.pcb (.table i)).signalTable] := by
    unfold blocksOf
    rw [Pcb.allocations_live hlive]
    rfl
  rw [hi] at hperm
  exact (hperm.append_left _).trans (List.perm_append_comm_assoc _ _ _)

/-- What a process that has not stopped owns can be freed. -/
theorem frees_total (hM : Managed s.toHeap F s.liveBlocks)
    (hlive : (s.pcb (.table i)).currState ≠ .stopped) :
    ∃ F' h1 h2, s.toHeap.kfree (s.pcb (.table i)).memoryRegion = some h1 ∧
      h1.kfree (s.pcb (.table i)).signalTable = some h2 ∧ h2.image = s.image ∧
      Managed h2 F' (s.bootBlocks ++ othersHold s.blocksOf i) := by
  have hM0 := hM.perm (liveBlocks_perm hlive).symm
  have hdata1 := hM0.data_blockAt (p := (s.pcb (.table i)).memoryRegion) (by simp)
  have hdata2 := hM0.data_blockAt (p := (s.pcb (.table i)).signalTable) (by simp)
  obtain ⟨F1, h1, hk1, himage1, hM1⟩ := hM0.kfree_total
  obtain ⟨F2, h2, hk2, himage2, hM2⟩ := hM1.kfree_total
  rw [hdata1] at hk1
  rw [hdata2] at hk2
  exact ⟨F2, h1, h2, hk1, hk2, himage2.trans himage1, hM2⟩

/-- A process ends, and its two blocks are freed. -/
theorem accounted_ended {h1 : Heap} (hM : Managed s.toHeap F s.liveBlocks)
    (hlive : (s.pcb (.table i)).currState ≠ .stopped)
    (hk1 : s.toHeap.kfree (s.pcb (.table i)).memoryRegion = some h1)
    (hk2 : h1.kfree (s.pcb (.table i)).signalTable = some s'.toHeap)
    (hboot : s'.bootAllocations = s.bootAllocations)
    (hstop : (s'.pcb (.table i)).currState = .stopped)
    (hother : ∀ j, j ≠ i → (s'.pcb (.table j)).allocations = (s.pcb (.table j)).allocations) :
    Accounted s' ∧ KeepsBlocks s s' := by
  obtain ⟨F2, h1', h2, hk1', hk2', himage, hM2⟩ := frees_total hM hlive
  rw [hk1] at hk1'
  obtain rfl := Option.some.inj hk1'
  rw [hk2] at hk2'
  obtain rfl := Option.some.inj hk2'
  have hbb : s'.bootBlocks = s.bootBlocks :=
    bootBlocks_eq hM hM2 (fun _ => bootBlocks_mem) (fun b hb => List.mem_append_left _ hb) hboot
  have hoth : ∀ j, j ≠ i → s'.blocksOf j = s.blocksOf j := fun j hj =>
    blocksOf_eq hM hM2 (fun _ => blocksOf_mem)
      (fun b hb => List.mem_append_right _ (mem_othersHold hj hb)) (hother j hj)
  have hperm := holdings_perm s'.blocksOf i
  rw [blocksOf_stopped hstop, List.nil_append, othersHold_congr hoth] at hperm
  have hlive' : s'.liveBlocks.Perm (s.bootBlocks ++ othersHold s.blocksOf i) := by
    unfold liveBlocks
    rw [hbb]
    exact hperm.append_left _
  refine ⟨⟨F2, hM2.perm hlive'⟩, himage, hbb, fun j _ hj => hoth j ?_⟩
  rintro rfl
  exact hj hstop

end KernelOf

end Xeros.Model
