import Xeros.Foundations.Blocks
import Xeros.Foundations.LinkedFamily
import Xeros.Model.Memory

/-!
# The free list

A header is four words at a multiple of 16, so that headers at different places do not overlap.
`FreeList h F` says that following `next` from `g_free_list` one finds the blocks `F`, with `prev`
leading back.  Every operation of the allocator replaces some middle part of the list.
-/

set_option autoImplicit false

namespace Xeros.Refinement

open Xeros.Foundations Xeros.Model

/-! ## Headers -/

/-- The contents of a `memory_header_t`. -/
@[ext] structure Header where
  size : ℕ
  prev : ℕ
  next : ℕ
  sanityCheck : ℕ

/-- The header at `a`. -/
def headerAt (h : Heap) (a : ℕ) : Header := ⟨h.size a, h.prev a, h.next a, h.sanityCheck a⟩

/-- A place for a header. -/
structure Slot (a : ℕ) : Prop where
  ne_zero : a ≠ 0
  aligned : a % 16 = 0
  fits : a + 16 ≤ 4294967296

section Setters

variable {h : Heap} {a c v : ℕ}

/-- A field of a header at `c` when a field of the header at `a` is set. -/
theorem load32_field (m : Memory) (ha : Slot a) (hc : Slot c) {i j : ℕ} (hi : i ≤ 12) (hj : j ≤ 12)
    (hi4 : i % 4 = 0) (hj4 : j % 4 = 0) (hv : v < 4294967296) :
    load32 (store32 m (a + i) v) (c + j) =
      if c = a ∧ j = i then v else load32 m (c + j) := by
  have ha' := ha.aligned
  have hc' := hc.aligned
  have hfa := ha.fits
  have hfc := hc.fits
  rw [load32_store32_aligned m v (by omega) (by omega) (by omega) (by omega),
    Nat.mod_eq_of_lt hv]
  by_cases heq : c = a ∧ j = i
  · rw [if_pos heq, if_pos (by omega)]
  · rw [if_neg heq, if_neg (by omega)]

/-- Setting a word of a header at `a` leaves the headers elsewhere alone. -/
theorem headerAt_store_of_ne (ha : Slot a) (hc : Slot c) (hne : c ≠ a) (hv : v < 4294967296)
    {i : ℕ} (hi : i ≤ 12) (hi4 : i % 4 = 0) {h' : Heap} (hmem : h'.mem = store32 h.mem (a + i) v) :
    headerAt h' c = headerAt h c := by
  have hfield : ∀ j ≤ 12, j % 4 = 0 → load32 h'.mem (c + j) = load32 h.mem (c + j) := by
    intro j hj hj4
    rw [hmem, load32_field h.mem ha hc hi hj hi4 hj4 hv, if_neg (fun heq => hne heq.1)]
  have h0 : load32 h'.mem c = load32 h.mem c := hfield 0 (by omega) (by omega)
  unfold headerAt Heap.size Heap.prev Heap.next Heap.sanityCheck
  rw [h0, hfield 4 (by omega) (by omega), hfield 8 (by omega) (by omega),
    hfield 12 (by omega) (by omega)]

/-- The header at `a` when one of its words is set. -/
theorem headerAt_store_own (ha : Slot a) (hv : v < 4294967296) {i : ℕ} (hi : i ≤ 12)
    (hi4 : i % 4 = 0) {h' : Heap} (hmem : h'.mem = store32 h.mem (a + i) v) :
    headerAt h' a = ⟨if 0 = i then v else h.size a, if 4 = i then v else h.prev a,
      if 8 = i then v else h.next a, if 12 = i then v else h.sanityCheck a⟩ := by
  have hfield : ∀ j ≤ 12, j % 4 = 0 →
      load32 h'.mem (a + j) = if j = i then v else load32 h.mem (a + j) := by
    intro j hj hj4
    rw [hmem, load32_field h.mem ha ha hi hj hi4 hj4 hv]
    simp
  have h0 := hfield 0 (by omega) (by omega)
  rw [Nat.add_zero] at h0
  unfold headerAt Heap.size Heap.prev Heap.next Heap.sanityCheck
  rw [h0, hfield 4 (by omega) (by omega), hfield 8 (by omega) (by omega),
    hfield 12 (by omega) (by omega)]

/-- Setting a field changes that field of that header. -/
theorem headerAt_setSize (ha : Slot a) (hc : Slot c) (hv : v < 4294967296) :
    headerAt (h.setSize a v) c =
      if c = a then { headerAt h c with size := v } else headerAt h c := by
  split_ifs with hca
  · subst hca
    exact headerAt_store_own ha hv (Nat.zero_le 12) (by omega) (by rw [Nat.add_zero]; rfl)
  · exact headerAt_store_of_ne ha hc hca hv (Nat.zero_le 12) (by omega) (by rw [Nat.add_zero]; rfl)

theorem headerAt_setPrev (ha : Slot a) (hc : Slot c) (hv : v < 4294967296) :
    headerAt (h.setPrev a v) c =
      if c = a then { headerAt h c with prev := v } else headerAt h c := by
  have hmem : (h.setPrev a v).mem = store32 h.mem (a + 4) v := rfl
  split_ifs with hca
  · subst hca
    exact headerAt_store_own ha hv (by omega) (by omega) hmem
  · exact headerAt_store_of_ne ha hc hca hv (by omega) (by omega) hmem

theorem headerAt_setNext (ha : Slot a) (hc : Slot c) (hv : v < 4294967296) :
    headerAt (h.setNext a v) c =
      if c = a then { headerAt h c with next := v } else headerAt h c := by
  have hmem : (h.setNext a v).mem = store32 h.mem (a + 8) v := rfl
  split_ifs with hca
  · subst hca
    exact headerAt_store_own ha hv (by omega) (by omega) hmem
  · exact headerAt_store_of_ne ha hc hca hv (by omega) (by omega) hmem

theorem headerAt_setSanityCheck (ha : Slot a) (hc : Slot c) (hv : v < 4294967296) :
    headerAt (h.setSanityCheck a v) c =
      if c = a then { headerAt h c with sanityCheck := v } else headerAt h c := by
  have hmem : (h.setSanityCheck a v).mem = store32 h.mem (a + 12) v := rfl
  split_ifs with hca
  · subst hca
    exact headerAt_store_own ha hv (by omega) (by omega) hmem
  · exact headerAt_store_of_ne ha hc hca hv (by omega) (by omega) hmem

end Setters

/-! ## Pointers -/

/-- A pointer, null as `none`. -/
def link (w : ℕ) : Option ℕ := if w = 0 then none else some w

/-- The pointer of an optional address. -/
def ptrOf (p : Option ℕ) : ℕ := p.getD 0

/-- `next`, null as `none`. -/
def nextLink (h : Heap) (a : ℕ) : Option ℕ := link (h.next a)

/-- `prev`, null as `none`. -/
def prevLink (h : Heap) (a : ℕ) : Option ℕ := link (h.prev a)

/-- `if (p != NULL) p->next = v; else g_free_list = v;` -/
def linkNext (h : Heap) (p v : ℕ) : Heap :=
  if p ≠ 0 then h.setNext p v else { h with gFreeList := v }

/-- `if (n != NULL) n->prev = v;` -/
def linkPrev (h : Heap) (n v : ℕ) : Heap := if n ≠ 0 then h.setPrev n v else h

section Pointers

variable {h : Heap} {a c v : ℕ}

theorem link_ptrOf {p : Option ℕ} (hp : ∀ x, p = some x → x ≠ 0) : link (ptrOf p) = p := by
  cases p with
  | none => rfl
  | some x => exact if_neg (hp x rfl)

theorem ptrOf_link (w : ℕ) : ptrOf (link w) = w := by
  unfold link ptrOf
  split_ifs with hw
  · exact hw.symm
  · rfl

theorem headerAt_linkNext (ha : a = 0 ∨ Slot a) (hc : Slot c) (hv : v < 4294967296) :
    headerAt (linkNext h a v) c =
      if c = a then { headerAt h c with next := v } else headerAt h c := by
  unfold linkNext
  rcases ha with rfl | ha
  · rw [if_neg (by simp), if_neg hc.ne_zero]
    rfl
  · rw [if_pos ha.ne_zero]
    exact headerAt_setNext ha hc hv

theorem headerAt_linkPrev (ha : a = 0 ∨ Slot a) (hc : Slot c) (hv : v < 4294967296) :
    headerAt (linkPrev h a v) c =
      if c = a then { headerAt h c with prev := v } else headerAt h c := by
  unfold linkPrev
  rcases ha with rfl | ha
  · rw [if_neg (by simp), if_neg hc.ne_zero]
  · rw [if_pos ha.ne_zero]
    exact headerAt_setPrev ha hc hv

end Pointers

/-! ## The list -/

/-- The places of blocks. -/
def addrs (F : List Block) : List ℕ := F.map Block.addr

/-- The free list of the heap, from `g_free_list` on. -/
structure FreeList (h : Heap) (F : List Block) : Prop where
  slots : ∀ b ∈ F, Slot b.addr
  nodup : (addrs F).Nodup
  head : link h.gFreeList = (addrs F).head?
  seg : Seg (nextLink h) (prevLink h) none (addrs F) none
  sizes : ∀ b ∈ F, h.size b.addr = b.size

section Lists

variable {h h' : Heap} {A L M B : List Block} {F : List Block} {b : Block}

@[simp] theorem addrs_nil : addrs [] = [] := rfl

@[simp] theorem addrs_cons (b : Block) (F : List Block) : addrs (b :: F) = b.addr :: addrs F := rfl

@[simp] theorem addrs_append (A B : List Block) : addrs (A ++ B) = addrs A ++ addrs B :=
  List.map_append

theorem mem_addrs_of_mem (hb : b ∈ F) : b.addr ∈ addrs F := List.mem_map_of_mem hb

theorem exists_of_mem_addrs {x : ℕ} (hx : x ∈ addrs F) : ∃ b ∈ F, b.addr = x :=
  List.mem_map.mp hx

/-- Addresses of the list are places for headers, so none of them is null. -/
theorem slot_of_mem_addrs (hslots : ∀ b ∈ F, Slot b.addr) {x : ℕ} (hx : x ∈ addrs F) : Slot x := by
  obtain ⟨b, hb, rfl⟩ := exists_of_mem_addrs hx
  exact hslots b hb

theorem slot_head? (hslots : ∀ b ∈ F, Slot b.addr) :
    ∀ x, (addrs F).head? = some x → x ≠ 0 :=
  fun _ hx => (slot_of_mem_addrs hslots (List.mem_of_mem_head? hx)).ne_zero

theorem slot_getLast? (hslots : ∀ b ∈ F, Slot b.addr) :
    ∀ x, (addrs F).getLast? = some x → x ≠ 0 :=
  fun _ hx => (slot_of_mem_addrs hslots (List.mem_of_getLast? hx)).ne_zero

/-- The pointer to the first block, or null. -/
def firstPtr (F : List Block) : ℕ := ptrOf (addrs F).head?

/-- The pointer to the last block, or null. -/
def lastPtr (F : List Block) : ℕ := ptrOf (addrs F).getLast?

theorem firstPtr_slot (hslots : ∀ b ∈ F, Slot b.addr) : firstPtr F = 0 ∨ Slot (firstPtr F) := by
  unfold firstPtr
  cases hF : (addrs F).head? with
  | none => exact .inl rfl
  | some x => exact .inr (slot_of_mem_addrs hslots (List.mem_of_mem_head? hF))

theorem lastPtr_slot (hslots : ∀ b ∈ F, Slot b.addr) : lastPtr F = 0 ∨ Slot (lastPtr F) := by
  unfold lastPtr
  cases hF : (addrs F).getLast? with
  | none => exact .inl rfl
  | some x => exact .inr (slot_of_mem_addrs hslots (List.mem_of_getLast? hF))

theorem ptr_lt {a : ℕ} (ha : a = 0 ∨ Slot a) : a < 4294967296 := by
  rcases ha with rfl | ha
  · decide
  · have hfits := ha.fits
    omega

theorem firstPtr_eq_iff {x : ℕ} (hx : x ≠ 0) : firstPtr F = x ↔ (addrs F).head? = some x := by
  unfold firstPtr ptrOf
  cases (addrs F).head? with
  | none => simp [Ne.symm hx]
  | some y => simp

theorem lastPtr_eq_iff {x : ℕ} (hx : x ≠ 0) : lastPtr F = x ↔ (addrs F).getLast? = some x := by
  unfold lastPtr ptrOf
  cases (addrs F).getLast? with
  | none => simp [Ne.symm hx]
  | some y => simp

theorem link_firstPtr (hslots : ∀ b ∈ F, Slot b.addr) : link (firstPtr F) = (addrs F).head? :=
  link_ptrOf (slot_head? hslots)

theorem link_lastPtr (hslots : ∀ b ∈ F, Slot b.addr) : link (lastPtr F) = (addrs F).getLast? :=
  link_ptrOf (slot_getLast? hslots)

theorem FreeList.gFreeList_eq (hF : FreeList h F) : h.gFreeList = firstPtr F := by
  unfold firstPtr
  rw [← hF.head, ptrOf_link]

/-- Following `next` from `g_free_list` reads the list. -/
theorem FreeList.follow_eq (hF : FreeList h F) {n : ℕ} (hn : F.length ≤ n) :
    follow (nextLink h) n (link h.gFreeList) = addrs F := by
  rw [hF.head]
  exact hF.seg.follow_eq (by rwa [addrs, List.length_map])

/-- A heap has one free list. -/
theorem FreeList.unique {G : List Block} (hF : FreeList h F) (hG : FreeList h G) : F = G := by
  have haddrs : addrs F = addrs G := by
    rw [← hF.follow_eq (Nat.le_max_left F.length G.length), hG.follow_eq (Nat.le_max_right _ _)]
  have hread : ∀ {K : List Block}, FreeList h K →
      (addrs K).map (fun a => (⟨a, h.size a⟩ : Block)) = K := by
    intro K hK
    rw [addrs, List.map_map]
    refine (List.map_congr_left fun b hb => ?_).trans (List.map_id K)
    rw [Function.comp_apply, hK.sizes b hb, id]
  rw [← hread hF, ← hread hG, haddrs]

/-- The pointers of a block in the list. -/
theorem FreeList.pointers (hF : FreeList h (A ++ b :: B)) :
    h.prev b.addr = lastPtr A ∧ h.next b.addr = firstPtr B := by
  have hseg := hF.seg
  rw [addrs_append, addrs_cons, seg_append] at hseg
  obtain ⟨-, hprev, hnext, -⟩ := hseg
  rw [Option.or_none] at hprev hnext
  unfold lastPtr firstPtr
  rw [← hprev, ← hnext]
  unfold prevLink nextLink
  rw [ptrOf_link, ptrOf_link]
  exact ⟨rfl, rfl⟩

/-- The block before a place in the list points there. -/
theorem FreeList.next_last (hF : FreeList h (A ++ B)) {x : ℕ} (hx : x ≠ 0) (hlast : x = lastPtr A) :
    h.next x = firstPtr B := by
  obtain rfl | ⟨A', a, rfl⟩ := List.eq_nil_or_concat A
  · exact absurd hlast hx
  · rw [List.concat_eq_append] at hF hlast
    rw [List.append_assoc, List.singleton_append] at hF
    have hxa : x = a.addr := by simpa [lastPtr, ptrOf] using hlast
    rw [hxa]
    exact hF.pointers.2

/-- Replace the middle of the list: besides the headers there, only `next` of the block before and
`prev` of the block after change. -/
theorem FreeList.replace (hF : FreeList h (A ++ L ++ B)) (hslots : ∀ b ∈ M, Slot b.addr)
    (hnd : (addrs (A ++ M ++ B)).Nodup)
    (hhead : h'.gFreeList = if A = [] then firstPtr (M ++ B) else h.gFreeList)
    (hA : ∀ b ∈ A, headerAt h' b.addr = if b.addr = lastPtr A then
      { headerAt h b.addr with next := firstPtr (M ++ B) } else headerAt h b.addr)
    (hB : ∀ b ∈ B, headerAt h' b.addr = if b.addr = firstPtr B then
      { headerAt h b.addr with prev := lastPtr (A ++ M) } else headerAt h b.addr)
    (hM : Seg (nextLink h') (prevLink h') (addrs A).getLast? (addrs M) (addrs B).head?)
    (hsizes : ∀ b ∈ M, h'.size b.addr = b.size) : FreeList h' (A ++ M ++ B) := by
  have hAslot : ∀ b ∈ A, Slot b.addr := fun b hb => hF.slots b (by simp [hb])
  have hBslot : ∀ b ∈ B, Slot b.addr := fun b hb => hF.slots b (by simp [hb])
  have hMB : ∀ b ∈ M ++ B, Slot b.addr := fun b hb =>
    (List.mem_append.mp hb).elim (hslots b) (hBslot b)
  have hAM : ∀ b ∈ A ++ M, Slot b.addr := fun b hb =>
    (List.mem_append.mp hb).elim (hAslot b) (hslots b)
  constructor
  · intro b hb
    rcases List.mem_append.mp hb with hb | hb
    · exact hAM b hb
    · exact hBslot b hb
  · exact hnd
  · rw [hhead]
    split_ifs with hnil
    · rw [link_firstPtr hMB, hnil]
      rfl
    · rw [hF.head]
      obtain ⟨a, A, rfl⟩ := List.exists_cons_of_ne_nil hnil
      rfl
  · have hseg := hF.seg
    have hold := hF.nodup
    rw [addrs_append, addrs_append] at hseg hold ⊢
    apply hseg.replace hold
    · intro x hx
      obtain ⟨b, hb, rfl⟩ := exists_of_mem_addrs hx
      have hheader := congrArg Header.prev (hA b hb)
      unfold prevLink
      rw [show h'.prev b.addr = (headerAt h' b.addr).prev from rfl, hheader]
      split_ifs <;> rfl
    · intro x hx
      obtain ⟨b, hb, rfl⟩ := exists_of_mem_addrs hx
      have hheader := congrArg Header.next (hB b hb)
      unfold nextLink
      rw [show h'.next b.addr = (headerAt h' b.addr).next from rfl, hheader]
      split_ifs <;> rfl
    · intro x hx
      obtain ⟨b, hb, rfl⟩ := exists_of_mem_addrs hx
      have hheader := congrArg Header.next (hA b hb)
      have hiff := lastPtr_eq_iff (F := A) (hAslot b hb).ne_zero
      unfold nextLink
      rw [show h'.next b.addr = (headerAt h' b.addr).next from rfl, hheader]
      by_cases hlast : (addrs A).getLast? = some b.addr
      · rw [if_pos (hiff.mpr hlast).symm, if_pos hlast, ← addrs_append, ← link_firstPtr hMB]
      · rw [if_neg (fun heq => hlast (hiff.mp heq.symm)), if_neg hlast]
        rfl
    · intro x hx
      obtain ⟨b, hb, rfl⟩ := exists_of_mem_addrs hx
      have hheader := congrArg Header.prev (hB b hb)
      have hiff := firstPtr_eq_iff (F := B) (hBslot b hb).ne_zero
      unfold prevLink
      rw [show h'.prev b.addr = (headerAt h' b.addr).prev from rfl, hheader]
      by_cases hfirst : (addrs B).head? = some b.addr
      · rw [if_pos (hiff.mpr hfirst).symm, if_pos hfirst, ← addrs_append, ← link_lastPtr hAM]
      · rw [if_neg (fun heq => hfirst (hiff.mp heq.symm)), if_neg hfirst]
        rfl
    · exact hM
  · intro b hb
    rcases List.mem_append.mp hb with hb | hb
    · rcases List.mem_append.mp hb with hb | hb
      · have hheader := congrArg Header.size (hA b hb)
        rw [show h'.size b.addr = (headerAt h' b.addr).size from rfl, hheader,
          ← hF.sizes b (by simp [hb])]
        split_ifs <;> rfl
      · exact hsizes b hb
    · have hheader := congrArg Header.size (hB b hb)
      rw [show h'.size b.addr = (headerAt h' b.addr).size from rfl, hheader,
        ← hF.sizes b (by simp [hb])]
      split_ifs <;> rfl

end Lists

/-! ## The operations -/

section Operations

variable {h : Heap} {A B F : List Block} {b t : Block} {req c : ℕ}

/-- What an operation leaves alone, apart from some places: the headers outside the list, and all
`sanity_check`s. -/
structure Unchanged (F : List Block) (places : ℕ → Prop) (h h' : Heap) : Prop where
  image : h'.image = h.image
  outside : ∀ c, Slot c → c ∉ addrs F → ¬ places c → headerAt h' c = headerAt h c
  sanity : ∀ c, Slot c → ¬ places c → h'.sanityCheck c = h.sanityCheck c

theorem FreeList.distinct (hF : FreeList h (A ++ b :: B)) :
    b.addr ∉ addrs A ∧ b.addr ∉ addrs B ∧ ∀ x ∈ addrs A, x ∉ addrs B := by
  have hnd := hF.nodup
  rw [addrs_append, addrs_cons] at hnd
  obtain ⟨-, hb, hdisj⟩ := List.nodup_append.mp hnd
  refine ⟨fun hmem => hdisj _ hmem _ List.mem_cons_self rfl, (List.nodup_cons.mp hb).1, ?_⟩
  intro x hxA hxB
  exact hdisj x hxA x (List.mem_cons_of_mem _ hxB) rfl

theorem firstPtr_mem {x : ℕ} (hx : x ≠ 0) (heq : x = firstPtr F) : x ∈ addrs F :=
  List.mem_of_mem_head? ((firstPtr_eq_iff hx).mp heq.symm)

theorem lastPtr_mem {x : ℕ} (hx : x ≠ 0) (heq : x = lastPtr F) : x ∈ addrs F :=
  List.mem_of_getLast? ((lastPtr_eq_iff hx).mp heq.symm)

/-- The header of the second half of a block. -/
def otherHalf (h : Heap) (block req : ℕ) : Heap :=
  let h' := (h.setSize (block + req) (h.size block - req)).setPrev (block + req) block
  (h'.setNext (block + req) (h.next block)).setSanityCheck (block + req) 0

theorem headerAt_otherHalf (ho : Slot (b.addr + req)) (hb : Slot b.addr) (hc : Slot c)
    (hsize : h.size b.addr < 4294967296) (hnext : h.next b.addr < 4294967296) :
    headerAt (otherHalf h b.addr req) c = if c = b.addr + req then
      ⟨h.size b.addr - req, b.addr, h.next b.addr, 0⟩ else headerAt h c := by
  have hfits := hb.fits
  unfold otherHalf
  rw [headerAt_setSanityCheck ho hc (by decide), headerAt_setNext ho hc hnext,
    headerAt_setPrev ho hc (by omega), headerAt_setSize ho hc (by omega)]
  split_ifs <;> rfl

/-- Splitting puts the second half into the list. -/
theorem splitFreeBlock_spec (hF : FreeList h (A ++ b :: B)) (hpos : 0 < req) (hreq : req < b.size)
    (hfits : b.addr + b.size < 4294967296) (ho : Slot (b.addr + req))
    (hfresh : b.addr + req ∉ addrs (A ++ b :: B)) :
    ∃ h', h.splitFreeBlock b.addr req = some h' ∧
      FreeList h' (A ++ ⟨b.addr, req⟩ :: ⟨b.addr + req, b.size - req⟩ :: B) ∧
      h'.sanityCheck (b.addr + req) = 0 ∧
      Unchanged (A ++ b :: B) (· = b.addr + req) h h' := by
  have hb : Slot b.addr := hF.slots b (by simp)
  have hAslot : ∀ a ∈ A, Slot a.addr := fun a ha => hF.slots a (by simp [ha])
  have hBslot : ∀ a ∈ B, Slot a.addr := fun a ha => hF.slots a (by simp [ha])
  have hsize := hF.sizes b (by simp)
  obtain ⟨hprev, hnext⟩ := hF.pointers
  obtain ⟨hbA, hbB, hAB⟩ := hF.distinct
  have hBptr := firstPtr_slot hBslot
  have hBlt := ptr_lt hBptr
  rw [addrs_append, addrs_cons, List.mem_append, List.mem_cons, not_or, not_or] at hfresh
  obtain ⟨hoA, hob, hoB⟩ := hfresh
  have hoB' : b.addr + req ≠ firstPtr B := fun heq => hoB (firstPtr_mem ho.ne_zero heq)
  have hbB' : b.addr ≠ firstPtr B := fun heq => hbB (firstPtr_mem hb.ne_zero heq)
  -- the headers afterwards
  obtain ⟨h1, hh1⟩ : ∃ h1, otherHalf h b.addr req = h1 := ⟨_, rfl⟩
  have hheader1 : ∀ c, Slot c → headerAt h1 c = if c = b.addr + req then
      ⟨b.size - req, b.addr, firstPtr B, 0⟩ else headerAt h c := by
    intro c hc
    rw [← hh1, headerAt_otherHalf ho hb hc (by omega) (by omega), hsize, hnext]
  have hnext1 : h1.next (b.addr + req) = firstPtr B := by
    have hheader := congrArg Header.next (hheader1 _ ho)
    rwa [if_pos rfl] at hheader
  obtain ⟨h', hh'⟩ : ∃ h', ((linkPrev h1 (firstPtr B) (b.addr + req)).setNext b.addr
    (b.addr + req)).setSize b.addr req = h' := ⟨_, rfl⟩
  have hheader : ∀ c, Slot c → headerAt h' c =
      if c = b.addr + req then ⟨b.size - req, b.addr, firstPtr B, 0⟩
      else if c = b.addr then { headerAt h c with size := req, next := b.addr + req }
      else if c = firstPtr B then { headerAt h c with prev := b.addr + req }
      else headerAt h c := by
    intro c hc
    rw [← hh', headerAt_setSize hb hc (by omega), headerAt_setNext hb hc (by omega),
      headerAt_linkPrev hBptr hc (by omega), hheader1 c hc]
    by_cases hco : c = b.addr + req
    · have hcb : c ≠ b.addr := fun heq => hob (hco.symm.trans heq)
      have hcB : c ≠ firstPtr B := fun heq => hoB' (hco.symm.trans heq)
      simp only [if_pos hco, if_neg hcb, if_neg hcB]
    · by_cases hcb : c = b.addr
      · have hcB : c ≠ firstPtr B := fun heq => hbB' (hcb.symm.trans heq)
        simp only [if_neg hco, if_pos hcb, if_neg hcB]
      · simp only [if_neg hco, if_neg hcb]
  have hrun : h.splitFreeBlock b.addr req = some h' := by
    have hkept : ((h.setSize (b.addr + req) (b.size - req)).setPrev (b.addr + req) b.addr).next
        b.addr = h.next b.addr := by
      have hheader := headerAt_setPrev (h := h.setSize (b.addr + req) (b.size - req)) (v := b.addr)
        ho hb (by omega)
      rw [if_neg (Ne.symm hob), headerAt_setSize ho hb (by omega), if_neg (Ne.symm hob)] at hheader
      exact congrArg Header.next hheader
    unfold Heap.splitFreeBlock
    rw [cAssert_pos hb.ne_zero, Option.bind_eq_bind, Option.bind_some, hsize, cAssert_pos hreq.le,
      Option.bind_some, if_neg (by omega), Nat.mod_eq_of_lt (by omega),
      subWord_of_le (by omega) hreq.le]
    dsimp only
    rw [hkept, ← hh', ← hnext1, ← hh1]
    unfold otherHalf
    rw [hsize]
    rfl
  have ho' : headerAt h' (b.addr + req) = ⟨b.size - req, b.addr, firstPtr B, 0⟩ := by
    rw [hheader _ ho, if_pos rfl]
  have hb' : headerAt h' b.addr = { headerAt h b.addr with size := req, next := b.addr + req } := by
    rw [hheader _ hb, if_neg (Ne.symm hob), if_pos rfl]
  have hhead : h'.gFreeList = h.gFreeList := by
    rw [← hh', ← hh1]
    unfold linkPrev otherHalf
    split_ifs <;> rfl
  have hlist : FreeList h' (A ++ [⟨b.addr, req⟩, ⟨b.addr + req, b.size - req⟩] ++ B) := by
    apply FreeList.replace (L := [b]) (by rwa [List.append_assoc])
    · intro d hd
      rcases List.mem_pair.mp hd with rfl | rfl
      · exact hb
      · exact ho
    · have hnd := hF.nodup
      simp only [addrs_append, addrs_cons, List.append_assoc, List.cons_append,
        List.nil_append] at hnd ⊢
      rw [List.nodup_append, List.nodup_cons] at hnd ⊢
      obtain ⟨hndA, ⟨-, hndB⟩, -⟩ := hnd
      refine ⟨hndA, ⟨?_, List.nodup_cons.mpr ⟨hoB, hndB⟩⟩, ?_⟩
      · rw [List.mem_cons, not_or]
        exact ⟨Ne.symm hob, hbB⟩
      · rintro x hx y hy rfl
        simp only [List.mem_cons] at hy
        rcases hy with rfl | rfl | hy
        · exact hbA hx
        · exact hoA hx
        · exact hAB x hx hy
    · rw [hhead]
      split_ifs with hnil
      · rw [hF.gFreeList_eq, hnil]
        rfl
      · rfl
    · intro a ha
      have haA := mem_addrs_of_mem ha
      have ha0 := (hAslot a ha).ne_zero
      rw [hheader _ (hAslot a ha), if_neg (ne_of_mem_of_not_mem haA hoA),
        if_neg (ne_of_mem_of_not_mem haA hbA),
        if_neg (fun heq => hAB _ haA (firstPtr_mem ha0 heq))]
      split_ifs with hlast
      · have hnext' := hF.next_last ha0 hlast
        ext
        · rfl
        · rfl
        · exact hnext'
        · rfl
      · rfl
    · intro d hd
      have hdB := mem_addrs_of_mem hd
      rw [hheader _ (hBslot d hd), if_neg (ne_of_mem_of_not_mem hdB hoB),
        if_neg (ne_of_mem_of_not_mem hdB hbB)]
      have hlast : lastPtr (A ++ [⟨b.addr, req⟩, ⟨b.addr + req, b.size - req⟩]) = b.addr + req := by
        simp [lastPtr, ptrOf]
      rw [hlast]
    · have hprevb : h'.prev b.addr = lastPtr A := (congrArg Header.prev hb').trans hprev
      have hnextb : h'.next b.addr = b.addr + req := congrArg Header.next hb'
      have hprevo : h'.prev (b.addr + req) = b.addr := congrArg Header.prev ho'
      have hnexto : h'.next (b.addr + req) = firstPtr B := congrArg Header.next ho'
      refine ⟨?_, ?_, ?_, ?_, trivial⟩
      · exact (congrArg link hprevb).trans (link_lastPtr hAslot)
      · exact (congrArg link hnextb).trans (if_neg ho.ne_zero)
      · exact (congrArg link hprevo).trans (if_neg hb.ne_zero)
      · exact (congrArg link hnexto).trans (link_firstPtr hBslot)
    · intro d hd
      rcases List.mem_pair.mp hd with rfl | rfl
      · exact congrArg Header.size hb'
      · exact congrArg Header.size ho'
  refine ⟨h', hrun, by simpa using hlist, congrArg Header.sanityCheck ho', ?_⟩
  constructor
  · rw [← hh', ← hh1]
    unfold linkPrev otherHalf
    split_ifs <;> rfl
  · intro c hc hout hco
    rw [addrs_append, addrs_cons, List.mem_append, List.mem_cons, not_or, not_or] at hout
    obtain ⟨-, hcb, hcB⟩ := hout
    rw [hheader c hc, if_neg hco, if_neg hcb,
      if_neg (fun heq => hcB (firstPtr_mem hc.ne_zero heq))]
  · intro c hc hco
    have hsanity := congrArg Header.sanityCheck (hheader c hc)
    rw [if_neg hco] at hsanity
    rw [show h'.sanityCheck c = (headerAt h' c).sanityCheck from rfl, hsanity]
    split_ifs <;> rfl

/-- The part of `kmalloc` after the split. -/
def unlinkBlock (h : Heap) (curr req : ℕ) : Heap :=
  let h := linkNext h (h.prev curr) (h.next curr)
  let h := linkPrev h (h.next curr) (h.prev curr)
  (h.setSize curr req).setSanityCheck curr (curr + 16)

/-- Taking a block out of the list. -/
theorem unlinkBlock_spec (hF : FreeList h (A ++ b :: B)) (hreq : req < 4294967296)
    (hfits : b.addr + 16 < 4294967296) :
    FreeList (unlinkBlock h b.addr req) (A ++ B) ∧
      (unlinkBlock h b.addr req).size b.addr = req ∧
      (unlinkBlock h b.addr req).sanityCheck b.addr = b.addr + 16 ∧
      Unchanged (A ++ b :: B) (· = b.addr) h (unlinkBlock h b.addr req) := by
  have hb : Slot b.addr := hF.slots b (by simp)
  have hAslot : ∀ a ∈ A, Slot a.addr := fun a ha => hF.slots a (by simp [ha])
  have hBslot : ∀ a ∈ B, Slot a.addr := fun a ha => hF.slots a (by simp [ha])
  obtain ⟨hprev, hnext⟩ := hF.pointers
  obtain ⟨hbA, hbB, hAB⟩ := hF.distinct
  have hAptr := lastPtr_slot hAslot
  have hBptr := firstPtr_slot hBslot
  have hbA' : b.addr ≠ lastPtr A := fun heq => hbA (lastPtr_mem hb.ne_zero heq)
  have hbB' : b.addr ≠ firstPtr B := fun heq => hbB (firstPtr_mem hb.ne_zero heq)
  obtain ⟨h1, hh1⟩ : ∃ h1, linkNext h (lastPtr A) (firstPtr B) = h1 := ⟨_, rfl⟩
  have hheader1 : ∀ c, Slot c → headerAt h1 c =
      if c = lastPtr A then { headerAt h c with next := firstPtr B } else headerAt h c := by
    intro c hc
    rw [← hh1]
    exact headerAt_linkNext hAptr hc (ptr_lt hBptr)
  have hb1 : headerAt h1 b.addr = headerAt h b.addr := by
    rw [hheader1 _ hb, if_neg hbA']
  obtain ⟨h', hh'⟩ : ∃ h', ((linkPrev h1 (firstPtr B) (lastPtr A)).setSize b.addr req).setSanityCheck
    b.addr (b.addr + 16) = h' := ⟨_, rfl⟩
  have hunlink : unlinkBlock h b.addr req = h' := by
    unfold unlinkBlock
    dsimp only
    rw [hprev, hnext, hh1, show h1.next b.addr = firstPtr B from
      (congrArg Header.next hb1).trans hnext, show h1.prev b.addr = lastPtr A from
      (congrArg Header.prev hb1).trans hprev, hh']
  have hheader : ∀ c, Slot c → headerAt h' c =
      if c = b.addr then { headerAt h c with size := req, sanityCheck := b.addr + 16 }
      else if c = firstPtr B then { headerAt h c with prev := lastPtr A }
      else if c = lastPtr A then { headerAt h c with next := firstPtr B }
      else headerAt h c := by
    intro c hc
    rw [← hh', headerAt_setSanityCheck hb hc hfits, headerAt_setSize hb hc hreq,
      headerAt_linkPrev hBptr hc (ptr_lt hAptr), hheader1 c hc]
    by_cases hcb : c = b.addr
    · have hcB : c ≠ firstPtr B := fun heq => hbB' (hcb.symm.trans heq)
      have hcA : c ≠ lastPtr A := fun heq => hbA' (hcb.symm.trans heq)
      simp only [if_pos hcb, if_neg hcB, if_neg hcA]
    · by_cases hcB : c = firstPtr B
      · have hcA : c ≠ lastPtr A := fun heq =>
          hAB c (lastPtr_mem hc.ne_zero heq) (firstPtr_mem hc.ne_zero hcB)
        simp only [if_neg hcb, if_pos hcB, if_neg hcA]
      · simp only [if_neg hcb, if_neg hcB]
  have hb' : headerAt h' b.addr = { headerAt h b.addr with size := req, sanityCheck := b.addr + 16 } := by
    rw [hheader _ hb, if_pos rfl]
  have hhead : h'.gFreeList = if A = [] then firstPtr B else h.gFreeList := by
    have hlink : (linkPrev h1 (firstPtr B) (lastPtr A)).gFreeList = h1.gFreeList := by
      unfold linkPrev
      split_ifs <;> rfl
    rw [← hh', show (((linkPrev h1 (firstPtr B) (lastPtr A)).setSize b.addr req).setSanityCheck b.addr
      (b.addr + 16)).gFreeList = (linkPrev h1 (firstPtr B) (lastPtr A)).gFreeList from rfl, hlink,
      ← hh1]
    unfold linkNext
    by_cases hnil : A = []
    · rw [if_pos hnil, hnil]
      rfl
    · have hlast : lastPtr A ≠ 0 := by
        obtain ⟨A', a, rfl⟩ := (List.eq_nil_or_concat A).resolve_left hnil
        have ha := (hAslot a (by simp)).ne_zero
        simpa [lastPtr, ptrOf] using ha
      rw [if_neg hnil, if_pos hlast]
      rfl
  have hlist : FreeList h' (A ++ [] ++ B) := by
    apply FreeList.replace (L := [b]) (by rwa [List.append_assoc])
    · simp
    · have hnd := hF.nodup
      rw [addrs_append, addrs_cons] at hnd
      rw [List.append_nil, addrs_append]
      exact hnd.sublist ((List.Sublist.refl _).append (List.sublist_cons_self _ _))
    · exact hhead
    · intro a ha
      have haA := mem_addrs_of_mem ha
      have ha0 := (hAslot a ha).ne_zero
      rw [hheader _ (hAslot a ha), if_neg (ne_of_mem_of_not_mem haA hbA),
        if_neg (fun heq => hAB _ haA (firstPtr_mem ha0 heq))]
      rfl
    · intro d hd
      have hdB := mem_addrs_of_mem hd
      have hd0 := (hBslot d hd).ne_zero
      rw [hheader _ (hBslot d hd), if_neg (ne_of_mem_of_not_mem hdB hbB), List.append_nil]
      by_cases hfirst : d.addr = firstPtr B
      · rw [if_pos hfirst, if_pos hfirst]
      · rw [if_neg hfirst, if_neg hfirst, if_neg (fun heq => hAB _ (lastPtr_mem hd0 heq) hdB)]
    · trivial
    · simp
  rw [hunlink]
  refine ⟨by simpa using hlist, congrArg Header.size hb', congrArg Header.sanityCheck hb', ?_⟩
  constructor
  · rw [← hh', ← hh1]
    unfold linkPrev linkNext
    split_ifs <;> rfl
  · intro c hc hout hcb
    rw [addrs_append, addrs_cons, List.mem_append, List.mem_cons, not_or, not_or] at hout
    obtain ⟨hcA, -, hcB⟩ := hout
    rw [hheader c hc, if_neg hcb, if_neg (fun heq => hcB (firstPtr_mem hc.ne_zero heq)),
      if_neg (fun heq => hcA (lastPtr_mem hc.ne_zero heq))]
  · intro c hc hcb
    have hsanity := congrArg Header.sanityCheck (hheader c hc)
    rw [if_neg hcb] at hsanity
    rw [show h'.sanityCheck c = (headerAt h' c).sanityCheck from rfl, hsanity]
    split_ifs <;> rfl

theorem Unchanged.trans {F G : List Block} {P Q : ℕ → Prop} {h h' h'' : Heap}
    (h1 : Unchanged F P h h') (h2 : Unchanged G Q h' h'')
    (hG : ∀ x ∈ addrs G, x ∈ addrs F ∨ P x) : Unchanged F (fun c => P c ∨ Q c) h h'' := by
  constructor
  · rw [h2.image, h1.image]
  · intro c hc hout hplaces
    rw [not_or] at hplaces
    have houtG : c ∉ addrs G := fun hmem => (hG c hmem).elim hout hplaces.1
    rw [h2.outside c hc houtG hplaces.2, h1.outside c hc hout hplaces.1]
  · intro c hc hplaces
    rw [not_or] at hplaces
    rw [h2.sanity c hc hplaces.2, h1.sanity c hc hplaces.1]

/-- What remains of a block when its beginning is taken. -/
def restOf (b : Block) (req : ℕ) : List Block :=
  if b.size = req then [] else [⟨b.addr + req, b.size - req⟩]

/-- Taking the beginning of a block out of the list. -/
theorem takeBlock_spec (hF : FreeList h (A ++ b :: B)) (hpos : 0 < req) (hreq : req ≤ b.size)
    (hreq16 : req % 16 = 0) (hfits : b.addr + b.size < 4294967296) (hmin : 16 ≤ req)
    (hfresh : req < b.size → Slot (b.addr + req) ∧ b.addr + req ∉ addrs (A ++ b :: B)) :
    ∃ h', h.takeBlock b.addr req = some (b.addr + 16, h') ∧
      FreeList h' (A ++ restOf b req ++ B) ∧ h'.size b.addr = req ∧
      h'.sanityCheck b.addr = b.addr + 16 ∧
      (req < b.size → h'.sanityCheck (b.addr + req) = 0) ∧
      Unchanged (A ++ b :: B) (fun c => (req < b.size ∧ c = b.addr + req) ∨ c = b.addr) h h' := by
  have hb : Slot b.addr := hF.slots b (by simp)
  have hb16 := hb.aligned
  obtain ⟨h1, c, hsplit, hc, hlist1, hsanity1, hsame1⟩ : ∃ h1 c,
      h.splitFreeBlock b.addr req = some h1 ∧ c = (⟨b.addr, req⟩ : Block) ∧
      FreeList h1 (A ++ c :: (restOf b req ++ B)) ∧
      (req < b.size → h1.sanityCheck (b.addr + req) = 0) ∧
      Unchanged (A ++ b :: B) (fun c => req < b.size ∧ c = b.addr + req) h h1 := by
    rcases Nat.eq_or_lt_of_le hreq with heq | hlt
    · refine ⟨h, _, ?_, rfl, ?_, fun hlt => absurd hlt (by omega), ⟨rfl, fun _ _ _ _ => rfl,
        fun _ _ _ => rfl⟩⟩
      · have hsize := hF.sizes b (by simp)
        unfold Heap.splitFreeBlock
        rw [cAssert_pos hb.ne_zero, Option.bind_eq_bind, Option.bind_some, hsize,
          cAssert_pos hreq, Option.bind_some, if_pos heq.symm]
      · unfold restOf
        rw [if_pos heq.symm, heq]
        exact hF
    · obtain ⟨ho, hfree⟩ := hfresh hlt
      obtain ⟨h1, hsplit, hlist, hsanity, hsame⟩ :=
        splitFreeBlock_spec hF hpos hlt hfits ho hfree
      refine ⟨h1, _, hsplit, rfl, ?_, fun _ => hsanity, ⟨hsame.image, ?_, ?_⟩⟩
      · unfold restOf
        rw [if_neg (by omega)]
        exact hlist
      · intro c hc hout hplace
        exact hsame.outside c hc hout (fun heq => hplace ⟨hlt, heq⟩)
      · intro c hc hplace
        exact hsame.sanity c hc (fun heq => hplace ⟨hlt, heq⟩)
  have hdata : b.addr + 16 < 4294967296 := lt_of_le_of_lt (Nat.add_le_add_left (hmin.trans hreq) _)
    hfits
  obtain ⟨hlist2, hsize2, hsanity2, hsame2⟩ : FreeList (unlinkBlock h1 c.addr req)
      (A ++ (restOf b req ++ B)) ∧ _ := unlinkBlock_spec hlist1 (by omega) (by rw [hc]; exact hdata)
  rw [hc] at hsize2 hsanity2 hsame2 hlist2
  dsimp only at hsize2 hsanity2 hsame2 hlist2
  refine ⟨unlinkBlock h1 b.addr req, ?_, by rwa [List.append_assoc], hsize2, hsanity2, ?_, ?_⟩
  · unfold Heap.takeBlock
    rw [hsplit, Option.bind_eq_bind, Option.bind_some]
    dsimp only
    rw [show (b.addr + sizeofMemoryHeader) % 4294967296 = b.addr + 16 from
      Nat.mod_eq_of_lt (by rw [show sizeofMemoryHeader = 16 from rfl]; omega),
      cAssert_pos (by omega)]
    rfl
  · intro hlt
    have ho := (hfresh hlt).1
    rw [hsame2.sanity _ ho (by omega)]
    exact hsanity1 hlt
  · apply hsame1.trans hsame2
    intro x hx
    simp only [addrs_append, addrs_cons, List.mem_append, List.mem_cons] at hx ⊢
    rcases hx with hx | hx | hx | hx
    · exact .inl (.inl hx)
    · exact .inl (.inr (.inl hx))
    · unfold restOf at hx
      split_ifs at hx with heq
      · simp at hx
      · right
        exact ⟨by omega, by simpa using hx⟩
    · exact .inl (.inr (.inr hx))

/-- The part of `kfree` that links the block between its neighbours. -/
def linkBlock (h : Heap) (prev curr toFree : ℕ) : Heap :=
  let h := linkNext h prev toFree
  linkPrev ((h.setPrev toFree prev).setNext toFree curr) curr toFree

/-- Linking a block into the list. -/
theorem linkBlock_spec (hF : FreeList h (A ++ B)) (ht : Slot t.addr)
    (hfresh : t.addr ∉ addrs (A ++ B)) (hsize : h.size t.addr = t.size) :
    FreeList (linkBlock h (lastPtr A) (firstPtr B) t.addr) (A ++ t :: B) ∧
      (linkBlock h (lastPtr A) (firstPtr B) t.addr).sanityCheck t.addr = h.sanityCheck t.addr ∧
      Unchanged (A ++ B) (· = t.addr) h (linkBlock h (lastPtr A) (firstPtr B) t.addr) := by
  have hAslot : ∀ a ∈ A, Slot a.addr := fun a ha => hF.slots a (by simp [ha])
  have hBslot : ∀ a ∈ B, Slot a.addr := fun a ha => hF.slots a (by simp [ha])
  have hAptr := lastPtr_slot hAslot
  have hBptr := firstPtr_slot hBslot
  have htlt : t.addr < 4294967296 := ptr_lt (.inr ht)
  have hnd := hF.nodup
  rw [addrs_append] at hfresh hnd
  obtain ⟨hndA, hndB, hAB⟩ := List.nodup_append.mp hnd
  rw [List.mem_append, not_or] at hfresh
  obtain ⟨htA, htB⟩ := hfresh
  have htA' : t.addr ≠ lastPtr A := fun heq => htA (lastPtr_mem ht.ne_zero heq)
  have htB' : t.addr ≠ firstPtr B := fun heq => htB (firstPtr_mem ht.ne_zero heq)
  obtain ⟨h', hh'⟩ : ∃ h', linkBlock h (lastPtr A) (firstPtr B) t.addr = h' := ⟨_, rfl⟩
  have hheader : ∀ c, Slot c → headerAt h' c =
      if c = t.addr then { headerAt h c with prev := lastPtr A, next := firstPtr B }
      else if c = firstPtr B then { headerAt h c with prev := t.addr }
      else if c = lastPtr A then { headerAt h c with next := t.addr }
      else headerAt h c := by
    intro c hc
    rw [← hh', linkBlock, headerAt_linkPrev hBptr hc htlt, headerAt_setNext ht hc (ptr_lt hBptr),
      headerAt_setPrev ht hc (ptr_lt hAptr), headerAt_linkNext hAptr hc htlt]
    by_cases hct : c = t.addr
    · have hcB : c ≠ firstPtr B := fun heq => htB' (hct.symm.trans heq)
      have hcA : c ≠ lastPtr A := fun heq => htA' (hct.symm.trans heq)
      simp only [if_pos hct, if_neg hcB, if_neg hcA]
    · by_cases hcB : c = firstPtr B
      · have hcA : c ≠ lastPtr A := fun heq =>
          hAB c (lastPtr_mem hc.ne_zero heq) c (firstPtr_mem hc.ne_zero hcB) rfl
        simp only [if_neg hct, if_pos hcB, if_neg hcA]
      · simp only [if_neg hct, if_neg hcB]
  have ht' : headerAt h' t.addr = { headerAt h t.addr with prev := lastPtr A, next := firstPtr B } := by
    rw [hheader _ ht, if_pos rfl]
  have hhead : h'.gFreeList = if A = [] then t.addr else h.gFreeList := by
    have hlink : h'.gFreeList = (linkNext h (lastPtr A) t.addr).gFreeList := by
      rw [← hh']
      unfold linkBlock linkPrev
      split_ifs <;> rfl
    rw [hlink]
    unfold linkNext
    by_cases hnil : A = []
    · rw [if_pos hnil, hnil]
      rfl
    · have hlast : lastPtr A ≠ 0 := by
        obtain ⟨A', a, rfl⟩ := (List.eq_nil_or_concat A).resolve_left hnil
        have ha := (hAslot a (by simp)).ne_zero
        simpa [lastPtr, ptrOf] using ha
      rw [if_neg hnil, if_pos hlast]
      rfl
  have hlist : FreeList h' (A ++ [t] ++ B) := by
    apply FreeList.replace (L := []) (by rwa [List.append_nil])
    · intro d hd
      rw [List.mem_singleton.mp hd]
      exact ht
    · rw [List.append_assoc, List.singleton_append, addrs_append, addrs_cons, List.nodup_append]
      refine ⟨hndA, List.nodup_cons.mpr ⟨htB, hndB⟩, ?_⟩
      rintro x hx y hy rfl
      rcases List.mem_cons.mp hy with rfl | hy
      · exact htA hx
      · exact hAB x hx x hy rfl
    · exact hhead
    · intro a ha
      have haA := mem_addrs_of_mem ha
      have ha0 := (hAslot a ha).ne_zero
      rw [hheader _ (hAslot a ha), if_neg (ne_of_mem_of_not_mem haA htA),
        if_neg (fun heq => hAB _ haA _ (firstPtr_mem ha0 heq) rfl)]
      rfl
    · intro d hd
      have hdB := mem_addrs_of_mem hd
      have hd0 := (hBslot d hd).ne_zero
      have hlast : lastPtr (A ++ [t]) = t.addr := by simp [lastPtr, ptrOf]
      rw [hheader _ (hBslot d hd), if_neg (ne_of_mem_of_not_mem hdB htB), hlast]
      by_cases hfirst : d.addr = firstPtr B
      · rw [if_pos hfirst, if_pos hfirst]
      · rw [if_neg hfirst, if_neg hfirst, if_neg (fun heq => hAB _ (lastPtr_mem hd0 heq) _ hdB rfl)]
    · have hprevt : h'.prev t.addr = lastPtr A := congrArg Header.prev ht'
      have hnextt : h'.next t.addr = firstPtr B := congrArg Header.next ht'
      refine ⟨?_, ?_, trivial⟩
      · exact (congrArg link hprevt).trans (link_lastPtr hAslot)
      · exact (congrArg link hnextt).trans (link_firstPtr hBslot)
    · intro d hd
      rw [List.mem_singleton.mp hd]
      exact (congrArg Header.size ht').trans hsize
  rw [hh']
  refine ⟨by simpa using hlist, congrArg Header.sanityCheck ht', ?_⟩
  constructor
  · rw [← hh']
    unfold linkBlock linkPrev linkNext
    split_ifs <;> rfl
  · intro c hc hout hct
    rw [addrs_append, List.mem_append, not_or] at hout
    rw [hheader c hc, if_neg hct, if_neg (fun heq => hout.2 (firstPtr_mem hc.ne_zero heq)),
      if_neg (fun heq => hout.1 (lastPtr_mem hc.ne_zero heq))]
  · intro c hc hct
    have hsanity := congrArg Header.sanityCheck (hheader c hc)
    rw [if_neg hct] at hsanity
    rw [show h'.sanityCheck c = (headerAt h' c).sanityCheck from rfl, hsanity]
    split_ifs <;> rfl

/-- Merging a block with the one after it, if they touch. -/
theorem coalesceBlocks_spec (hF : FreeList h (A ++ b :: B))
    (hfits : ∀ c ∈ b :: B, c.limit < 4294967296) :
    FreeList (h.coalesceBlocks b.addr (firstPtr B)) (A ++ joinBlock b B) ∧
      Unchanged (A ++ b :: B) (fun _ => False) h (h.coalesceBlocks b.addr (firstPtr B)) := by
  have hb : Slot b.addr := hF.slots b (by simp)
  cases B with
  | nil =>
    have hrun : h.coalesceBlocks b.addr (firstPtr []) = h := by
      unfold Heap.coalesceBlocks
      exact if_pos (.inr rfl)
    rw [hrun]
    exact ⟨hF, rfl, fun _ _ _ _ => rfl, fun _ _ _ => rfl⟩
  | cons c B =>
    have hc : Slot c.addr := hF.slots c (by simp)
    have hbsize := hF.sizes b (by simp)
    have hcsize := hF.sizes c (by simp)
    have hblt := hfits b (by simp)
    have hclt := hfits c (by simp)
    have hrun : h.coalesceBlocks b.addr (firstPtr (c :: B)) =
        if b.limit = c.addr then
          (linkPrev (h.setNext b.addr (h.next c.addr))
            ((h.setNext b.addr (h.next c.addr)).next b.addr) b.addr).setSize b.addr
              (((linkPrev (h.setNext b.addr (h.next c.addr))
                ((h.setNext b.addr (h.next c.addr)).next b.addr) b.addr).size b.addr +
              (linkPrev (h.setNext b.addr (h.next c.addr))
                ((h.setNext b.addr (h.next c.addr)).next b.addr) b.addr).size c.addr) % 4294967296)
        else h := by
      have hptr : firstPtr (c :: B) = c.addr := rfl
      unfold Heap.coalesceBlocks
      rw [hptr, if_neg (not_or.mpr ⟨hb.ne_zero, hc.ne_zero⟩), hbsize,
        show (b.addr + b.size) % 4294967296 = b.limit from Nat.mod_eq_of_lt hblt]
      rfl
    rw [hrun, joinBlock_cons]
    split_ifs with htouch
    · have hAslot : ∀ a ∈ A, Slot a.addr := fun a ha => hF.slots a (by simp [ha])
      have hBslot : ∀ a ∈ B, Slot a.addr := fun a ha => hF.slots a (by simp [ha])
      obtain ⟨hbA, hbcB, hAcB⟩ := hF.distinct
      rw [addrs_cons, List.mem_cons, not_or] at hbcB
      obtain ⟨hbc, hbB⟩ := hbcB
      have hF' : FreeList h ((A ++ [b]) ++ c :: B) := by rwa [List.append_assoc]
      obtain ⟨-, hcnext⟩ := hF'.pointers
      obtain ⟨hcA, hcB, -⟩ := hF'.distinct
      have hBptr := firstPtr_slot hBslot
      have hblt' : b.addr < 4294967296 := ptr_lt (.inr hb)
      have hbB' : b.addr ≠ firstPtr B := fun heq => hbB (firstPtr_mem hb.ne_zero heq)
      have hcB' : c.addr ≠ firstPtr B := fun heq => hcB (firstPtr_mem hc.ne_zero heq)
      have hsum : b.size + c.size < 4294967296 := by
        unfold Block.limit at hclt htouch
        omega
      rw [hcnext]
      have hnext1 : (h.setNext b.addr (firstPtr B)).next b.addr = firstPtr B := by
        have hheader := headerAt_setNext (h := h) hb hb (ptr_lt hBptr)
        rw [if_pos rfl] at hheader
        exact congrArg Header.next hheader
      rw [hnext1]
      obtain ⟨h1, hh1⟩ : ∃ h1, linkPrev (h.setNext b.addr (firstPtr B)) (firstPtr B) b.addr = h1 :=
        ⟨_, rfl⟩
      have hheader1 : ∀ x, Slot x → headerAt h1 x =
          if x = b.addr then { headerAt h x with next := firstPtr B }
          else if x = firstPtr B then { headerAt h x with prev := b.addr }
          else headerAt h x := by
        intro x hx
        rw [← hh1, headerAt_linkPrev hBptr hx hblt', headerAt_setNext hb hx (ptr_lt hBptr)]
        by_cases hxb : x = b.addr
        · have hxB : x ≠ firstPtr B := fun heq => hbB' (hxb.symm.trans heq)
          simp only [if_pos hxb, if_neg hxB]
        · simp only [if_neg hxb]
      have hsizeb : h1.size b.addr = b.size := by
        have hheader := hheader1 _ hb
        rw [if_pos rfl] at hheader
        exact (congrArg Header.size hheader).trans hbsize
      have hsizec : h1.size c.addr = c.size := by
        have hheader := hheader1 _ hc
        rw [if_neg (Ne.symm hbc), if_neg hcB'] at hheader
        exact (congrArg Header.size hheader).trans hcsize
      rw [hh1, hsizeb, hsizec, Nat.mod_eq_of_lt hsum]
      obtain ⟨h', hh'⟩ : ∃ h', h1.setSize b.addr (b.size + c.size) = h' := ⟨_, rfl⟩
      have hheader : ∀ x, Slot x → headerAt h' x =
          if x = b.addr then { headerAt h x with size := b.size + c.size, next := firstPtr B }
          else if x = firstPtr B then { headerAt h x with prev := b.addr }
          else headerAt h x := by
        intro x hx
        rw [← hh', headerAt_setSize hb hx hsum, hheader1 x hx]
        by_cases hxb : x = b.addr
        · simp only [if_pos hxb]
        · simp only [if_neg hxb]
      have hb' : headerAt h' b.addr =
          { headerAt h b.addr with size := b.size + c.size, next := firstPtr B } := by
        rw [hheader _ hb, if_pos rfl]
      have hhead : h'.gFreeList = h.gFreeList := by
        rw [← hh', ← hh1]
        unfold linkPrev
        split_ifs <;> rfl
      have hlist : FreeList h' (A ++ [⟨b.addr, b.size + c.size⟩] ++ B) := by
        apply FreeList.replace (L := [b, c]) (by rwa [List.append_assoc])
        · intro d hd
          rw [List.mem_singleton.mp hd]
          exact hb
        · have hnd := hF.nodup
          simp only [addrs_append, addrs_cons, List.append_assoc, List.cons_append,
            List.nil_append] at hnd ⊢
          exact hnd.sublist ((List.Sublist.refl _).append
            ((List.sublist_cons_self _ _).cons_cons _))
        · rw [hhead]
          split_ifs with hnil
          · rw [hF.gFreeList_eq, hnil]
            rfl
          · rfl
        · intro a ha
          have haA := mem_addrs_of_mem ha
          have ha0 := (hAslot a ha).ne_zero
          rw [hheader _ (hAslot a ha), if_neg (ne_of_mem_of_not_mem haA hbA),
            if_neg (fun heq => hAcB _ haA (List.mem_cons_of_mem _ (firstPtr_mem ha0 heq)))]
          split_ifs with hlast
          · have hnext' := hF.next_last ha0 hlast
            ext
            · rfl
            · rfl
            · exact hnext'
            · rfl
          · rfl
        · intro d hd
          have hdB := mem_addrs_of_mem hd
          have hlast : lastPtr (A ++ [⟨b.addr, b.size + c.size⟩]) = b.addr := by
            simp [lastPtr, ptrOf]
          rw [hheader _ (hBslot d hd), if_neg (ne_of_mem_of_not_mem hdB hbB), hlast]
        · have hprevb : h'.prev b.addr = lastPtr A :=
            (congrArg Header.prev hb').trans hF.pointers.1
          have hnextb : h'.next b.addr = firstPtr B := congrArg Header.next hb'
          refine ⟨?_, ?_, trivial⟩
          · exact (congrArg link hprevb).trans (link_lastPtr hAslot)
          · exact (congrArg link hnextb).trans (link_firstPtr hBslot)
        · intro d hd
          rw [List.mem_singleton.mp hd]
          exact congrArg Header.size hb'
      rw [hh']
      refine ⟨by simpa using hlist, ?_, ?_, ?_⟩
      · rw [← hh', ← hh1]
        unfold linkPrev
        split_ifs <;> rfl
      · intro x hx hout _
        simp only [addrs_append, addrs_cons, List.mem_append, List.mem_cons, not_or] at hout
        obtain ⟨-, hxb, -, hxB⟩ := hout
        rw [hheader x hx, if_neg hxb, if_neg (fun heq => hxB (firstPtr_mem hx.ne_zero heq))]
      · intro x hx _
        have hsanity := congrArg Header.sanityCheck (hheader x hx)
        rw [show h'.sanityCheck x = (headerAt h' x).sanityCheck from rfl, hsanity]
        split_ifs <;> rfl
    · exact ⟨hF, rfl, fun _ _ _ _ => rfl, fun _ _ _ => rfl⟩

end Operations

end Xeros.Refinement
