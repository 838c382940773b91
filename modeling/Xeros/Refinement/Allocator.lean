import Xeros.Refinement.Allocation

/-!
# The invariant of the memory manager

The two regions around the hole are tiled by the blocks of the free list and the blocks handed out.
No two free blocks touch.  `kmalloc` cuts the beginning off a free block, `kfree` puts a block back
and merges it with its neighbours; both keep the invariant.
-/

set_option autoImplicit false

namespace Xeros.Refinement

open Xeros.Foundations Xeros.Model

/-- The machine and the program in memory: `maxaddr` is what `setsegs` computes, and the program
ends at least 16 bytes below the hole. -/
structure MemoryImage (h : Heap) : Prop where
  maxaddr : h.image.maxaddr = 4194303
  pos : 0 < h.image.freemem
  room : h.image.freemem + 16 ≤ holeStart

/-- Where the lower region starts. -/
def memstart (h : Heap) : ℕ := roundToParagraph h.image.freemem

/-- The two regions that the free list starts with. -/
def InRegions (h : Heap) (x : ℕ) : Prop :=
  (memstart h ≤ x ∧ x < holeStart) ∨ (holeEnd ≤ x ∧ x < h.image.maxaddr)

/-- The memory manager with the free blocks `F` and the live blocks `L`. -/
structure Managed (h : Heap) (F L : List Block) : Prop where
  image : MemoryImage h
  list : FreeList h F
  separated : Separated F
  limits : ∀ f ∈ F, f.limit % 16 = 0 ∨ f.limit = h.image.maxaddr
  headers : ∀ l ∈ L, Slot l.addr ∧ h.size l.addr = l.size ∧ h.sanityCheck l.addr = l.addr + 16
  sizes : ∀ l ∈ L, l.size % 16 = 0 ∧ 32 ≤ l.size
  apart : L.Pairwise Block.Disjoint
  free : ∀ l ∈ L, ∀ f ∈ F, l.Disjoint f
  tiles : ∀ x, InRegions h x ↔ Covers F x ∨ Covers L x

section Invariant

variable {h : Heap} {F L A B : List Block} {b l : Block} {n req : ℕ}

/-- The multiple of 16 not below a number. -/
def paragraphs (n : ℕ) : ℕ := (n + 15) / 16 * 16

theorem roundToParagraph_eq (hn : n + 16 < 4294967296) : roundToParagraph n = paragraphs n := by
  unfold roundToParagraph paragraphs
  split_ifs with hmod <;> omega

theorem inRegions_lt (himage : MemoryImage h) {x : ℕ} (hx : InRegions h x) : x < 4194303 := by
  have hmax := himage.maxaddr
  rcases hx with hx | hx
  · exact lt_trans hx.2 (by decide)
  · omega

theorem Managed.free_limit (hM : Managed h F L) (hb : b ∈ F) : b.limit ≤ 4194303 := by
  have hpos := hM.separated.pos b hb
  have hcovers : Covers F (b.limit - 1) := by
    refine ⟨b, hb, ?_⟩
    unfold Block.Has Block.limit
    omega
  have hlt := inRegions_lt hM.image ((hM.tiles _).mpr (.inl hcovers))
  omega

theorem Managed.live_limit (hM : Managed h F L) (hl : l ∈ L) : l.limit ≤ 4194303 := by
  have hpos := (hM.sizes l hl).2
  have hcovers : Covers L (l.limit - 1) := by
    refine ⟨l, hl, ?_⟩
    unfold Block.Has Block.limit
    omega
  have hlt := inRegions_lt hM.image ((hM.tiles _).mpr (.inr hcovers))
  omega

/-- A live block is not in the free list. -/
theorem Managed.live_not_free (hM : Managed h F L) (hl : l ∈ L) : l.addr ∉ addrs F := by
  intro hmem
  obtain ⟨f, hf, hfl⟩ := exists_of_mem_addrs hmem
  have hposf := hM.separated.pos f hf
  have hposl := (hM.sizes l hl).2
  apply hM.free l hl f hf l.addr
  · unfold Block.Has Block.limit
    omega
  · unfold Block.Has Block.limit
    omega

/-- What an operation leaves alone are in particular the headers of the other live blocks. -/
theorem Managed.headers_kept {places : ℕ → Prop} {h' : Heap} {G : List Block}
    (hM : Managed h F L) (hsame : Unchanged F places h h') (hG : ∀ l ∈ G, l ∈ L)
    (hplaces : ∀ l ∈ G, ¬ places l.addr) :
    ∀ l ∈ G, Slot l.addr ∧ h'.size l.addr = l.size ∧ h'.sanityCheck l.addr = l.addr + 16 := by
  intro l hl
  obtain ⟨hslot, hsize, hsanity⟩ := hM.headers l (hG l hl)
  have hheader := hsame.outside l.addr hslot (hM.live_not_free (hG l hl)) (hplaces l hl)
  exact ⟨hslot, (congrArg Header.size hheader).trans hsize,
    (congrArg Header.sanityCheck hheader).trans hsanity⟩

theorem restOf_covers (hreq : req ≤ b.size) (x : ℕ) :
    b.Has x ↔ (⟨b.addr, req⟩ : Block).Has x ∨ Covers (restOf b req) x := by
  unfold restOf
  split_ifs with heq
  · simp only [covers_nil, or_false]
    unfold Block.Has Block.limit
    dsimp only
    omega
  · rw [covers_cons]
    simp only [covers_nil, or_false]
    unfold Block.Has Block.limit
    dsimp only
    omega

theorem restOf_mem (hreq : req ≤ b.size) {c : Block} (hc : c ∈ restOf b req) :
    c.addr = b.addr + req ∧ c.limit = b.limit ∧ 0 < c.size ∧ req < b.size := by
  unfold restOf at hc
  split_ifs at hc with heq
  · simp at hc
  · rw [List.mem_singleton.mp hc]
    unfold Block.limit
    dsimp only
    omega

theorem restOf_separated (hreq : req ≤ b.size) : Separated (restOf b req) := by
  unfold restOf
  split_ifs with heq
  · exact separated_nil
  · refine separated_cons.mpr ⟨?_, by simp, separated_nil⟩
    dsimp only
    omega

/-- Cutting the beginning off a block. -/
theorem Managed.take (hM : Managed h (A ++ b :: B) L) (hreq16 : req % 16 = 0) (hmin : 32 ≤ req)
    (hreq : req ≤ b.size) :
    ∃ h', h.takeBlock b.addr req = some (b.addr + 16, h') ∧ h'.image = h.image ∧
      Managed h' (A ++ restOf b req ++ B) (⟨b.addr, req⟩ :: L) ∧
      (∀ c ∈ restOf b req, h'.sanityCheck c.addr = 0) ∧
      ∀ c ∈ A ++ B, h'.sanityCheck c.addr = h.sanityCheck c.addr := by
  have hbF : b ∈ A ++ b :: B := by simp
  have hlim := hM.free_limit hbF
  have hslot := hM.list.slots b hbF
  have haligned := hslot.aligned
  obtain ⟨hsepA, hsepbB, hAb⟩ := separated_append.mp hM.separated
  obtain ⟨hbpos, hbB, hsepB⟩ := separated_cons.mp hsepbB
  have hfits : b.addr + b.size < 4294967296 := lt_of_le_of_lt hlim (by decide)
  have hfresh : req < b.size → Slot (b.addr + req) ∧ b.addr + req ∉ addrs (A ++ b :: B) := by
    intro hlt
    refine ⟨⟨by omega, by omega, ?_⟩, ?_⟩
    · unfold Block.limit at hlim
      omega
    · intro hmem
      obtain ⟨c, hc, hcaddr⟩ := exists_of_mem_addrs hmem
      unfold Block.limit at hAb hbB
      rcases List.mem_append.mp hc with hc | hc
      · have hgap := hAb c hc b List.mem_cons_self
        omega
      · rcases List.mem_cons.mp hc with rfl | hc
        · omega
        · have hgap := hbB c hc
          omega
  obtain ⟨h', hrun, hlist, hsize, hsanity, hrest, hsame⟩ := takeBlock_spec hM.list (by omega) hreq
    hreq16 hfits (by omega) hfresh
  have himage : MemoryImage h' := by
    obtain ⟨h1, h2, h3⟩ := hM.image
    constructor <;> rw [hsame.image] <;> assumption
  have hlive : ∀ l ∈ L, l.Disjoint b := fun l hl => hM.free l hl b hbF
  have hlivepos : ∀ l ∈ L, l.Has l.addr := by
    intro l hl
    have hpos := (hM.sizes l hl).2
    unfold Block.Has Block.limit
    omega
  have hnotin : ∀ l ∈ L, ¬ ((req < b.size ∧ l.addr = b.addr + req) ∨ l.addr = b.addr) := by
    rintro l hl (⟨hlt, heq⟩ | heq)
    · apply hlive l hl l.addr (hlivepos l hl)
      unfold Block.Has Block.limit
      omega
    · apply hlive l hl l.addr (hlivepos l hl)
      unfold Block.Has Block.limit
      omega
  have hsub : ∀ x, (⟨b.addr, req⟩ : Block).Has x → b.Has x :=
    fun x hx => (restOf_covers hreq x).mpr (.inl hx)
  have hsubrest : ∀ c ∈ restOf b req, ∀ x, c.Has x → b.Has x :=
    fun c hc x hx => (restOf_covers hreq x).mpr (.inr ⟨c, hc, hx⟩)
  refine ⟨h', hrun, hsame.image, ⟨himage, hlist, ?_, ?_, ?_, ?_, ?_, ?_, ?_⟩, ?_, ?_⟩
  · refine separated_append.mpr ⟨separated_append.mpr ⟨hsepA, restOf_separated hreq, ?_⟩, hsepB, ?_⟩
    · intro a ha c hc
      have hgap := hAb a ha b List.mem_cons_self
      have haddr := (restOf_mem hreq hc).1
      omega
    · intro a ha c hc
      rcases List.mem_append.mp ha with ha | ha
      · exact hAb a ha c (List.mem_cons_of_mem b hc)
      · rw [(restOf_mem hreq ha).2.1]
        exact hbB c hc
  · intro c hc
    rw [hsame.image]
    simp only [List.mem_append] at hc
    rcases hc with (hc | hc) | hc
    · exact hM.limits c (by simp [hc])
    · rw [(restOf_mem hreq hc).2.1]
      exact hM.limits b hbF
    · exact hM.limits c (by simp [hc])
  · intro l hl
    rcases List.mem_cons.mp hl with rfl | hl
    · exact ⟨hslot, hsize, hsanity⟩
    · exact hM.headers_kept hsame (fun l hl => hl) hnotin l hl
  · intro l hl
    rcases List.mem_cons.mp hl with rfl | hl
    · exact ⟨hreq16, hmin⟩
    · exact hM.sizes l hl
  · refine List.pairwise_cons.mpr ⟨fun l hl x hx hlx => ?_, hM.apart⟩
    exact hlive l hl x hlx (hsub x hx)
  · intro l hl f hf x hlx hfx
    simp only [List.mem_append] at hf
    rcases List.mem_cons.mp hl with rfl | hl
    · have hbx := hsub x hlx
      rcases hf with (hf | hf) | hf
      · exact hM.separated.disjoint f (by simp [hf]) x hbx hfx
      · have haddr := (restOf_mem hreq hf).1
        unfold Block.Has Block.limit at hlx hfx
        dsimp only at hlx
        omega
      · exact hM.separated.disjoint f (by simp [hf]) x hbx hfx
    · rcases hf with (hf | hf) | hf
      · exact hM.free l hl f (by simp [hf]) x hlx hfx
      · exact hlive l hl x hlx (hsubrest f hf x hfx)
      · exact hM.free l hl f (by simp [hf]) x hlx hfx
  · intro x
    have hregions : InRegions h' x ↔ InRegions h x := by
      unfold InRegions memstart
      rw [hsame.image]
    rw [hregions, hM.tiles x]
    simp only [covers_append, covers_cons]
    rw [restOf_covers hreq x]
    generalize (⟨b.addr, req⟩ : Block).Has x = p
    generalize Covers A x = q
    generalize Covers (restOf b req) x = r
    tauto
  · intro c hc
    obtain ⟨haddr, -, -, hlt⟩ := restOf_mem hreq hc
    rw [haddr]
    exact hrest hlt
  · intro c hc
    have hcF : c ∈ A ++ b :: B := by
      rcases List.mem_append.mp hc with hc | hc <;> simp [hc]
    apply hsame.sanity _ (hM.list.slots c hcF)
    rintro (⟨hlt, heq⟩ | heq)
    · exact (hfresh hlt).2 (heq ▸ mem_addrs_of_mem hcF)
    · obtain ⟨hbA, hbB', -⟩ := hM.list.distinct
      rcases List.mem_append.mp hc with hc | hc
      · exact hbA (heq ▸ mem_addrs_of_mem hc)
      · exact hbB' (heq ▸ mem_addrs_of_mem hc)

/-! ## Allocating -/

/-- The first block that is large enough, if there is one. -/
theorem firstFit (F : List Block) (req : ℕ) : (∀ f ∈ F, f.size < req) ∨
    ∃ A b B, F = A ++ b :: B ∧ (∀ a ∈ A, a.size < req) ∧ req ≤ b.size := by
  induction F with
  | nil => exact .inl (by simp)
  | cons f F ih =>
    by_cases hf : req ≤ f.size
    · exact .inr ⟨[], f, F, rfl, by simp, hf⟩
    · rcases ih with hall | ⟨A, b, B, rfl, hA, hb⟩
      · refine .inl fun c hc => ?_
        rcases List.mem_cons.mp hc with rfl | hc
        · omega
        · exact hall c hc
      · refine .inr ⟨f :: A, b, B, rfl, fun c hc => ?_, hb⟩
        rcases List.mem_cons.mp hc with rfl | hc
        · omega
        · exact hA c hc

/-- The size that `kmalloc` looks for. -/
theorem kmalloc_eq_loop (himage : MemoryImage h) (hn0 : n ≠ 0) (hn : n < h.image.maxaddr) :
    h.kmalloc n = loop (h.kmallocRound (paragraphs n + 16)) loopBound h.gFreeList := by
  have hmax := himage.maxaddr
  have hword : toWord h.kmemMaxaddr = h.image.maxaddr := toWord_toInt (by omega)
  have hparagraphs : paragraphs n ≤ n + 15 := by
    unfold paragraphs
    omega
  unfold Heap.kmalloc
  rw [hword, if_neg (not_or.mpr ⟨hn0, by omega⟩), roundToParagraph_eq (by omega),
    Nat.mod_eq_of_lt (by rw [show sizeofMemoryHeader = 16 from rfl]; omega)]

theorem Managed.kmalloc_null (hM : Managed h F L)
    (hnull : n = 0 ∨ h.image.maxaddr ≤ n ∨ ∀ f ∈ F, f.size < paragraphs n + 16) :
    h.kmalloc n = some (0, h) := by
  have hmax := hM.image.maxaddr
  by_cases hrefused : n = 0 ∨ h.image.maxaddr ≤ n
  · have hword : toWord h.kmemMaxaddr = h.image.maxaddr := toWord_toInt (by omega)
    unfold Heap.kmalloc
    rw [hword, if_pos hrefused]
  · rw [not_or] at hrefused
    rw [kmalloc_eq_loop hM.image hrefused.1 (by omega)]
    apply kmallocLoop_none hM.list
    tauto

theorem Managed.kmalloc_take (hM : Managed h (A ++ b :: B) L) (hn0 : n ≠ 0)
    (hn : n < h.image.maxaddr) (hA : ∀ a ∈ A, a.size < paragraphs n + 16)
    (hb : paragraphs n + 16 ≤ b.size) :
    ∃ h', h.kmalloc n = some (b.addr + 16, h') ∧ h'.image = h.image ∧
      Managed h' (A ++ restOf b (paragraphs n + 16) ++ B) (⟨b.addr, paragraphs n + 16⟩ :: L) ∧
      (∀ c ∈ restOf b (paragraphs n + 16), h'.sanityCheck c.addr = 0) ∧
      ∀ c ∈ A ++ B, h'.sanityCheck c.addr = h.sanityCheck c.addr := by
  have hparagraphs : paragraphs n % 16 = 0 ∧ 16 ≤ paragraphs n := by
    unfold paragraphs
    omega
  obtain ⟨h', htake, himage, hM', hrest, hkept⟩ := hM.take (by omega) (by omega) hb
  refine ⟨h', ?_, himage, hM', hrest, hkept⟩
  rw [kmalloc_eq_loop hM.image hn0 hn]
  exact kmallocLoop_some hM.list hA hb htake

/-! ## Freeing -/

theorem Managed.kfree (hM : Managed h F L) (hl : l ∈ L) :
    ∃ A B h', F = A ++ B ∧ (∀ c ∈ A, c.limit ≤ l.addr) ∧ (∀ c ∈ B, l.limit ≤ c.addr) ∧
      h.kfree (l.addr + 16) = some h' ∧ h'.image = h.image ∧
      Managed h' (insertBetween A l B) (L.erase l) ∧
      ∀ c, Slot c → h'.sanityCheck c = h.sanityCheck c := by
  obtain ⟨hslot, hsize, hsanity⟩ := hM.headers l hl
  obtain ⟨hsize16, hsizemin⟩ := hM.sizes l hl
  have hlim := hM.live_limit hl
  have haligned := hslot.aligned
  obtain ⟨A, B, rfl, hA, hB⟩ := hM.separated.split l.addr
  have hAlimit : ∀ c ∈ A, c.limit ≤ l.addr := fun c hc =>
    (hM.free l hl c (by simp [hc])).symm.le (by omega) (hA c hc).le
  have hBlimit : ∀ c ∈ B, l.limit ≤ c.addr := fun c hc =>
    (hM.free l hl c (by simp [hc])).le (hM.separated.pos c (by simp [hc])) (hB c hc)
  have hfits : ∀ c ∈ A ++ l :: B, c.limit < 4294967296 := by
    intro c hc
    have hc' : c.limit ≤ 4194303 := by
      rcases List.mem_append.mp hc with hc | hc
      · exact hM.free_limit (by simp [hc])
      · rcases List.mem_cons.mp hc with rfl | hc
        · exact hlim
        · exact hM.free_limit (by simp [hc])
    omega
  obtain ⟨hlist, hkept, hsame⟩ := insertBlock_spec hM.list hslot (hM.live_not_free hl) hsize hfits
  obtain ⟨h', hh'⟩ : ∃ h', h.insertBlock (lastPtr A) (firstPtr B) l.addr = h' := ⟨_, rfl⟩
  rw [hh'] at hlist hkept hsame
  have hperm : L.Perm (l :: L.erase l) := List.perm_cons_erase hl
  have hpairs : (∀ c ∈ L.erase l, l.Disjoint c) ∧ (L.erase l).Pairwise Block.Disjoint :=
    List.pairwise_cons.mp ((hperm.pairwise_iff fun hab => hab.symm).mp hM.apart)
  have hothers : ∀ c ∈ L.erase l, c ∈ L := fun c hc => List.mem_of_mem_erase hc
  refine ⟨A, B, h', rfl, hAlimit, hBlimit, ?_, hsame.image,
    ⟨?_, hlist, ?_, ?_, ?_, ?_, hpairs.2, ?_, ?_⟩, hkept⟩
  · unfold Heap.kfree
    rw [if_neg (by omega), cAssert_pos (by omega), Option.bind_eq_bind, Option.bind_some]
    dsimp only
    rw [show subWord (l.addr + 16) sizeofMemoryHeader = l.addr by
        rw [subWord_of_le (by unfold Block.limit at hlim; omega)
          (by rw [show sizeofMemoryHeader = 16 from rfl]; omega)]
        exact Nat.add_sub_cancel _ _, hsanity, cAssert_pos rfl, Option.bind_some,
      kfree_search hM.list hA hB]
    exact congrArg some hh'
  · obtain ⟨h1, h2, h3⟩ := hM.image
    constructor <;> rw [hsame.image] <;> assumption
  · exact insertBetween_separated (by omega) hM.separated hAlimit hBlimit
  · intro c hc
    rw [hsame.image]
    rcases limit_insertBetween hc with heq | ⟨d, hd, heq⟩
    · rw [heq]
      left
      unfold Block.limit
      omega
    · rw [heq]
      exact hM.limits d hd
  · apply hM.headers_kept hsame hothers
    intro c hc heq
    have hpos := (hM.sizes c (hothers c hc)).2
    apply hpairs.1 c hc l.addr
    · unfold Block.Has Block.limit
      omega
    · unfold Block.Has Block.limit
      omega
  · exact fun c hc => hM.sizes c (hothers c hc)
  · intro c hc d hd x hcx hdx
    have hcover : Covers (insertBetween A l B) x := ⟨d, hd, hdx⟩
    rw [insertBetween_covers] at hcover
    rcases hcover with ⟨f, hf, hfx⟩ | hlx | ⟨f, hf, hfx⟩
    · exact hM.free c (hothers c hc) f (by simp [hf]) x hcx hfx
    · exact hpairs.1 c hc x hlx hcx
    · exact hM.free c (hothers c hc) f (by simp [hf]) x hcx hfx
  · intro x
    have hregions : InRegions h' x ↔ InRegions h x := by
      unfold InRegions memstart
      rw [hsame.image]
    have hcover : Covers L x ↔ l.Has x ∨ Covers (L.erase l) x := by
      rw [← covers_cons]
      unfold Covers
      simp only [hperm.mem_iff]
    rw [hregions, hM.tiles x, insertBetween_covers, covers_append, hcover]
    generalize Covers A x = p
    generalize Covers B x = q
    generalize Covers (L.erase l) x = r
    tauto

/-! ## Writing to live blocks -/

theorem headerAt_write {c a : ℕ} {v : UInt8} (hc : Slot c) (ha : a < 4294967296)
    (hout : a < c ∨ c + 16 ≤ a) : headerAt { h with mem := store8 h.mem a v } c = headerAt h c := by
  have hfit := hc.fits
  have hword : ∀ j ≤ 12, load32 (store8 h.mem a v) (c + j) = load32 h.mem (c + j) := by
    intro j hj
    apply load32_congr
    intro i hi
    rw [load8_store8, if_neg (by omega)]
  have h0 := hword 0 (by omega)
  rw [Nat.add_zero] at h0
  unfold headerAt Heap.size Heap.prev Heap.next Heap.sanityCheck
  dsimp only
  rw [h0, hword 4 (by omega), hword 8 (by omega), hword 12 (by omega)]

/-- The data of a live block contains no header. -/
theorem Managed.data_out (hM : Managed h F L) (hl : l ∈ L) {a : ℕ} (hlo : l.addr + 16 ≤ a)
    (hhi : a < l.limit) {c : Block} (hc : c ∈ F ∨ c ∈ L) : a < c.addr ∨ c.addr + 16 ≤ a := by
  by_contra hin
  rw [not_or] at hin
  have hl16 := (hM.headers l hl).1.aligned
  have hc16 : c.addr % 16 = 0 ∧ 0 < c.size := by
    rcases hc with hc | hc
    · exact ⟨(hM.list.slots c hc).aligned, hM.separated.pos c hc⟩
    · have hmin := (hM.sizes c hc).2
      exact ⟨(hM.headers c hc).1.aligned, by omega⟩
  have hdisjoint : l.Disjoint c := by
    rcases hc with hc | hc
    · exact hM.free l hl c hc
    · apply hM.apart.forall hl hc
      rintro rfl
      omega
  apply hdisjoint c.addr
  · unfold Block.Has
    omega
  · unfold Block.Has Block.limit
    omega

/-- A program may change the data of a live block. -/
theorem Managed.write (hM : Managed h F L) (hl : l ∈ L) {a : ℕ} (v : UInt8)
    (hlo : l.addr + 16 ≤ a) (hhi : a < l.limit) :
    Managed { h with mem := store8 h.mem a v } F L ∧
      ∀ f ∈ F, ({ h with mem := store8 h.mem a v } : Heap).sanityCheck f.addr =
        h.sanityCheck f.addr := by
  have hlim := hM.live_limit hl
  have hfree : ∀ f ∈ F, headerAt { h with mem := store8 h.mem a v } f.addr = headerAt h f.addr :=
    fun f hf => headerAt_write (hM.list.slots f hf) (by omega) (hM.data_out hl hlo hhi (.inl hf))
  have hlive : ∀ c ∈ L, headerAt { h with mem := store8 h.mem a v } c.addr = headerAt h c.addr :=
    fun c hc => headerAt_write (hM.headers c hc).1 (by omega) (hM.data_out hl hlo hhi (.inr hc))
  refine ⟨⟨?_, ?_, hM.separated, hM.limits, ?_, hM.sizes, hM.apart, hM.free, hM.tiles⟩, ?_⟩
  · exact ⟨hM.image.maxaddr, hM.image.pos, hM.image.room⟩
  · refine ⟨hM.list.slots, hM.list.nodup, hM.list.head, ?_, ?_⟩
    · apply hM.list.seg.congr
      · intro x hx
        obtain ⟨f, hf, rfl⟩ := exists_of_mem_addrs hx
        exact congrArg (fun e => link (Header.next e)) (hfree f hf)
      · intro x hx
        obtain ⟨f, hf, rfl⟩ := exists_of_mem_addrs hx
        exact congrArg (fun e => link (Header.prev e)) (hfree f hf)
    · intro f hf
      exact (congrArg Header.size (hfree f hf)).trans (hM.list.sizes f hf)
  · intro c hc
    obtain ⟨hslot, hsize, hsanity⟩ := hM.headers c hc
    exact ⟨hslot, (congrArg Header.size (hlive c hc)).trans hsize,
      (congrArg Header.sanityCheck (hlive c hc)).trans hsanity⟩
  · intro f hf
    exact congrArg Header.sanityCheck (hfree f hf)

end Invariant

/-! ## The start -/

/-- The two regions around the hole. -/
def initialBlocks (h : Heap) : List Block :=
  [⟨memstart h, holeStart - memstart h⟩, ⟨holeEnd, h.image.maxaddr - holeEnd⟩]

/-- `kmeminit` fails its assertion when the lower region starts at null. -/
theorem memstart_ne_zero {h h' : Heap} (hinit : h.kmeminit = some h') : memstart h ≠ 0 := by
  intro hzero
  have hlength : ∀ k : Heap, k.gFreeList = 0 → k.kmemGetFreeListLength = some 0 := by
    intro k hk
    unfold Heap.kmemGetFreeListLength
    rw [hk]
    exact loop_succ_done _ (if_pos rfl)
  unfold Heap.kmeminit at hinit
  dsimp only at hinit
  rw [Option.bind_eq_bind, hlength _ hzero, Option.bind_some] at hinit
  cases hinit

/-- A program that ends below the hole leaves room for a header. -/
theorem memoryImage_of_kmeminit {h h' : Heap} (hmax : h.image.maxaddr = 4194303)
    (hword : h.image.freemem < 4294967296)
    (hroom : roundToParagraph h.image.freemem + 16 ≤ holeStart)
    (hinit : h.kmeminit = some h') : MemoryImage h := by
  have hne : roundToParagraph h.image.freemem ≠ 0 := memstart_ne_zero hinit
  have hstart : holeStart = 655360 := rfl
  refine ⟨hmax, ?_, ?_⟩
  · apply Nat.pos_of_ne_zero
    intro hzero
    exact hne (by rw [hzero]; rfl)
  · unfold roundToParagraph at hne hroom
    split_ifs at hne hroom with hmod
    · by_cases hwrap : h.image.freemem + 16 < 4294967296
      · rw [Nat.mod_eq_of_lt hwrap] at hne hroom
        omega
      · omega
    · omega

/-- `kmeminit` makes the two regions the free list. -/
theorem kmeminit_managed {h : Heap} (himage : MemoryImage h) :
    ∃ h', h.kmeminit = some h' ∧ h'.image = h.image ∧ Managed h' (initialBlocks h) [] ∧
      ∀ f ∈ initialBlocks h, h'.sanityCheck f.addr = 0 := by
  obtain ⟨hmax, hpos, hroom⟩ := himage
  have hstart : holeStart = 655360 := rfl
  have hend : holeEnd = 1662976 := rfl
  have hmem : memstart h = paragraphs h.image.freemem := roundToParagraph_eq (by omega)
  have hlo : memstart h % 16 = 0 ∧ 16 ≤ memstart h ∧ memstart h + 16 ≤ holeStart := by
    rw [hmem]
    unfold paragraphs
    omega
  have hs1 : Slot (memstart h) := ⟨by omega, hlo.1, by omega⟩
  have hs2 : Slot holeEnd := ⟨by decide, by decide, by decide⟩
  have hne : memstart h ≠ holeEnd := by omega
  obtain ⟨h', hh'⟩ : ∃ h' : Heap, ((((({ (h.setSize holeEnd (h.image.maxaddr - holeEnd)).setSanityCheck
    holeEnd 0 with gFreeList := memstart h }.setSize (memstart h)
      (holeStart - memstart h)).setSanityCheck (memstart h) 0).setPrev (memstart h) 0).setNext
      (memstart h) holeEnd).setPrev holeEnd (memstart h)).setNext holeEnd 0 = h' := ⟨_, rfl⟩
  have hheader : ∀ c, Slot c → headerAt h' c =
      if c = holeEnd then ⟨h.image.maxaddr - holeEnd, memstart h, 0, 0⟩
      else if c = memstart h then ⟨holeStart - memstart h, 0, holeEnd, 0⟩
      else headerAt h c := by
    intro c hc
    have hhead : ∀ k : Heap, headerAt { k with gFreeList := memstart h } c = headerAt k c :=
      fun _ => rfl
    rw [← hh', headerAt_setNext hs2 hc (by decide), headerAt_setPrev hs2 hc (by omega),
      headerAt_setNext hs1 hc (by decide), headerAt_setPrev hs1 hc (by decide),
      headerAt_setSanityCheck hs1 hc (by decide), headerAt_setSize hs1 hc (by omega), hhead,
      headerAt_setSanityCheck hs2 hc (by decide), headerAt_setSize hs2 hc (by omega)]
    by_cases hcE : c = holeEnd
    · have hcM : c ≠ memstart h := fun heq => hne (heq.symm.trans hcE)
      simp only [if_pos hcE, if_neg hcM]
    · by_cases hcM : c = memstart h
      · simp only [if_neg hcE, if_pos hcM]
      · simp only [if_neg hcE, if_neg hcM]
  have hlow : headerAt h' (memstart h) = ⟨holeStart - memstart h, 0, holeEnd, 0⟩ := by
    rw [hheader _ hs1, if_neg hne, if_pos rfl]
  have hhigh : headerAt h' holeEnd = ⟨h.image.maxaddr - holeEnd, memstart h, 0, 0⟩ := by
    rw [hheader _ hs2, if_pos rfl]
  have hlist : FreeList h' (initialBlocks h) := by
    constructor
    · intro f hf
      rcases List.mem_pair.mp hf with rfl | rfl
      · exact hs1
      · exact hs2
    · exact List.nodup_cons.mpr ⟨by simpa using hne, List.nodup_singleton _⟩
    · rw [← hh']
      exact if_neg hs1.ne_zero
    · refine ⟨?_, ?_, ?_, ?_, trivial⟩
      · exact congrArg (fun e => link (Header.prev e)) hlow
      · exact (congrArg (fun e => link (Header.next e)) hlow).trans (if_neg hs2.ne_zero)
      · exact (congrArg (fun e => link (Header.prev e)) hhigh).trans (if_neg hs1.ne_zero)
      · exact congrArg (fun e => link (Header.next e)) hhigh
    · intro f hf
      rcases List.mem_pair.mp hf with rfl | rfl
      · exact congrArg Header.size hlow
      · exact congrArg Header.size hhigh
  have himage : h'.image = h.image := by
    rw [← hh']
    rfl
  refine ⟨h', ?_, himage, ⟨?_, hlist, ?_, ?_, by simp, by simp, List.Pairwise.nil, by simp, ?_⟩, ?_⟩
  · have hsize1 : subWord h.image.maxaddr holeEnd = h.image.maxaddr - holeEnd :=
      subWord_of_le (by omega) (by omega)
    have hsize2 : subWord holeStart (memstart h) = holeStart - memstart h :=
      subWord_of_le (by omega) (by omega)
    have hrun : h.kmeminit = h'.kmemGetFreeListLength.bind fun n =>
        (cAssert (n = 2)).bind fun _ => some h' := by
      rw [← hh', ← hsize1, ← hsize2]
      rfl
    rw [hrun, kmemGetFreeListLength_eq hlist, Option.bind_some,
      cAssert_pos (show (initialBlocks h).length = 2 from rfl), Option.bind_some]
  · constructor <;> rw [himage] <;> assumption
  · refine separated_cons.mpr ⟨by dsimp only; omega, ?_, separated_cons.mpr ⟨?_, by simp,
      separated_nil⟩⟩
    · intro c hc
      rw [List.mem_singleton.mp hc]
      unfold Block.limit
      dsimp only
      omega
    · dsimp only
      omega
  · intro f hf
    rw [himage]
    rcases List.mem_pair.mp hf with rfl | rfl
    · left
      unfold Block.limit
      dsimp only
      omega
    · right
      unfold Block.limit
      dsimp only
      omega
  · intro x
    unfold InRegions initialBlocks
    rw [himage, show memstart h' = memstart h by unfold memstart; rw [himage]]
    simp only [covers_cons, covers_nil, or_false]
    unfold Block.Has Block.limit
    dsimp only
    omega
  · intro f hf
    rcases List.mem_pair.mp hf with rfl | rfl
    · exact congrArg Header.sanityCheck hlow
    · exact congrArg Header.sanityCheck hhigh

end Xeros.Refinement
