import Xeros.Analysis.MemoryCalls

/-!
# The headers of free blocks

`kfree` leaves the sanity check of the block as it is.  A block that is not merged with a free block
below it thus keeps a header that passes for one of an allocated block.

The upper region ends at `maxaddr`, the last address of the memory, so that its size is one less
than a multiple of 16.  Taking all but its last 15 bytes leaves a block that is smaller than its
header.
-/

set_option autoImplicit false

namespace Xeros.Analysis

open Xeros.Foundations Xeros.Model Xeros.Refinement

section Headers

variable {h : Heap} {F L : List Block} {s s' : Clients} {c : MemoryCall} {f : Block}

/-! ## Freeing twice -/

/-- No header of the free list passes the check of `kfree`, which fails before it does anything. -/
def RejectsFree (h : Heap) : Prop :=
  ∀ F, FreeList h F → ∀ f ∈ F, h.sanityCheck f.addr ≠ f.addr + 16 ∧ h.kfree (f.addr + 16) = none

/-- The call frees a block, and a free block ends where that one begins. -/
def FreesMerged (s : Clients) (c : MemoryCall) : Prop :=
  ∀ l ∈ s.live, c = .kfree (l.addr + 16) → ∀ F, FreeList s.heap F → ∃ f ∈ F, f.limit = l.addr

/-- `kfree` fails where the sanity check differs from the pointer. -/
theorem kfree_rejected (hM : Managed h F L) (hf : f ∈ F)
    (hsanity : h.sanityCheck f.addr ≠ f.addr + 16) : h.kfree (f.addr + 16) = none := by
  have hlim := hM.free_limit hf
  have hslot := (hM.list.slots f hf).aligned
  have hsub : subWord (f.addr + 16) sizeofMemoryHeader = f.addr := by
    unfold Block.limit at hlim
    rw [show sizeofMemoryHeader = 16 from rfl, subWord_of_le (by omega) (by omega),
      Nat.add_sub_cancel]
  unfold Heap.kfree
  rw [if_neg (Nat.succ_ne_zero _), cAssert_pos (by omega), Option.bind_eq_bind, Option.bind_some,
    hsub]
  dsimp only
  rw [cAssert_eq_none.mpr hsanity]
  rfl

theorem rejectsFree_iff (hM : Managed h F L) :
    RejectsFree h ↔ ∀ f ∈ F, h.sanityCheck f.addr ≠ f.addr + 16 := by
  constructor
  · intro hrejects f hf
    exact (hrejects F hM.list f hf).1
  · intro hclean G hG f hf
    obtain rfl := hG.unique hM.list
    exact ⟨hclean f hf, kfree_rejected hM hf (hclean f hf)⟩

theorem freesMerged_iff (hM : Managed s.heap F s.live) :
    FreesMerged s c ↔ ∀ l ∈ s.live, c = .kfree (l.addr + 16) → ∃ f ∈ F, f.limit = l.addr := by
  constructor
  · intro hmerged l hl hc
    exact hmerged l hl hc F hM.list
  · intro hmerged l hl hc G hG
    obtain rfl := hG.unique hM.list
    exact hmerged l hl hc

/-- A call keeps the headers of free blocks from passing the check, unless it frees a block without
merging it with one below. -/
theorem step_rejectsFree (hM : Managed s.heap F s.live) (hallowed : s.Allowed c)
    (hstep : s.step c = some s') (hrejects : RejectsFree s.heap) :
    RejectsFree s'.heap ↔ FreesMerged s c := by
  obtain ⟨s1, F', hstep1, -, hM', hchange⟩ := step_change hM hallowed
  rw [hstep] at hstep1
  obtain rfl := Option.some.inj hstep1
  rw [rejectsFree_iff hM', freesMerged_iff hM]
  rw [rejectsFree_iff hM] at hrejects
  cases hchange with
  | same hlive hfree hfull hsanity =>
    constructor
    · intro _ l hl hc
      exact absurd hc (hfree l hl)
    · intro _ f hf
      rw [hsanity f hf]
      exact hrejects f hf
  | taken size A b B hc hF hn0 hn hA hb hlive hrest hsanity =>
    constructor
    · intro _ l hl heq
      rw [hc] at heq
      cases heq
    · intro _ f hf
      have hkept : ∀ g ∈ A ++ B, s'.heap.sanityCheck g.addr ≠ g.addr + 16 := by
        intro g hg
        rw [hsanity g hg]
        apply hrejects g
        rw [hF]
        rcases List.mem_append.mp hg with hg | hg <;> simp [hg]
      simp only [List.mem_append] at hf
      rcases hf with (hf | hf) | hf
      · exact hkept f (by simp [hf])
      · rw [hrest f hf]
        exact (Nat.succ_ne_zero _).symm
      · exact hkept f (by simp [hf])
  | freed l A B hc hl hF hlive hA hB hsanity =>
    have hpos : 0 < l.size := lt_of_lt_of_le (by decide) (hM.sizes l hl).2
    have hsep : Separated (A ++ B) := hF ▸ hM.separated
    have hbegins := insertBetween_begins hpos hsep hA hB
    have hheader := hM.headers l hl
    constructor
    · intro hclean d hd heq
      rw [hc] at heq
      have hdl : d.addr = l.addr := Nat.add_right_cancel (MemoryCall.kfree.inj heq).symm
      by_contra hno
      obtain ⟨g, hg, hgl⟩ := hbegins.mpr fun e he heq => hno ⟨e, hF ▸ he, heq.trans hdl.symm⟩
      apply hclean g hg
      rw [hgl, hsanity l.addr hheader.1, hheader.2.2]
    · intro hmerged g hg
      have hne : g.addr ≠ l.addr := by
        intro hgl
        obtain ⟨e, he, hel⟩ := hmerged l hl hc
        exact hbegins.mp ⟨g, hg, hgl⟩ e (hF ▸ he) hel
      obtain ⟨e, he, hge⟩ := (mem_insertBetween hg).resolve_left hne
      rw [hge, hsanity e.addr (hM.list.slots e (hF ▸ he))]
      exact hrejects e (hF ▸ he)

/-- No free block ends where a live block begins. -/
def Packed (h : Heap) (L : List Block) : Prop :=
  ∀ F, FreeList h F → ∀ l ∈ L, ∀ f ∈ F, f.limit ≠ l.addr

/-- The call does not free a block. -/
def FreesNothing (s : Clients) (c : MemoryCall) : Prop := ∀ l ∈ s.live, c ≠ .kfree (l.addr + 16)

/-- Allocating from the beginning of a free block leaves nothing free below a live block. -/
theorem step_packed (hM : Managed s.heap F s.live) (hallowed : s.Allowed c)
    (hstep : s.step c = some s') (hpacked : Packed s.heap s.live) (hfrees : FreesNothing s c) :
    Packed s'.heap s'.live := by
  obtain ⟨s1, F', hstep1, -, hM', hchange⟩ := step_change hM hallowed
  rw [hstep] at hstep1
  obtain rfl := Option.some.inj hstep1
  intro G hG
  obtain rfl := hG.unique hM'.list
  have hpackedF := hpacked F hM.list
  cases hchange with
  | same hlive hfree hfull hsanity =>
    rw [hlive]
    exact hpackedF
  | taken size A b B hc hF hn0 hn hA hb hlive hrest hsanity =>
    rw [hlive]
    have hbF : b ∈ F := by simp [hF]
    have hsep : Separated (A ++ b :: B) := hF ▸ hM.separated
    obtain ⟨-, hsepB, hAb⟩ := separated_append.mp hsep
    obtain ⟨hpos, hbB, -⟩ := separated_cons.mp hsepB
    intro l hl f hf
    simp only [List.mem_append] at hf
    rcases List.mem_cons.mp hl with rfl | hl
    · rcases hf with (hf | hf) | hf
      · exact (hAb f hf b List.mem_cons_self).ne
      · rw [(restOf_mem hb hf).2.1]
        unfold Block.limit
        dsimp only
        omega
      · have hgap := hbB f hf
        unfold Block.limit at *
        dsimp only
        omega
    · rcases hf with (hf | hf) | hf
      · exact hpackedF l hl f (by simp [hF, hf])
      · rw [(restOf_mem hb hf).2.1]
        exact hpackedF l hl b hbF
      · exact hpackedF l hl f (by simp [hF, hf])
  | freed l A B hc hl hF hlive hA hB hsanity => exact absurd hc (hfrees l hl)

/-! ## Small blocks -/

/-- Every free block is as large as its header. -/
def HeadersFit (h : Heap) : Prop := ∀ F, FreeList h F → ∀ f ∈ F, sizeofMemoryHeader ≤ h.size f.addr

/-- The call leaves exactly 15 bytes of the first free block that is large enough. -/
def LeavesFifteen (s : Clients) (c : MemoryCall) : Prop :=
  ∃ F size b, FreeList s.heap F ∧ c = .kmalloc size ∧ size ≠ 0 ∧
    F.find? (fun f => paragraphs size + 16 ≤ f.size) = some b ∧ b.size = paragraphs size + 16 + 15

/-- Only what is left below `maxaddr` can be smaller than a header. -/
theorem free_size (hM : Managed h F L) (hf : f ∈ F) : 16 ≤ f.size ∨ f.size = 15 := by
  have hpos := hM.separated.pos f hf
  have hslot := (hM.list.slots f hf).aligned
  have hmax := hM.image.maxaddr
  have hlimit := hM.limits f hf
  unfold Block.limit at hlimit
  omega

theorem headersFit_iff (hM : Managed h F L) : HeadersFit h ↔ ∀ f ∈ F, 16 ≤ f.size := by
  constructor
  · intro hfit f hf
    rw [← hM.list.sizes f hf]
    exact hfit F hM.list f hf
  · intro hfit G hG f hf
    obtain rfl := hG.unique hM.list
    rw [hM.list.sizes f hf]
    exact hfit f hf

/-- A call keeps the free blocks as large as their headers, unless it leaves 15 bytes of one. -/
theorem step_headersFit (hM : Managed s.heap F s.live) (hallowed : s.Allowed c)
    (hstep : s.step c = some s') (hfit : HeadersFit s.heap) :
    HeadersFit s'.heap ↔ ¬ LeavesFifteen s c := by
  obtain ⟨s1, F', hstep1, -, hM', hchange⟩ := step_change hM hallowed
  rw [hstep] at hstep1
  obtain rfl := Option.some.inj hstep1
  rw [headersFit_iff hM']
  rw [headersFit_iff hM] at hfit
  cases hchange with
  | same hlive hfree hfull hsanity =>
    refine iff_of_true hfit ?_
    rintro ⟨G, size, b, hG, hc, hn0, hfind, hb⟩
    obtain rfl := hG.unique hM.list
    have hbG : b ∈ G := List.mem_of_find?_eq_some hfind
    have hlim := hM.free_limit hbG
    have hmax := hM.image.maxaddr
    have hparagraphs : size ≤ paragraphs size := by
      unfold paragraphs
      omega
    unfold Block.limit at hlim
    rcases hfull size hc with h0 | hlarge | hsmall
    · exact hn0 h0
    · omega
    · have hlt := hsmall b hbG
      omega
  | taken size A b B hc hF hn0 hn hA hb hlive hrest hsanity =>
    have hfind : F.find? (fun f => paragraphs size + 16 ≤ f.size) = some b := by
      rw [hF, List.find?_eq_some_iff_append]
      refine ⟨by simpa using hb, A, B, rfl, ?_⟩
      intro a ha
      have hlt := hA a ha
      simpa using hlt
    constructor
    · rintro hall ⟨G, size', b', hG, hc', -, hfind', hb'⟩
      obtain rfl := hG.unique hM.list
      obtain rfl := MemoryCall.kmalloc.inj (hc.symm.trans hc')
      rw [hfind] at hfind'
      obtain rfl := Option.some.inj hfind'
      have hmem : (⟨b.addr + (paragraphs size + 16), b.size - (paragraphs size + 16)⟩ : Block) ∈
          restOf b (paragraphs size + 16) := by
        unfold restOf
        rw [if_neg (by omega)]
        exact List.mem_singleton_self _
      have hle := hall _ (List.mem_append_left B (List.mem_append_right A hmem))
      dsimp only at hle
      omega
    · intro hleaves f hf
      rcases free_size hM' hf with hle | h15
      · exact hle
      · exfalso
        simp only [List.mem_append] at hf
        rcases hf with (hf | hf) | hf
        · have hle := hfit f (by simp [hF, hf])
          omega
        · obtain ⟨haddr, hlimit, -⟩ := restOf_mem hb hf
          unfold Block.limit at hlimit
          exact hleaves ⟨F, size, b, hM.list, hc, hn0, hfind, by omega⟩
        · have hle := hfit f (by simp [hF, hf])
          omega
  | freed l A B hc hl hF hlive hA hB hsanity =>
    refine iff_of_true ?_ ?_
    · intro g hg
      obtain ⟨e, he, heg⟩ := size_insertBetween hg
      have hmin := (hM.sizes l hl).2
      have hle : 16 ≤ e.size := by
        rcases List.mem_append.mp he with he | he
        · exact hfit e (by simp [hF, he])
        · rcases List.mem_cons.mp he with rfl | he
          · omega
          · exact hfit e (by simp [hF, he])
      omega
    · rintro ⟨G, size, b, -, hc', -⟩
      rw [hc] at hc'
      cases hc'

end Headers

/-! ## Runs -/

/-- All states up to `n` reject a second `kfree` of the blocks of the free list, exactly if no block
is freed before: the first one that is freed has no free block below it to be merged with. -/
theorem kfree_rejects_iff (r : Use) {n : ℕ} (hn : n ≤ r.len) :
    (∀ k ≤ n, RejectsFree (r.state k).heap) ↔
      ∀ k < n, FreesNothing (r.state k) (r.input k) := by
  refine r.always_iff (P := fun s => RejectsFree s.heap ∧ Packed s.heap s.live)
    (R := fun s => RejectsFree s.heap) hn ⟨?_, ?_⟩ (fun s hs => hs.1) ?_ ?_
  · obtain ⟨-, hM, hsanity⟩ := r.managed_start
    refine (rejectsFree_iff hM).mpr fun f hf => ?_
    rw [hsanity f hf]
    exact (Nat.succ_ne_zero _).symm
  · intro F _ l hl
    rw [r.unused] at hl
    cases hl
  · rintro k hk ⟨hrejects, hpacked⟩ hfrees
    obtain ⟨-, F, hM⟩ := r.managed hk.le
    refine ⟨(step_rejectsFree hM (r.allows k hk) (r.next k hk) hrejects).mpr ?_,
      step_packed hM (r.allows k hk) (r.next k hk) hpacked hfrees⟩
    intro l hl hc
    exact absurd hc (hfrees l hl)
  · rintro k hk ⟨hrejects, hpacked⟩ hrejects' l hl hc
    obtain ⟨-, F, hM⟩ := r.managed hk.le
    have hmerged := (step_rejectsFree hM (r.allows k hk) (r.next k hk) hrejects).mp hrejects'
    obtain ⟨f, hf, hlimit⟩ := hmerged l hl hc F hM.list
    exact hpacked F hM.list l hl f hf hlimit

/-- Two blocks are handed out. -/
theorem kfree_rejects_unfreed : ∃ r : Use, r.len = 2 ∧ RejectsFree (r.state 2).heap := by
  obtain ⟨r, hlen, -, hin, -⟩ := exists_use [.kmalloc 16, .kmalloc 32] (fun _ _ => true)
    (by decide +kernel)
  have hall := (kfree_rejects_iff r (n := 2) (by rw [hlen]; rfl)).mpr ?_
  · exact ⟨r, hlen, hall 2 le_rfl⟩
  · intro k hk l _
    rcases (by omega : k = 0 ∨ k = 1) with rfl | rfl
    · rw [hin 0 _ rfl]
      simp
    · rw [hin 1 _ rfl]
      simp

/-- The first block handed out is freed twice, and is then its own successor in the free list. -/
theorem kfree_twice : ∃ r : Use, r.len = 2 ∧ r.input 1 = .kfree 131088 ∧
    ¬ RejectsFree (r.state 2).heap ∧ ∃ h, (r.state 2).heap.kfree 131088 = some h ∧
      h.gFreeList = 131072 ∧ h.next 131072 = 131072 := by
  obtain ⟨r, hlen, -, hin, htest⟩ := exists_use [.kmalloc 16, .kfree 131088]
    (fun n s => decide (n = 2 → s.heap.gFreeList = 131072 ∧
      (s.heap.kfree 131088).map (fun h => (h.gFreeList, h.next 131072)) = some (131072, 131072)))
    (by decide +kernel)
  obtain ⟨hhead, hagain⟩ := of_decide_eq_true (htest 2 le_rfl) rfl
  obtain ⟨h, hrun, heq⟩ := Option.map_eq_some_iff.mp hagain
  have hfirst : (h.gFreeList, h.next 131072) = (131072, 131072) := heq
  refine ⟨r, hlen, hin 1 _ rfl, ?_, h, hrun, congrArg Prod.fst hfirst, congrArg Prod.snd hfirst⟩
  intro hrejects
  obtain ⟨-, F, hM⟩ := r.managed (n := 2) (by rw [hlen]; rfl)
  have hmem : 131072 ∈ addrs F := by
    apply List.mem_of_mem_head?
    rw [← hM.list.head, hhead]
    rfl
  obtain ⟨f, hf, hfaddr⟩ := exists_of_mem_addrs hmem
  have hnone := (hrejects F hM.list f hf).2
  rw [hfaddr, hrun] at hnone
  cases hnone

/-- All free blocks of all states up to `n` are as large as their headers, exactly if no call before
leaves 15 bytes of a block. -/
theorem headersFit_always_iff (r : Use) {n : ℕ} (hn : n ≤ r.len) :
    (∀ k ≤ n, HeadersFit (r.state k).heap) ↔
      ∀ k < n, ¬ LeavesFifteen (r.state k) (r.input k) := by
  refine r.always_iff (P := fun s => HeadersFit s.heap) (R := fun s => HeadersFit s.heap)
    (C := fun s c => ¬ LeavesFifteen s c) hn ?_ (fun s hs => hs) ?_ ?_
  · obtain ⟨-, hM, -⟩ := r.managed_start
    have hmax := r.maxaddr
    have hroom := r.room
    have hstart : holeStart = 655360 := rfl
    have hend : holeEnd = 1662976 := rfl
    refine (headersFit_iff hM).mpr fun f hf => ?_
    rcases List.mem_pair.mp hf with rfl | rfl
    · unfold memstart
      dsimp only
      omega
    · dsimp only
      omega
  · intro k hk hfit hleaves
    obtain ⟨-, F, hM⟩ := r.managed hk.le
    exact (step_headersFit hM (r.allows k hk) (r.next k hk) hfit).mpr hleaves
  · intro k hk hfit hfit'
    obtain ⟨-, F, hM⟩ := r.managed hk.le
    exact (step_headersFit hM (r.allows k hk) (r.next k hk) hfit).mp hfit'

/-- A block is handed out and freed. -/
theorem headersFit_always_freed : ∃ r : Use, r.len = 2 ∧ HeadersFit (r.state 2).heap := by
  obtain ⟨r, hlen, hinitial, hin, -⟩ := exists_use [.kmalloc 16, .kfree 131088] (fun _ _ => true)
    (by decide +kernel)
  have hall := (headersFit_always_iff r (n := 2) (by rw [hlen]; rfl)).mpr ?_
  · exact ⟨r, hlen, hall 2 le_rfl⟩
  · intro k hk
    rcases (by omega : k = 0 ∨ k = 1) with rfl | rfl
    · rw [hin 0 _ rfl]
      rintro ⟨F, size, b, hF, hc, -, hfind, hb⟩
      obtain rfl := MemoryCall.kmalloc.inj hc
      obtain rfl := hF.unique r.managed_start.2.1.list
      have hsizes : ∀ f ∈ initialBlocks smallHeap, f.size ≠ paragraphs 16 + 16 + 15 := by decide
      apply hsizes b ?_ hb
      rw [← hinitial]
      exact List.mem_of_find?_eq_some hfind
    · rw [hin 1 _ rfl]
      rintro ⟨F, size, b, -, hc, -⟩
      cases hc

/-- The request of `mem_stress_test_1` takes all but 15 bytes of the upper region. -/
theorem headersFit_stress : ∃ r : Use, r.len = 1 ∧ r.input 0 = .kmalloc 2531296 ∧
    ¬ HeadersFit (r.state 1).heap := by
  obtain ⟨r, hlen, -, hin, htest⟩ := exists_use [.kmalloc 2531296]
    (fun n s => decide (n = 1 → s.heap.kmemGetFreeListLength = some 2 ∧
      follow (nextLink s.heap) 2 (link s.heap.gFreeList) = [131072, 4194288] ∧
      s.heap.size 4194288 = 15)) (by decide +kernel)
  obtain ⟨hcount, hfollow, hsize⟩ := of_decide_eq_true (htest 1 le_rfl) rfl
  refine ⟨r, hlen, hin 0 _ rfl, ?_⟩
  intro hfit
  obtain ⟨-, F, hM⟩ := r.managed (n := 1) (by rw [hlen]; rfl)
  rw [kmemGetFreeListLength_eq hM.list] at hcount
  rw [hM.list.follow_eq (Option.some.inj hcount).le] at hfollow
  have hmem : 4194288 ∈ addrs F := by
    rw [hfollow]
    simp
  obtain ⟨f, hf, hfaddr⟩ := exists_of_mem_addrs hmem
  have hle := hfit F hM.list f hf
  rw [hfaddr, hsize] at hle
  exact absurd hle (by decide)

end Xeros.Analysis
