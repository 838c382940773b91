import Xeros.Refinement.AccountSteps

/-!
# What lies in the memory that is handed out

The allocator writes to headers only, and `create` clears the first word of a signal table.  The
other words of the table are the ones that lay in free memory before.
-/

set_option autoImplicit false

namespace Xeros.Refinement

open Xeros.Foundations Xeros.Model KernelOf

variable {h h' : Heap} {F L : List Block} {n p c : ℕ}

/-- The words at `c` are as before, if they are no header. -/
theorem load32_of_headerAt (hh : headerAt h' c = headerAt h c) {j : ℕ} (hj : j < 4) :
    load32 h'.mem (c + 4 * j) = load32 h.mem (c + 4 * j) := by
  interval_cases j
  · exact congrArg Header.size hh
  · exact congrArg Header.prev hh
  · exact congrArg Header.next hh
  · exact congrArg Header.sanityCheck hh

/-- The rest of a block that is cut has room for a header, where no free block begins. -/
theorem Managed.rest_fresh {A B : List Block} {b : Block} {req : ℕ}
    (hM : Managed h (A ++ b :: B) L) (hreq16 : req % 16 = 0) (hlt : req < b.size) (hpos : 0 < req) :
    Slot (b.addr + req) ∧ b.addr + req ∉ addrs (A ++ b :: B) := by
  have hbF : b ∈ A ++ b :: B := by simp
  have hlim := hM.free_limit hbF
  have hslot := hM.list.slots b hbF
  have haligned := hslot.aligned
  obtain ⟨-, hsepbB, hAb⟩ := separated_append.mp hM.separated
  obtain ⟨-, hbB, -⟩ := separated_cons.mp hsepbB
  unfold Block.limit at hlim hbB
  refine ⟨⟨by omega, by omega, by omega⟩, fun hmem => ?_⟩
  obtain ⟨c, hc, hcaddr⟩ := exists_of_mem_addrs hmem
  rcases List.mem_append.mp hc with hc | hc
  · have hgap := hAb c hc b List.mem_cons_self
    unfold Block.limit at hgap
    omega
  · rcases List.mem_cons.mp hc with rfl | hc
    · omega
    · have hgap := hbB c hc
      omega

/-- Allocating changes headers of blocks that are free after it, and the header of the block. -/
theorem Managed.kmalloc_headers (hM : Managed h F L) (hk : h.kmalloc n = some (p, h'))
    (hp : p ≠ 0) : ∃ F', FreeList h' F' ∧ ∀ c, Slot c → c ∉ addrs F' → c + 16 ≠ p →
      c ∉ addrs F ∧ headerAt h' c = headerAt h c := by
  by_cases hnull : n = 0 ∨ h.image.maxaddr ≤ n ∨ ∀ f ∈ F, f.size < paragraphs n + 16
  · rw [hM.kmalloc_null hnull] at hk
    exact absurd (Prod.mk.inj (Option.some.inj hk)).1.symm hp
  rw [not_or, not_or] at hnull
  obtain ⟨hn0, hn, hsmall⟩ := hnull
  rcases firstFit F (paragraphs n + 16) with hall | ⟨A, b, B, rfl, hA, hb⟩
  · exact absurd hall hsmall
  have hreq : (paragraphs n + 16) % 16 = 0 ∧ 32 ≤ paragraphs n + 16 := by
    unfold paragraphs
    omega
  have hlim := hM.free_limit (b := b) (by simp)
  unfold Block.limit at hlim
  obtain ⟨h1, hrun, hlist, -, -, -, hsame⟩ := takeBlock_spec hM.list (by omega) hb hreq.1
    (by omega) (by omega) fun hlt => hM.rest_fresh hreq.1 hlt (by omega)
  rw [kmalloc_eq_loop hM.image hn0 (by omega), kmallocLoop_some hM.list hA hb hrun] at hk
  obtain ⟨rfl, rfl⟩ := Prod.mk.inj (Option.some.inj hk)
  refine ⟨_, hlist, fun c hc hfree hcb => ?_⟩
  have hcb' : c ≠ b.addr := fun heq => hcb (by rw [heq])
  simp only [addrs_append, List.mem_append, not_or] at hfree
  obtain ⟨⟨hcA, hcrest⟩, hcB⟩ := hfree
  have hold : c ∉ addrs (A ++ b :: B) := by
    simp only [addrs_append, addrs_cons, List.mem_append, List.mem_cons, not_or]
    exact ⟨hcA, hcb', hcB⟩
  refine ⟨hold, hsame.outside c hc hold ?_⟩
  rintro (⟨hlt, heq⟩ | heq)
  · apply hcrest
    unfold restOf
    rw [if_neg (by omega), heq]
    exact List.mem_singleton_self _
  · exact hcb' heq

/-- Clearing a word. -/
theorem load32_memset_four (m : Memory) {a : ℕ} (ha : a + 4 ≤ 4294967296) :
    load32 (memset m a 0 4) a = 0 := by
  have hbyte : ∀ i < 4, load8 (memset m a 0 4) (a + i) = 0 := by
    intro i hi
    simp only [memset, load8_store8]
    split_ifs
    all_goals first | rfl | omega
  have h0 := hbyte 0 (by omega)
  rw [Nat.add_zero] at h0
  unfold load32
  rw [h0, hbyte 1 (by omega), hbyte 2 (by omega), hbyte 3 (by omega)]
  rfl

/-- A block that was taken from free memory, and what lies in it. -/
theorem Managed.free_before {h2 : Heap} {F2 : List Block} {stack table : Block}
    (hM : Managed h F L) (hM2 : Managed h2 F2 (table :: stack :: L)) (himage : h2.image = h.image)
    {x : ℕ} (hx : table.Has x) : Covers F x := by
  have hregion : InRegions h x := by
    have hin := (hM2.tiles x).mpr (.inr ⟨table, List.mem_cons_self, hx⟩)
    unfold InRegions memstart at hin ⊢
    rwa [himage] at hin
  rcases (hM.tiles x).mp hregion with hfree | ⟨l, hl, hlx⟩
  · exact hfree
  · have hapart := (List.pairwise_cons.mp hM2.apart).1 l (List.mem_cons_of_mem _ hl)
    exact absurd hlx (hapart x hx)

end Xeros.Refinement

namespace Xeros.Model.KernelOf

open Xeros.Foundations Xeros.Refinement

/-- The table of a new process: the first word is null, and the others are what they were, and that
was free memory. -/
theorem Allocates.table_words {h h' : Heap} {F L : List Block} {func b t : ℕ} {size : ℤ}
    (ha : Allocates h func size (some (b, t)) h')
    (hM : Managed h F L) (hmin : 8192 ≤ size) (hmax : size < 4294967296) :
    load32 h'.mem t = 0 ∧ (∀ x, t ≤ x → x < t + 128 → Covers F x) ∧
      ∀ k, 0 < k → k < 32 → load32 h'.mem (t + 4 * k) = load32 h.mem (t + 4 * k) := by
  cases ha with
  | created _ _ h1 h2 hk hb hk2 ht =>
    rcases hM.kmalloc_cases hk with ⟨hb0, -⟩ | ⟨stack, F1, rfl, himage1, hM1, hsize1⟩
    · exact absurd hb0 hb
    rcases hM1.kmalloc_cases hk2 with ⟨ht0, -⟩ | ⟨table, F2, rfl, himage2, hM2, hsize2⟩
    · exact absurd ht0 ht
    obtain ⟨F1', hF1, hold1⟩ := hM.kmalloc_headers hk hb
    obtain rfl := hF1.unique hM1.list
    obtain ⟨F2', hF2, hold2⟩ := hM1.kmalloc_headers hk2 ht
    obtain rfl := hF2.unique hM2.list
    have hslot := (hM2.headers table List.mem_cons_self).1.aligned
    have hlim := hM2.live_limit (l := table) List.mem_cons_self
    have hslim := hM2.live_limit (l := stack) (by simp)
    have hsize2 : 128 + 16 ≤ table.size := hsize2
    have hword : (toWord size : ℤ) = size := toWord_of_range (by omega) hmax
    have hapart := (List.pairwise_cons.mp hM2.apart).1 stack List.mem_cons_self
    have htable : ∀ x, table.addr ≤ x → x < table.addr + 144 → table.Has x := by
      intro x hlo hhi
      exact ⟨hlo, by unfold Block.limit; omega⟩
    unfold Block.limit at hlim hslim
    -- the stack is written last, and outside the table
    have hstack : ∀ x, table.addr ≤ x → x < table.addr + 144 →
        load8 (stackHeap { h2 with mem := memset h2.mem (table.addr + 16) 0 4 } (stack.addr + 16)
          func size).mem x = load8 (memset h2.mem (table.addr + 16) 0 4) x := by
      intro x hlo hhi
      by_contra hne
      obtain ⟨hb, hb'⟩ := stackHeap_writes (by omega) hmin (by omega) (by omega) hne
      refine hapart x (htable x hlo hhi) ⟨by omega, ?_⟩
      unfold Block.limit
      omega
    refine ⟨?_, fun x hlo hhi => ?_, fun k hk0 hk32 => ?_⟩
    · rw [load32_congr fun i hi => hstack _ (by omega) (by omega)]
      exact load32_memset_four _ (by omega)
    · exact hM.free_before hM2 (himage2.trans himage1) (htable x (by omega) (by omega))
    · have hmem : load32 (stackHeap { h2 with mem := memset h2.mem (table.addr + 16) 0 4 }
          (stack.addr + 16) func size).mem (table.addr + 16 + 4 * k) =
          load32 h2.mem (table.addr + 16 + 4 * k) := by
        apply load32_congr
        intro i hi
        rw [hstack _ (by omega) (by omega), load8_memset_of_ne]
        intro j hj
        omega
      obtain ⟨c, hc⟩ : ∃ c, c = table.addr + 16 + 16 * (k / 4) := ⟨_, rfl⟩
      have hword4 : table.addr + 16 + 4 * k = c + 4 * (k % 4) := by omega
      have hcslot : Slot c := ⟨by omega, by omega, by omega⟩
      have hdata : ∀ d, d ∈ F2' ∨ d ∈ table :: stack :: L → c ≠ d.addr := by
        intro d hd heq
        have hout := hM2.data_out (a := c) List.mem_cons_self (by omega)
          (by unfold Block.limit; omega) hd
        omega
      have hfree2 : c ∉ addrs F2' := by
        intro hmem
        obtain ⟨d, hd, hdc⟩ := exists_of_mem_addrs hmem
        exact hdata d (.inl hd) hdc.symm
      have hne2 : c ≠ table.addr := hdata table (.inr List.mem_cons_self)
      have hne1 : c ≠ stack.addr := hdata stack (.inr (by simp))
      obtain ⟨hfree1, hsame2⟩ := hold2 c hcslot hfree2 (by omega)
      obtain ⟨-, hsame1⟩ := hold1 c hcslot hfree1 (by omega)
      rw [hmem, hword4]
      exact load32_of_headerAt (hsame2.trans hsame1) (Nat.mod_lt _ (by omega))

end Xeros.Model.KernelOf
