import Xeros.Refinement.FreeList

/-!
# Allocating and freeing on the free list

The search loops of `kmalloc` and `kfree` stop at a place in the list; what happens there is one of
the operations on the list.
-/

set_option autoImplicit false

namespace Xeros.Refinement

open Xeros.Foundations Xeros.Model

section Searching

variable {h : Heap} {A B F : List Block} {b t : Block} {req n : ℕ}

/-- There are fewer blocks than addresses. -/
theorem FreeList.length_lt (hF : FreeList h F) : F.length < loopBound := by
  have hsub : addrs F ⊆ List.range 4294967296 := by
    intro x hx
    exact List.mem_range.mpr (ptr_lt (.inr (slot_of_mem_addrs hF.slots hx)))
  have hle := (hF.nodup.subperm hsub).length_le
  rw [List.length_range, addrs, List.length_map] at hle
  exact lt_of_le_of_lt hle (by decide)

/-- `kmem_get_free_list_length` counts the free blocks. -/
theorem kmemGetFreeListLength_eq (hF : FreeList h F) :
    h.kmemGetFreeListLength = some F.length := by
  have hgeneral : ∀ (D C : List Block) (n : ℕ), F = C ++ D → D.length < n →
      loop h.freeListRound n (firstPtr D, C.length) = some F.length := by
    intro D
    induction D with
    | nil =>
      intro C n hFC hn
      obtain ⟨n, rfl⟩ := Nat.exists_eq_succ_of_ne_zero (by omega : n ≠ 0)
      rw [List.append_nil] at hFC
      rw [hFC]
      exact loop_succ_done n (if_pos rfl)
    | cons d D ih =>
      intro C n hFC hn
      obtain ⟨n, rfl⟩ := Nat.exists_eq_succ_of_ne_zero (by omega : n ≠ 0)
      have hd := hF.slots d (by simp [hFC])
      have hFd : FreeList h (C ++ d :: D) := by rwa [hFC] at hF
      have hround : h.freeListRound (firstPtr (d :: D), C.length) =
          some (.again (firstPtr D, (C ++ [d]).length)) := by
        have hptr : firstPtr (d :: D) = d.addr := rfl
        unfold Heap.freeListRound
        dsimp only
        rw [hptr, if_neg hd.ne_zero, hFd.pointers.2, List.length_append, List.length_singleton]
      rw [loop_succ_again n hround]
      exact ih (C ++ [d]) n (by simpa using hFC) (by simpa using hn)
  have hrun := hgeneral F [] loopBound rfl hF.length_lt
  rwa [← hF.gFreeList_eq] at hrun

/-- The search of `kfree` goes past the blocks below the address. -/
theorem kfree_search (hF : FreeList h (A ++ B)) {a : ℕ} (hA : ∀ c ∈ A, c.addr < a)
    (hB : ∀ c ∈ B, a ≤ c.addr) :
    loop (h.kfreeRound a) loopBound (0, h.gFreeList) = some (lastPtr A, firstPtr B) := by
  have hgeneral : ∀ (D C : List Block) (n : ℕ), A = C ++ D → D.length < n →
      loop (h.kfreeRound a) n (lastPtr C, firstPtr (D ++ B)) = some (lastPtr A, firstPtr B) := by
    intro D
    induction D with
    | nil =>
      intro C n hAC hn
      obtain ⟨n, rfl⟩ := Nat.exists_eq_succ_of_ne_zero (by omega : n ≠ 0)
      rw [List.append_nil] at hAC
      apply loop_succ_done
      unfold Heap.kfreeRound
      rw [hAC, if_neg]
      · rfl
      · rintro ⟨hne, hlt⟩
        obtain ⟨c, hc, hca⟩ := exists_of_mem_addrs (firstPtr_mem hne rfl)
        have hle := hB c hc
        dsimp only [List.nil_append] at hlt hca
        omega
    | cons d D ih =>
      intro C n hAC hn
      obtain ⟨n, rfl⟩ := Nat.exists_eq_succ_of_ne_zero (by omega : n ≠ 0)
      have hFd : FreeList h (C ++ d :: (D ++ B)) := by
        rw [hAC] at hF
        simpa using hF
      have hround : h.kfreeRound a (lastPtr C, firstPtr (d :: D ++ B)) =
          some (.again (lastPtr (C ++ [d]), firstPtr (D ++ B))) := by
        have hptr : firstPtr (d :: D ++ B) = d.addr := rfl
        have hlast : lastPtr (C ++ [d]) = d.addr := by simp [lastPtr, ptrOf]
        have hd : d ∈ A := by simp [hAC]
        unfold Heap.kfreeRound
        dsimp only
        rw [hptr, hlast, if_pos ⟨(hF.slots d (by simp [hd])).ne_zero, hA d hd⟩, hFd.pointers.2]
      rw [loop_succ_again n hround]
      exact ih (C ++ [d]) n (by simpa using hAC) (by simpa using hn)
  have hlen := hF.length_lt
  rw [List.length_append] at hlen
  have hrun := hgeneral A [] loopBound rfl (by omega)
  rwa [← hF.gFreeList_eq] at hrun

/-- The search of `kmalloc` goes past the blocks that are too small. -/
theorem kmalloc_search (hF : FreeList h (A ++ B)) (hA : ∀ c ∈ A, c.size < req) :
    ∃ n, loop (h.kmallocRound req) loopBound h.gFreeList =
      loop (h.kmallocRound req) (n + 1) (firstPtr B) := by
  have hgeneral : ∀ (D C : List Block) (n : ℕ), A = C ++ D → D.length < n →
      ∃ k, loop (h.kmallocRound req) n (firstPtr (D ++ B)) =
        loop (h.kmallocRound req) (k + 1) (firstPtr B) := by
    intro D
    induction D with
    | nil =>
      intro C n hAC hn
      obtain ⟨n, rfl⟩ := Nat.exists_eq_succ_of_ne_zero (by omega : n ≠ 0)
      exact ⟨n, rfl⟩
    | cons d D ih =>
      intro C n hAC hn
      obtain ⟨n, rfl⟩ := Nat.exists_eq_succ_of_ne_zero (by omega : n ≠ 0)
      have hFd : FreeList h (C ++ d :: (D ++ B)) := by
        rw [hAC] at hF
        simpa using hF
      have hd : d ∈ A := by simp [hAC]
      have hround : h.kmallocRound req (firstPtr (d :: D ++ B)) =
          some (.again (firstPtr (D ++ B))) := by
        have hptr : firstPtr (d :: D ++ B) = d.addr := rfl
        have hsmall := hA d hd
        unfold Heap.kmallocRound
        rw [hptr, if_neg (hF.slots d (by simp [hd])).ne_zero, hF.sizes d (by simp [hd]),
          if_neg (by omega), hFd.pointers.2]
      rw [loop_succ_again n hround]
      exact ih (C ++ [d]) n (by simpa using hAC) (by simpa using hn)
  have hlen := hF.length_lt
  rw [List.length_append] at hlen
  obtain ⟨k, hk⟩ := hgeneral A [] loopBound rfl (by omega)
  rw [← hF.gFreeList_eq] at hk
  exact ⟨k, hk⟩

theorem kmallocLoop_none (hF : FreeList h F) (hsmall : ∀ c ∈ F, c.size < req) :
    loop (h.kmallocRound req) loopBound h.gFreeList = some (0, h) := by
  have hF' : FreeList h (F ++ []) := by rwa [List.append_nil]
  obtain ⟨n, hn⟩ := kmalloc_search hF' hsmall
  rw [hn]
  apply loop_succ_done
  unfold Heap.kmallocRound
  exact if_pos rfl

theorem kmallocLoop_some (hF : FreeList h (A ++ b :: B)) (hsmall : ∀ c ∈ A, c.size < req)
    (hfit : req ≤ b.size) {r : ℕ × Heap} (htake : h.takeBlock b.addr req = some r) :
    loop (h.kmallocRound req) loopBound h.gFreeList = some r := by
  obtain ⟨n, hn⟩ := kmalloc_search hF hsmall
  have hptr : firstPtr (b :: B) = b.addr := rfl
  rw [hn, hptr]
  apply loop_succ_done
  unfold Heap.kmallocRound
  rw [if_neg (hF.slots b (by simp)).ne_zero, hF.sizes b (by simp), if_pos hfit, htake]
  rfl

/-- Putting a freed block into the list. -/
theorem insertBlock_spec (hF : FreeList h (A ++ B)) (ht : Slot t.addr)
    (hfresh : t.addr ∉ addrs (A ++ B)) (hsize : h.size t.addr = t.size)
    (hfits : ∀ c ∈ A ++ t :: B, c.limit < 4294967296) :
    FreeList (h.insertBlock (lastPtr A) (firstPtr B) t.addr) (insertBetween A t B) ∧
      (∀ c, Slot c → (h.insertBlock (lastPtr A) (firstPtr B) t.addr).sanityCheck c =
        h.sanityCheck c) ∧
      Unchanged (A ++ B) (· = t.addr) h (h.insertBlock (lastPtr A) (firstPtr B) t.addr) := by
  obtain ⟨hlist1, htsanity, hsame1⟩ := linkBlock_spec hF ht hfresh hsize
  obtain ⟨h1, hh1⟩ : ∃ h1, linkBlock h (lastPtr A) (firstPtr B) t.addr = h1 := ⟨_, rfl⟩
  rw [hh1] at hlist1 htsanity hsame1
  obtain ⟨hlist2, hsame2⟩ := coalesceBlocks_spec hlist1 fun c hc => hfits c (by simp_all)
  obtain ⟨h2, hh2⟩ : ∃ h2, h1.coalesceBlocks t.addr (firstPtr B) = h2 := ⟨_, rfl⟩
  rw [hh2] at hlist2 hsame2
  obtain ⟨t', G, hjoin, htaddr, hG⟩ := joinBlock_head t B
  have hprev2 : h2.prev t.addr = lastPtr A := by
    rw [hjoin] at hlist2
    rw [← htaddr]
    exact hlist2.pointers.1
  have hrun : h.insertBlock (lastPtr A) (firstPtr B) t.addr = h2.coalesceBlocks (lastPtr A) t.addr := by
    have hlink : (if lastPtr A = 0 then { h with gFreeList := t.addr } else
        h.setNext (lastPtr A) t.addr) = linkNext h (lastPtr A) t.addr := by
      unfold linkNext
      split_ifs <;> first | rfl | contradiction
    unfold Heap.insertBlock
    dsimp only
    rw [hlink]
    rw [show (if firstPtr B ≠ 0 then (((linkNext h (lastPtr A) t.addr).setPrev t.addr
        (lastPtr A)).setNext t.addr (firstPtr B)).setPrev (firstPtr B) t.addr else
        ((linkNext h (lastPtr A) t.addr).setPrev t.addr (lastPtr A)).setNext t.addr (firstPtr B)) = h1
      from hh1, hlist1.pointers.2, hh2, hprev2]
  have hlimits : ∀ c ∈ joinBlock t B, c.limit < 4294967296 := by
    intro c hc
    rcases limit_joinBlock hc with heq | ⟨d, hd, heq⟩
    · rw [heq]
      exact hfits t (by simp)
    · rw [heq]
      exact hfits d (by simp [hd])
  obtain ⟨hlist3, hsame3⟩ : FreeList (h2.coalesceBlocks (lastPtr A) t.addr) (insertBetween A t B) ∧
      Unchanged (A ++ joinBlock t B) (fun _ => False) h2 (h2.coalesceBlocks (lastPtr A) t.addr) := by
    obtain rfl | ⟨A', a, rfl⟩ := List.eq_nil_or_concat A
    · have hsame : h2.coalesceBlocks (lastPtr []) t.addr = h2 := by
        unfold Heap.coalesceBlocks
        exact if_pos (.inl rfl)
      rw [hsame]
      exact ⟨hlist2, rfl, fun _ _ _ _ => rfl, fun _ _ _ => rfl⟩
    · rw [List.concat_eq_append] at hlist2 hfits ⊢
      have hlast : lastPtr (A' ++ [a]) = a.addr := by simp [lastPtr, ptrOf]
      have hfirst : firstPtr (joinBlock t B) = t.addr := by
        rw [hjoin]
        exact htaddr
      have hinsert : insertBetween (A' ++ [a]) t B = A' ++ joinBlock a (joinBlock t B) := by
        simp [insertBetween]
      rw [List.append_assoc, List.singleton_append] at hlist2 ⊢
      have hspec := coalesceBlocks_spec hlist2 fun c hc => by
        rcases List.mem_cons.mp hc with rfl | hc
        · exact hfits c (by simp)
        · exact hlimits c hc
      rw [hfirst] at hspec
      rw [hlast, hinsert]
      exact hspec
  rw [hrun]
  have hsub : ∀ x ∈ addrs (joinBlock t B), x = t.addr ∨ x ∈ addrs B := by
    intro x hx
    obtain ⟨d, hd, rfl⟩ := exists_of_mem_addrs hx
    rcases mem_joinBlock hd with heq | hmem
    · exact .inl heq
    · exact .inr (mem_addrs_of_mem hmem)
  refine ⟨hlist3, ?_, hsame3.image.trans (hsame2.image.trans hsame1.image), ?_, ?_⟩
  · intro c hc
    rw [hsame3.sanity c hc id, hsame2.sanity c hc id]
    by_cases hct : c = t.addr
    · rw [hct, htsanity]
    · exact hsame1.sanity c hc hct
  · intro c hc hout hct
    rw [addrs_append, List.mem_append, not_or] at hout
    rw [hsame3.outside c hc _ id, hsame2.outside c hc _ id, hsame1.outside c hc _ hct]
    · rw [addrs_append, List.mem_append, not_or]
      exact hout
    · simp only [addrs_append, addrs_cons, List.mem_append, List.mem_cons, not_or]
      exact ⟨hout.1, hct, hout.2⟩
    · rw [addrs_append, List.mem_append, not_or]
      exact ⟨hout.1, fun hmem => (hsub c hmem).elim hct hout.2⟩
  · intro c hc hct
    rw [hsame3.sanity c hc id, hsame2.sanity c hc id]
    exact hsame1.sanity c hc hct

end Searching

end Xeros.Refinement
