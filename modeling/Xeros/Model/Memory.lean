import Xeros.Model.Types

/-!
# The memory manager (mem.c) and the string routines of libxc

A `memory_header_t` at address `a` is the four words `size`, `prev`, `next` and `sanity_check`
at `a`, `a + 4`, `a + 8` and `a + 12`; its data starts at `a + 16`.
-/

set_option autoImplicit false

namespace Xeros.Model

open Xeros.Foundations

/-! ## libxc -/

/-- The loop of `memset`, over the bytes still to be set. -/
def memset (m : Memory) (pch : ℕ) (c : UInt8) : ℕ → Memory
  | 0 => m
  | n + 1 => memset (store8 m pch c) (pch + 1) c n

/-- The inner loop of `strncpy`: pad with zero bytes. -/
def strncpyPad (m : Memory) (s1 : ℕ) : ℕ → Memory
  | 0 => m
  | n + 1 => strncpyPad (store8 m s1 0) (s1 + 1) n

/-- The outer loop of `strncpy`, over the bytes still to be copied. -/
def strncpyLoop (m : Memory) (s1 s2 : ℕ) : ℕ → Memory
  | 0 => m
  | n + 1 =>
    let m := store8 m s1 (load8 m s2)
    if load8 m s1 = 0 then strncpyPad m (s1 + 1) n else strncpyLoop m (s1 + 1) (s2 + 1) n

/-- `strncpy`; a negative `n` copies nothing. -/
def strncpy (m : Memory) (s1 s2 : ℕ) (n : ℤ) : Memory := strncpyLoop m s1 s2 n.toNat

/-! ## mem.c -/

/-- `round_to_paragraph` -/
def roundToParagraph (val : ℕ) : ℕ :=
  if val % 16 ≠ 0 then (val + 16) % 4294967296 / 16 * 16 else val

namespace Heap

/-- `kmem_maxaddr` -/
def kmemMaxaddr (h : Heap) : ℤ := toInt h.image.maxaddr

/-- `kmem_freemem` -/
def kmemFreemem (h : Heap) : ℤ := toInt h.image.freemem

/-- `block->size` -/
def size (h : Heap) (block : ℕ) : ℕ := load32 h.mem block

/-- `block->prev` -/
def prev (h : Heap) (block : ℕ) : ℕ := load32 h.mem (block + 4)

/-- `block->next` -/
def next (h : Heap) (block : ℕ) : ℕ := load32 h.mem (block + 8)

/-- `block->sanity_check` -/
def sanityCheck (h : Heap) (block : ℕ) : ℕ := load32 h.mem (block + 12)

def setSize (h : Heap) (block v : ℕ) : Heap := { h with mem := store32 h.mem block v }

def setPrev (h : Heap) (block v : ℕ) : Heap := { h with mem := store32 h.mem (block + 4) v }

def setNext (h : Heap) (block v : ℕ) : Heap := { h with mem := store32 h.mem (block + 8) v }

def setSanityCheck (h : Heap) (block v : ℕ) : Heap :=
  { h with mem := store32 h.mem (block + 12) v }

/-- One round of `kmem_get_free_list_length`. -/
def freeListRound (h : Heap) (st : ℕ × ℕ) : Option (Iter (ℕ × ℕ) ℕ) :=
  if st.1 = 0 then some (.done st.2) else some (.again (h.next st.1, st.2 + 1))

/-- `kmem_get_free_list_length` -/
def kmemGetFreeListLength (h : Heap) : Option ℕ :=
  loop h.freeListRound loopBound (h.gFreeList, 0)

/-- `kmeminit` -/
def kmeminit (h : Heap) : Option Heap := do
  let postHoleRegion := holeEnd
  let h := h.setSize postHoleRegion (subWord h.image.maxaddr holeEnd)
  let h := h.setSanityCheck postHoleRegion 0
  let memstart := roundToParagraph h.image.freemem
  let h := { h with gFreeList := memstart }
  let h := h.setSize memstart (subWord holeStart memstart)
  let h := h.setSanityCheck memstart 0
  let h := h.setPrev memstart 0
  let h := h.setNext memstart postHoleRegion
  let h := h.setPrev postHoleRegion memstart
  let h := h.setNext postHoleRegion 0
  let n ← h.kmemGetFreeListLength
  cAssert (n = 2)
  return h

/-- `split_free_block` -/
def splitFreeBlock (h : Heap) (block size : ℕ) : Option Heap := do
  cAssert (block ≠ 0)
  cAssert (size ≤ h.size block)
  if h.size block = size then
    some h
  else
    let otherHalf := (block + size) % 4294967296
    let h := h.setSize otherHalf (subWord (h.size block) size)
    let h := h.setPrev otherHalf block
    let h := h.setNext otherHalf (h.next block)
    let h := h.setSanityCheck otherHalf 0
    let h := if h.next otherHalf ≠ 0 then h.setPrev (h.next otherHalf) otherHalf else h
    let h := h.setNext block otherHalf
    some (h.setSize block size)

/-- The part of `kmalloc` that takes the block `curr` out of the free list. -/
def takeBlock (h : Heap) (curr sizeRequired : ℕ) : Option (ℕ × Heap) := do
  let h ← h.splitFreeBlock curr sizeRequired
  let h := if h.prev curr ≠ 0 then h.setNext (h.prev curr) (h.next curr)
    else { h with gFreeList := h.next curr }
  let h := if h.next curr ≠ 0 then h.setPrev (h.next curr) (h.prev curr) else h
  let h := h.setSize curr sizeRequired
  let dataStart := (curr + sizeofMemoryHeader) % 4294967296
  let h := h.setSanityCheck curr dataStart
  cAssert (dataStart % 16 = 0)
  return (dataStart, h)

/-- One round of the search loop of `kmalloc`. -/
def kmallocRound (h : Heap) (sizeRequired curr : ℕ) : Option (Iter ℕ (ℕ × Heap)) :=
  if curr = 0 then some (.done (0, h))
  else if sizeRequired ≤ h.size curr then (h.takeBlock curr sizeRequired).map .done
  else some (.again (h.next curr))

/-- `kmalloc`: the address of the allocated block's data, null (`0`) if there is none. -/
def kmalloc (h : Heap) (size : ℕ) : Option (ℕ × Heap) :=
  if size = 0 ∨ toWord h.kmemMaxaddr ≤ size then some (0, h)
  else
    let sizeRequired := (roundToParagraph size + sizeofMemoryHeader) % 4294967296
    loop (h.kmallocRound sizeRequired) loopBound h.gFreeList

/-- `coalesce_blocks` -/
def coalesceBlocks (h : Heap) (block1 block2 : ℕ) : Heap :=
  if block1 = 0 ∨ block2 = 0 then h
  else if (block1 + h.size block1) % 4294967296 = block2 then
    let h := h.setNext block1 (h.next block2)
    let h := if h.next block1 ≠ 0 then h.setPrev (h.next block1) block1 else h
    h.setSize block1 ((h.size block1 + h.size block2) % 4294967296)
  else h

/-- One round of the search loop of `kfree`; the loop state is `prev` and `curr`. -/
def kfreeRound (h : Heap) (toFree : ℕ) (st : ℕ × ℕ) : Option (Iter (ℕ × ℕ) (ℕ × ℕ)) :=
  if st.2 ≠ 0 ∧ st.2 < toFree then some (.again (st.2, h.next st.2)) else some (.done st)

/-- The part of `kfree` that links `toFree` between `prev` and `curr`. -/
def insertBlock (h : Heap) (prev curr toFree : ℕ) : Heap :=
  let h := if prev = 0 then { h with gFreeList := toFree } else h.setNext prev toFree
  let h := h.setPrev toFree prev
  let h := h.setNext toFree curr
  let h := if curr ≠ 0 then h.setPrev curr toFree else h
  let h := h.coalesceBlocks toFree (h.next toFree)
  h.coalesceBlocks (h.prev toFree) toFree

/-- `kfree` -/
def kfree (h : Heap) (ptr : ℕ) : Option Heap :=
  if ptr = 0 then some h
  else do
    cAssert (ptr % 16 = 0)
    let toFree := subWord ptr sizeofMemoryHeader
    cAssert (h.sanityCheck toFree = ptr)
    let (prev, curr) ← loop (h.kfreeRound toFree) loopBound (0, h.gFreeList)
    return h.insertBlock prev curr toFree

end Heap

end Xeros.Model
