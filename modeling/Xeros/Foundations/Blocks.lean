import Mathlib.Data.List.Basic
import Mathlib.Data.List.Pairwise
import Mathlib.Tactic

/-!
# Lists of blocks

A block is an address and a size.  A list of blocks is separated when each block ends below the next
one, with a gap.  Such a list is determined by the addresses it covers (`Separated.unique`): it is
the list of the maximal intervals of that set.

`joinBlock` puts a block in front of a list, merging it with the first block when they touch.
-/

set_option autoImplicit false

namespace Xeros.Foundations

/-- A block of memory. -/
structure Block where
  addr : ℕ
  size : ℕ
  deriving DecidableEq

/-- The address just past a block. -/
def Block.limit (b : Block) : ℕ := b.addr + b.size

/-- The address lies in the block. -/
def Block.Has (b : Block) (x : ℕ) : Prop := b.addr ≤ x ∧ x < b.limit

/-- The addresses in the blocks of a list. -/
def Covers (F : List Block) (x : ℕ) : Prop := ∃ b ∈ F, b.Has x

/-- The blocks are not empty and stand in order, with a gap between any two. -/
structure Separated (F : List Block) : Prop where
  pos : ∀ b ∈ F, 0 < b.size
  gap : F.Pairwise fun a b => a.limit < b.addr

/-- Put a block in front of a list. -/
def joinBlock (b : Block) : List Block → List Block
  | [] => [b]
  | c :: F => if b.limit = c.addr then ⟨b.addr, b.size + c.size⟩ :: F else b :: c :: F

/-- Put a block between two lists, merging it with its neighbours when they touch. -/
def insertBetween (F : List Block) (b : Block) (G : List Block) : List Block :=
  match F.getLast? with
  | none => joinBlock b G
  | some c => F.dropLast ++ joinBlock c (joinBlock b G)

variable {b c : Block} {F G : List Block} {x : ℕ}

theorem joinBlock_cons : joinBlock b (c :: F) =
    if b.limit = c.addr then ⟨b.addr, b.size + c.size⟩ :: F else b :: c :: F := rfl

@[simp] theorem covers_nil (x : ℕ) : ¬ Covers [] x := by
  rintro ⟨b, hb, -⟩
  simp at hb

@[simp] theorem covers_cons : Covers (b :: F) x ↔ b.Has x ∨ Covers F x := by
  unfold Covers
  simp

@[simp] theorem covers_append : Covers (F ++ G) x ↔ Covers F x ∨ Covers G x := by
  unfold Covers
  simp only [List.mem_append, or_and_right, exists_or]

theorem separated_nil : Separated [] := ⟨by simp, List.Pairwise.nil⟩

theorem separated_cons :
    Separated (b :: F) ↔ 0 < b.size ∧ (∀ c ∈ F, b.limit < c.addr) ∧ Separated F := by
  constructor
  · rintro ⟨hpos, hgap⟩
    obtain ⟨hhead, htail⟩ := List.pairwise_cons.mp hgap
    exact ⟨hpos b List.mem_cons_self, hhead, fun c hc => hpos c (List.mem_cons_of_mem b hc), htail⟩
  · rintro ⟨hb, hhead, hpos, hgap⟩
    refine ⟨fun c hc => ?_, List.pairwise_cons.mpr ⟨hhead, hgap⟩⟩
    rcases List.mem_cons.mp hc with rfl | hc
    · exact hb
    · exact hpos c hc

theorem separated_append : Separated (F ++ G) ↔
    Separated F ∧ Separated G ∧ ∀ a ∈ F, ∀ b ∈ G, a.limit < b.addr := by
  constructor
  · rintro ⟨hpos, hgap⟩
    obtain ⟨hF, hG, hFG⟩ := List.pairwise_append.mp hgap
    exact ⟨⟨fun b hb => hpos b (List.mem_append_left G hb), hF⟩,
      ⟨fun b hb => hpos b (List.mem_append_right F hb), hG⟩, hFG⟩
  · rintro ⟨hF, hG, hFG⟩
    refine ⟨fun b hb => ?_, List.pairwise_append.mpr ⟨hF.gap, hG.gap, hFG⟩⟩
    rcases List.mem_append.mp hb with hb | hb
    · exact hF.pos b hb
    · exact hG.pos b hb

/-! ## The list is determined by what it covers -/

theorem Separated.covers_above (h : Separated (b :: F)) (hx : Covers F x) : b.limit < x := by
  obtain ⟨c, hc, hlo, -⟩ := hx
  have hgap := (separated_cons.mp h).2.1 c hc
  omega

theorem Separated.covers_head (h : Separated (b :: F)) : Covers (b :: F) b.addr := by
  have hpos := (separated_cons.mp h).1
  apply covers_cons.mpr
  left
  unfold Block.Has Block.limit
  omega

/-- The address just past the first block is not covered. -/
theorem Separated.not_covers_limit (h : Separated (b :: F)) : ¬ Covers (b :: F) b.limit := by
  intro hx
  rcases covers_cons.mp hx with hx | hx
  · exact absurd hx.2 (lt_irrefl _)
  · exact absurd (h.covers_above hx) (lt_irrefl _)

/-- The rest of the list covers what is past the first block. -/
theorem Separated.covers_tail (h : Separated (b :: F)) :
    Covers F x ↔ Covers (b :: F) x ∧ b.limit ≤ x := by
  constructor
  · intro hx
    have habove := h.covers_above hx
    exact ⟨covers_cons.mpr (.inr hx), by omega⟩
  · rintro ⟨hx, hle⟩
    rcases covers_cons.mp hx with hx | hx
    · have hlt := hx.2
      omega
    · exact hx

theorem Separated.addr_le (h : Separated (b :: F)) (hx : Covers (b :: F) x) : b.addr ≤ x := by
  rcases covers_cons.mp hx with hx | hx
  · exact hx.1
  · have habove := h.covers_above hx
    unfold Block.limit at habove
    omega

/-- Separated lists that cover the same addresses are equal. -/
theorem Separated.unique (hF : Separated F) (hG : Separated G)
    (h : ∀ x, Covers F x ↔ Covers G x) : F = G := by
  induction F generalizing G with
  | nil =>
    cases G with
    | nil => rfl
    | cons c G => exact absurd ((h _).mpr hG.covers_head) (covers_nil _)
  | cons b F ih =>
    cases G with
    | nil => exact absurd ((h _).mp hF.covers_head) (covers_nil _)
    | cons c G =>
      have haddr : b.addr = c.addr := by
        have hbc := hF.addr_le ((h _).mpr hG.covers_head)
        have hcb := hG.addr_le ((h _).mp hF.covers_head)
        omega
      have hlimit : b.limit = c.limit := by
        have hb : ¬ c.Has b.limit := fun hx =>
          hF.not_covers_limit ((h _).mpr (covers_cons.mpr (.inl hx)))
        have hc : ¬ b.Has c.limit := fun hx =>
          hG.not_covers_limit ((h _).mp (covers_cons.mpr (.inl hx)))
        have hposb := (separated_cons.mp hF).1
        have hposc := (separated_cons.mp hG).1
        unfold Block.Has Block.limit at *
        omega
      have hbc : b = c := by
        obtain ⟨ba, bs⟩ := b
        obtain ⟨ca, cs⟩ := c
        unfold Block.limit at hlimit
        dsimp only at haddr hlimit
        subst haddr
        rw [Nat.add_left_cancel hlimit]
      subst hbc
      rw [ih (separated_cons.mp hF).2.2 (separated_cons.mp hG).2.2]
      intro x
      rw [hF.covers_tail, hG.covers_tail, h x]

/-! ## Maximal intervals -/

/-- A maximal interval of the addresses with the property `P`. -/
structure Block.Maximal (P : ℕ → Prop) (b : Block) : Prop where
  pos : 0 < b.size
  inside : ∀ x, b.Has x → P x
  below : b.addr ≠ 0 → ¬ P (b.addr - 1)
  above : ¬ P b.limit

/-- Maximal intervals that share an address are equal. -/
theorem Block.Maximal.eq {P : ℕ → Prop} (hb : b.Maximal P) (hc : c.Maximal P) (hbx : b.Has x)
    (hcx : c.Has x) : b = c := by
  have hbelow : ∀ {d e : Block}, d.Maximal P → e.Maximal P → d.Has x → e.Has x →
      e.addr ≤ d.addr := by
    intro d e hd he hdx hex
    by_contra hlt
    apply he.below (by omega)
    apply hd.inside
    unfold Block.Has at *
    omega
  have habove : ∀ {d e : Block}, d.Maximal P → e.Maximal P → d.Has x → e.Has x →
      d.limit ≤ e.limit := by
    intro d e hd he hdx hex
    by_contra hlt
    apply he.above
    apply hd.inside
    unfold Block.Has at *
    omega
  have haddr : b.addr = c.addr := le_antisymm (hbelow hc hb hcx hbx) (hbelow hb hc hbx hcx)
  have hlimit : b.limit = c.limit := le_antisymm (habove hb hc hbx hcx) (habove hc hb hcx hbx)
  unfold Block.limit at hlimit
  cases b
  cases c
  simp only [Block.mk.injEq]
  dsimp only at haddr hlimit
  omega

/-- Separated blocks are the maximal intervals of the addresses that they cover. -/
theorem Separated.mem_iff_maximal {P : ℕ → Prop} (h : Separated F) (hP : ∀ x, P x ↔ Covers F x) :
    b ∈ F ↔ b.Maximal P := by
  have hmax : ∀ c ∈ F, c.Maximal P := by
    intro c hc
    have hpos := h.pos c hc
    have hout : ∀ y, ¬ c.Has y → P y → y + 1 ≠ c.addr ∧ y ≠ c.limit := by
      intro y hy hPy
      obtain ⟨d, hd, hdy⟩ := (hP y).mp hPy
      have hposd := h.pos d hd
      obtain ⟨A, B, rfl⟩ := List.append_of_mem hc
      obtain ⟨-, hcB, hAc⟩ := separated_append.mp h
      obtain ⟨-, hB, -⟩ := separated_cons.mp hcB
      unfold Block.Has at hdy
      rcases List.mem_append.mp hd with hd | hd
      · have hgap := hAc d hd c List.mem_cons_self
        unfold Block.limit at *
        omega
      · rcases List.mem_cons.mp hd with rfl | hd
        · exact absurd hdy hy
        · have hgap := hB d hd
          unfold Block.limit at *
          omega
    refine ⟨hpos, fun y hy => (hP y).mpr ⟨c, hc, hy⟩, fun h0 hPy => ?_, fun hPy => ?_⟩
    · apply (hout _ _ hPy).1
      · omega
      · unfold Block.Has
        omega
    · apply (hout _ _ hPy).2 rfl
      unfold Block.Has
      omega
  constructor
  · exact hmax b
  · intro hb
    have hhas : b.Has b.addr := by
      have hpos := hb.pos
      unfold Block.Has Block.limit
      omega
    obtain ⟨c, hc, hcx⟩ := (hP _).mp (hb.inside _ hhas)
    rw [hb.eq (hmax c hc) hhas hcx]
    exact hc

/-! ## Merging with the next block -/

theorem joinBlock_covers : Covers (joinBlock b F) x ↔ b.Has x ∨ Covers F x := by
  cases F with
  | nil => simp [joinBlock]
  | cons c F =>
    rw [joinBlock_cons]
    split_ifs with htouch
    · rw [covers_cons, covers_cons, ← or_assoc]
      apply or_congr_left
      unfold Block.Has Block.limit at *
      dsimp only
      omega
    · rw [covers_cons]

/-- A block that ends at the next one at the latest is separated from the list after merging. -/
theorem joinBlock_separated (hb : 0 < b.size) (hF : Separated F)
    (hbelow : ∀ c ∈ F, b.limit ≤ c.addr) : Separated (joinBlock b F) := by
  cases F with
  | nil => exact separated_cons.mpr ⟨hb, by simp, separated_nil⟩
  | cons c F =>
    obtain ⟨hc, hcF, hF'⟩ := separated_cons.mp hF
    rw [joinBlock_cons]
    split_ifs with htouch
    · refine separated_cons.mpr ⟨by dsimp only; omega, fun d hd => ?_, hF'⟩
      have hgap := hcF d hd
      unfold Block.limit at *
      dsimp only
      omega
    · refine separated_cons.mpr ⟨hb, fun d hd => ?_, hF⟩
      have hle := hbelow c List.mem_cons_self
      rcases List.mem_cons.mp hd with rfl | hd
      · omega
      · have hgap := hcF d hd
        unfold Block.limit at *
        omega

theorem joinBlock_head (b : Block) (F : List Block) :
    ∃ c G, joinBlock b F = c :: G ∧ c.addr = b.addr ∧ ∀ d ∈ G, d ∈ F := by
  cases F with
  | nil => exact ⟨b, [], rfl, rfl, by simp⟩
  | cons c F =>
    rw [joinBlock_cons]
    split_ifs with htouch
    · exact ⟨_, F, rfl, rfl, fun d hd => List.mem_cons_of_mem c hd⟩
    · exact ⟨b, c :: F, rfl, rfl, fun d hd => hd⟩

/-- The blocks of the merged list begin where the block does, or are in the list. -/
theorem mem_joinBlock {d : Block} (hd : d ∈ joinBlock b F) : d.addr = b.addr ∨ d ∈ F := by
  cases F with
  | nil =>
    left
    rw [List.mem_singleton.mp hd]
  | cons c F =>
    rw [joinBlock_cons] at hd
    split_ifs at hd with htouch
    · rcases List.mem_cons.mp hd with rfl | hd
      · exact .inl rfl
      · exact .inr (List.mem_cons_of_mem c hd)
    · rcases List.mem_cons.mp hd with rfl | hd
      · exact .inl rfl
      · exact .inr hd

/-- Every block of the merged list ends where a block did. -/
theorem limit_joinBlock {d : Block} (hd : d ∈ joinBlock b F) :
    d.limit = b.limit ∨ ∃ c ∈ F, d.limit = c.limit := by
  cases F with
  | nil =>
    left
    rw [List.mem_singleton.mp hd]
  | cons c F =>
    rw [joinBlock_cons] at hd
    split_ifs at hd with htouch
    · rcases List.mem_cons.mp hd with rfl | hd
      · refine .inr ⟨c, List.mem_cons_self, ?_⟩
        unfold Block.limit at *
        dsimp only
        omega
      · exact .inr ⟨d, List.mem_cons_of_mem c hd, rfl⟩
    · rcases List.mem_cons.mp hd with rfl | hd
      · exact .inl rfl
      · exact .inr ⟨d, hd, rfl⟩

/-- Every block of the merged list is as large as a block that went into it. -/
theorem size_joinBlock {d : Block} (hd : d ∈ joinBlock b F) : ∃ c ∈ b :: F, c.size ≤ d.size := by
  cases F with
  | nil => exact ⟨d, hd, le_rfl⟩
  | cons c F =>
    rw [joinBlock_cons] at hd
    split_ifs at hd with htouch
    · rcases List.mem_cons.mp hd with rfl | hd
      · exact ⟨b, List.mem_cons_self, Nat.le_add_right _ _⟩
      · exact ⟨d, by simp [hd], le_rfl⟩
    · exact ⟨d, hd, le_rfl⟩

/-! ## Putting a block in its place -/

theorem insertBetween_nil (b : Block) (G : List Block) : insertBetween [] b G = joinBlock b G := rfl

theorem insertBetween_concat (F : List Block) (c b : Block) (G : List Block) :
    insertBetween (F ++ [c]) b G = F ++ joinBlock c (joinBlock b G) := by
  simp [insertBetween]

theorem insertBetween_covers :
    Covers (insertBetween F b G) x ↔ Covers F x ∨ b.Has x ∨ Covers G x := by
  obtain rfl | ⟨F', c, rfl⟩ := List.eq_nil_or_concat F
  · rw [insertBetween_nil, joinBlock_covers]
    simp
  · rw [List.concat_eq_append, insertBetween_concat, covers_append, joinBlock_covers,
      joinBlock_covers, covers_append, covers_cons]
    simp only [covers_nil, or_false, or_assoc]

/-- Between blocks that end below it and blocks that begin above it. -/
theorem insertBetween_separated (hb : 0 < b.size) (h : Separated (F ++ G))
    (hF : ∀ c ∈ F, c.limit ≤ b.addr) (hG : ∀ c ∈ G, b.limit ≤ c.addr) :
    Separated (insertBetween F b G) := by
  obtain ⟨hsF, hsG, hFG⟩ := separated_append.mp h
  have hjoin : Separated (joinBlock b G) := joinBlock_separated hb hsG hG
  obtain rfl | ⟨F', c, rfl⟩ := List.eq_nil_or_concat F
  · exact hjoin
  · rw [List.concat_eq_append] at hsF hF ⊢
    rw [insertBetween_concat]
    obtain ⟨hsF', hsc, hF'c⟩ := separated_append.mp hsF
    have hc : 0 < c.size := hsc.pos c List.mem_cons_self
    have hcb : c.limit ≤ b.addr := hF c (by simp)
    have habove : ∀ d ∈ joinBlock b G, b.addr ≤ d.addr := by
      intro d hd
      rcases mem_joinBlock hd with heq | hmem
      · exact heq.ge
      · have hle := hG d hmem
        unfold Block.limit at hle
        omega
    refine separated_append.mpr ⟨hsF', joinBlock_separated hc hjoin ?_, ?_⟩
    · intro d hd
      exact hcb.trans (habove d hd)
    · intro a ha d hd
      have hac := hF'c a ha c List.mem_cons_self
      rcases mem_joinBlock hd with heq | hmem
      · omega
      · have hle := habove d hmem
        unfold Block.limit at hac hcb ⊢
        omega

theorem mem_insertBetween {d : Block} (hd : d ∈ insertBetween F b G) :
    d.addr = b.addr ∨ ∃ c ∈ F ++ G, d.addr = c.addr := by
  obtain rfl | ⟨F', c, rfl⟩ := List.eq_nil_or_concat F
  · rcases mem_joinBlock hd with heq | hmem
    · exact .inl heq
    · exact .inr ⟨d, hmem, rfl⟩
  · rw [List.concat_eq_append] at hd ⊢
    rw [insertBetween_concat] at hd
    rcases List.mem_append.mp hd with hd | hd
    · exact .inr ⟨d, by simp [hd], rfl⟩
    · rcases mem_joinBlock hd with heq | hd
      · exact .inr ⟨c, by simp, heq⟩
      · rcases mem_joinBlock hd with heq | hmem
        · exact .inl heq
        · exact .inr ⟨d, by simp [hmem], rfl⟩

theorem limit_insertBetween {d : Block} (hd : d ∈ insertBetween F b G) :
    d.limit = b.limit ∨ ∃ c ∈ F ++ G, d.limit = c.limit := by
  have hjoin : ∀ e ∈ joinBlock b G, e.limit = b.limit ∨ ∃ c ∈ F ++ G, e.limit = c.limit := by
    intro e he
    rcases limit_joinBlock he with heq | ⟨c, hc, heq⟩
    · exact .inl heq
    · exact .inr ⟨c, List.mem_append_right F hc, heq⟩
  obtain rfl | ⟨F', c, rfl⟩ := List.eq_nil_or_concat F
  · exact hjoin d hd
  · rw [List.concat_eq_append] at hd hjoin ⊢
    rw [insertBetween_concat] at hd
    rcases List.mem_append.mp hd with hd | hd
    · exact .inr ⟨d, by simp [hd], rfl⟩
    · rcases limit_joinBlock hd with heq | ⟨e, he, heq⟩
      · exact .inr ⟨c, by simp, heq⟩
      · rw [heq]
        exact hjoin e he

theorem size_insertBetween {d : Block} (hd : d ∈ insertBetween F b G) :
    ∃ c ∈ F ++ b :: G, c.size ≤ d.size := by
  obtain rfl | ⟨F', c, rfl⟩ := List.eq_nil_or_concat F
  · exact size_joinBlock hd
  · rw [List.concat_eq_append] at hd ⊢
    rw [insertBetween_concat] at hd
    rcases List.mem_append.mp hd with hd | hd
    · exact ⟨d, by simp [hd], le_rfl⟩
    · obtain ⟨e, he, hed⟩ := size_joinBlock hd
      rcases List.mem_cons.mp he with rfl | he
      · exact ⟨e, by simp, hed⟩
      · obtain ⟨f, hf, hfe⟩ := size_joinBlock he
        refine ⟨f, ?_, hfe.trans hed⟩
        rcases List.mem_cons.mp hf with rfl | hf <;> simp [*]

/-- A block of the merged list begins where the block does, unless one of the blocks ends there. -/
theorem insertBetween_begins (hb : 0 < b.size) (h : Separated (F ++ G))
    (hF : ∀ c ∈ F, c.limit ≤ b.addr) (hG : ∀ c ∈ G, b.limit ≤ c.addr) :
    (∃ d ∈ insertBetween F b G, d.addr = b.addr) ↔ ∀ c ∈ F ++ G, c.limit ≠ b.addr := by
  have hsep := insertBetween_separated hb h hF hG
  constructor
  · rintro ⟨d, hd, hdb⟩ c hc hcb
    have hpos := h.pos c hc
    have hmax := (hsep.mem_iff_maximal fun _ => Iff.rfl).mp hd
    unfold Block.limit at hcb
    apply hmax.below (by omega)
    have hhas : c.Has (d.addr - 1) := by
      unfold Block.Has Block.limit
      omega
    have hcover : Covers (F ++ G) (d.addr - 1) := ⟨c, hc, hhas⟩
    rw [covers_append] at hcover
    exact insertBetween_covers.mpr (hcover.imp id .inr)
  · intro hno
    have hhas : b.Has b.addr := by
      unfold Block.Has Block.limit
      omega
    obtain ⟨d, hd, hdb⟩ := insertBetween_covers.mpr (.inr (.inl hhas) : Covers F b.addr ∨ _)
    refine ⟨d, hd, ?_⟩
    by_contra hne
    unfold Block.Has at hdb
    have hbelow : Covers (insertBetween F b G) (b.addr - 1) := by
      refine ⟨d, hd, ?_⟩
      unfold Block.Has
      omega
    rcases insertBetween_covers.mp hbelow with ⟨c, hc, hcx⟩ | hbx | ⟨c, hc, hcx⟩
    · have hle := hF c hc
      apply hno c (List.mem_append_left G hc)
      unfold Block.Has at hcx
      omega
    · unfold Block.Has at hbx
      omega
    · have hle := hG c hc
      unfold Block.Has at hcx
      unfold Block.limit at *
      omega

/-- An address splits a list in order. -/
theorem Separated.split (h : Separated F) (a : ℕ) :
    ∃ A B, F = A ++ B ∧ (∀ c ∈ A, c.addr < a) ∧ ∀ c ∈ B, a ≤ c.addr := by
  induction F with
  | nil => exact ⟨[], [], rfl, by simp, by simp⟩
  | cons b F ih =>
    obtain ⟨hpos, hgap, hF⟩ := separated_cons.mp h
    by_cases hb : b.addr < a
    · obtain ⟨A, B, rfl, hA, hB⟩ := ih hF
      refine ⟨b :: A, B, rfl, ?_, hB⟩
      intro c hc
      rcases List.mem_cons.mp hc with rfl | hc
      · exact hb
      · exact hA c hc
    · refine ⟨[], b :: F, rfl, by simp, ?_⟩
      intro c hc
      rcases List.mem_cons.mp hc with rfl | hc
      · omega
      · have hbc := hgap c hc
        unfold Block.limit at hbc
        omega

/-- The blocks have no address in common. -/
def Block.Disjoint (b c : Block) : Prop := ∀ x, b.Has x → ¬ c.Has x

theorem Block.Disjoint.symm (h : b.Disjoint c) : c.Disjoint b := fun x hc hb => h x hb hc

instance : Std.Symm Block.Disjoint := ⟨fun _ _ h => h.symm⟩

/-- Disjoint blocks stand one above the other. -/
theorem Block.Disjoint.le (h : b.Disjoint c) (hc : 0 < c.size) (hle : b.addr ≤ c.addr) :
    b.limit ≤ c.addr := by
  by_contra hlt
  apply h c.addr
  · exact ⟨hle, by omega⟩
  · unfold Block.Has Block.limit
    omega

theorem Separated.disjoint (h : Separated (F ++ b :: G)) :
    ∀ c ∈ F ++ G, b.Disjoint c := by
  obtain ⟨-, hbG, hFb⟩ := separated_append.mp h
  obtain ⟨-, hG, -⟩ := separated_cons.mp hbG
  intro c hc x hbx hcx
  unfold Block.Has at hbx hcx
  rcases List.mem_append.mp hc with hc | hc
  · have hgap := hFb c hc b List.mem_cons_self
    omega
  · have hgap := hG c hc
    omega

end Xeros.Foundations
