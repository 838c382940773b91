import Mathlib.Data.List.Basic
import Mathlib.Data.List.Nodup
import Mathlib.Tactic

/-!
# Intrusive doubly linked lists sharing one pair of links

Every node of a type `α` carries one successor and one predecessor link.  A family
`L : ι → List α` of abstract lists is *represented* by the links when the nodes of each
list are chained in order, no node occurs twice in a list, and no node occurs in two
lists (`Family`).  Because all lists share the two links, an update made for one list is
harmless to the others exactly by disjointness.

Three link updates are enough for every list operation used later: `Family.insert` puts a
fresh node between two neighbours, `Family.unlink` takes a node out wherever it stands, and
`Family.congr` says that links of nodes in no list do not matter.
-/

set_option autoImplicit false

namespace Xeros.Foundations

variable {α ι : Type}

/-- `Seg next prev p l n`: the nodes of `l` are chained in order, the first one points back
to `p` and the last one points on to `n`. -/
def Seg (next prev : α → Option α) : Option α → List α → Option α → Prop
  | _, [], _ => True
  | p, x :: l, n => prev x = p ∧ next x = l.head?.or n ∧ Seg next prev (some x) l n

@[simp] theorem seg_nil (next prev : α → Option α) (p n : Option α) :
    Seg next prev p [] n := trivial

@[simp] theorem seg_cons (next prev : α → Option α) (p n : Option α) (x : α) (l : List α) :
    Seg next prev p (x :: l) n ↔
      prev x = p ∧ next x = l.head?.or n ∧ Seg next prev (some x) l n := Iff.rfl

theorem getLast?_cons_or (x : α) (l : List α) (p : Option α) :
    (x :: l).getLast?.or p = l.getLast?.or (some x) := by
  cases l with
  | nil => rfl
  | cons y l => rw [List.getLast?_cons_cons]; simp [List.getLast?_cons]

/-- A chain splits at any point into two chains that meet there. -/
theorem seg_append (next prev : α → Option α) (p n : Option α) (a b : List α) :
    Seg next prev p (a ++ b) n ↔
      Seg next prev p a (b.head?.or n) ∧ Seg next prev (a.getLast?.or p) b n := by
  induction a generalizing p with
  | nil => simp
  | cons x a ih =>
    have hhead : (a ++ b).head?.or n = a.head?.or (b.head?.or n) := by
      cases a <;> simp
    rw [List.cons_append, seg_cons, seg_cons, ih, getLast?_cons_or, hhead]
    tauto

/-- Chains depend only on the links of their own nodes. -/
theorem Seg.congr {next prev next' prev' : α → Option α} {p n : Option α} {l : List α}
    (h : Seg next prev p l n) (hn : ∀ x ∈ l, next' x = next x)
    (hp : ∀ x ∈ l, prev' x = prev x) : Seg next' prev' p l n := by
  induction l generalizing p with
  | nil => trivial
  | cons x l ih =>
    obtain ⟨h1, h2, h3⟩ := h
    refine ⟨by rw [hp x (by simp), h1], by rw [hn x (by simp), h2], ih h3 ?_ ?_⟩
    · exact fun y hy => hn y (List.mem_cons_of_mem _ hy)
    · exact fun y hy => hp y (List.mem_cons_of_mem _ hy)

/-- The nodes met when following the successor links from a node, at most `n` of them. -/
def follow (next : α → Option α) : ℕ → Option α → List α
  | 0, _ => []
  | _ + 1, none => []
  | n + 1, some x => x :: follow next n (next x)

/-- A chain that ends is read back by following its links. -/
theorem Seg.follow_eq {next prev : α → Option α} {p : Option α} {l : List α}
    (h : Seg next prev p l none) {n : ℕ} (hn : l.length ≤ n) : follow next n l.head? = l := by
  induction l generalizing p n with
  | nil => cases n <;> rfl
  | cons x l ih =>
    cases n with
    | zero => simp at hn
    | succ n =>
      obtain ⟨-, hx, hs⟩ := h
      rw [Option.or_none] at hx
      rw [List.head?_cons, follow, hx, ih hs (by simpa using hn)]

/-- Following the predecessor links from the last node reads a chain backwards. -/
theorem Seg.follow_prev {next prev : α → Option α} {l : List α} {n : Option α}
    (h : Seg next prev none l n) {m : ℕ} (hm : l.length ≤ m) :
    follow prev m l.getLast? = l.reverse := by
  induction l using List.reverseRecOn generalizing m n with
  | nil => cases m <;> rfl
  | append_singleton l x ih =>
    rw [List.length_append, List.length_singleton] at hm
    obtain ⟨hl, hx, -, -⟩ := (seg_append next prev none n l [x]).mp h
    rw [Option.or_none] at hx
    cases m with
    | zero => omega
    | succ m =>
      rw [List.getLast?_concat, List.reverse_concat, follow, hx, ih hl (by omega)]

section Update

variable [DecidableEq α]

/-- `f` with its value at `a`, if `a` is a node, replaced by `b`. -/
def setAt (f : α → Option α) (a b : Option α) : α → Option α :=
  match a with
  | none => f
  | some x => Function.update f x b

@[simp] theorem setAt_none (f : α → Option α) (b : Option α) : setAt f none b = f := rfl

@[simp] theorem setAt_some (f : α → Option α) (x : α) (b : Option α) :
    setAt f (some x) b = Function.update f x b := rfl

theorem setAt_of_ne {f : α → Option α} {a b : Option α} {x : α} (h : a ≠ some x) :
    setAt f a b x = f x := by
  cases a with
  | none => rfl
  | some y => exact Function.update_of_ne (fun hxy => h (by rw [hxy])) _ _

/-- Redirecting the successor link of the last node moves the end of a chain. -/
theorem Seg.setLast {next prev : α → Option α} {p n : Option α} {l : List α}
    (h : Seg next prev p l n) (hl : l.Nodup) (n' : Option α) :
    Seg (setAt next l.getLast? n') prev p l n' := by
  obtain rfl | ⟨a, x, hax⟩ := l.eq_nil_or_concat
  · trivial
  rw [List.concat_eq_append] at hax
  subst hax
  have hx : x ∉ a := by
    have := List.nodup_append.mp hl
    exact fun hxa => this.2.2 x hxa x (by simp) rfl
  rw [seg_append] at h ⊢
  obtain ⟨ha, hx1, -, -⟩ := h
  rw [List.getLast?_append, List.getLast?_singleton, Option.some_or, setAt_some]
  refine ⟨ha.congr (fun y hy => Function.update_of_ne ?_ _ _) (fun _ _ => rfl), hx1, ?_, trivial⟩
  · rintro rfl; exact hx hy
  · simp

/-- Redirecting the predecessor link of the first node moves the start of a chain. -/
theorem Seg.setFirst {next prev : α → Option α} {p n : Option α} {l : List α}
    (h : Seg next prev p l n) (hl : l.Nodup) (p' : Option α) :
    Seg next (setAt prev l.head? p') p' l n := by
  cases l with
  | nil => trivial
  | cons x l =>
    obtain ⟨-, hx, hs⟩ := h
    have hxl : x ∉ l := (List.nodup_cons.mp hl).1
    refine ⟨by simp, hx, hs.congr (fun _ _ => rfl) fun y hy => ?_⟩
    refine Function.update_of_ne ?_ _ _
    rintro rfl
    exact hxl hy

/-- Replace the middle of a chain: besides the new middle only the two neighbours' links to it
change. -/
theorem Seg.replace {next prev next' prev' : α → Option α} {a l m b : List α}
    (h : Seg next prev none (a ++ l ++ b) none) (hnd : (a ++ l ++ b).Nodup)
    (ha : ∀ x ∈ a, prev' x = prev x) (hb : ∀ x ∈ b, next' x = next x)
    (hna : ∀ x ∈ a, next' x = if a.getLast? = some x then (m ++ b).head? else next x)
    (hpb : ∀ x ∈ b, prev' x = if b.head? = some x then (a ++ m).getLast? else prev x)
    (hm : Seg next' prev' a.getLast? m b.head?) : Seg next' prev' none (a ++ m ++ b) none := by
  rw [seg_append, seg_append, Option.or_none] at h
  obtain ⟨⟨hsa, -⟩, hsb⟩ := h
  obtain ⟨hal, hndb, -⟩ := List.nodup_append.mp hnd
  have hnda := (List.nodup_append.mp hal).1
  rw [seg_append, seg_append, Option.or_none, Option.or_none, Option.or_none]
  refine ⟨⟨?_, hm⟩, ?_⟩
  · apply (hsa.setLast hnda (m.head?.or b.head?)).congr
    · intro x hx
      rw [hna x hx]
      split_ifs with hlast
      · rw [hlast, setAt_some, Function.update_self, List.head?_append]
      · rw [setAt_of_ne hlast]
    · exact ha
  · apply (hsb.setFirst hndb ((a ++ m).getLast?)).congr
    · exact hb
    · intro x hx
      rw [hpb x hx]
      split_ifs with hfirst
      · rw [hfirst, setAt_some, Function.update_self]
      · rw [setAt_of_ne hfirst]

end Update

/-- The lists of a family are represented by one successor and one predecessor link. -/
structure Family (next prev : α → Option α) (L : ι → List α) : Prop where
  nodup : ∀ i, (L i).Nodup
  disjoint : ∀ i j x, x ∈ L i → x ∈ L j → i = j
  seg : ∀ i, Seg next prev none (L i) none

namespace Family

variable {next prev : α → Option α} {L : ι → List α}

/-- The links of nodes outside all lists do not matter. -/
theorem congr (h : Family next prev L) {next' prev' : α → Option α}
    (hn : ∀ i, ∀ x ∈ L i, next' x = next x) (hp : ∀ i, ∀ x ∈ L i, prev' x = prev x) :
    Family next' prev' L :=
  ⟨h.nodup, h.disjoint, fun i => (h.seg i).congr (hn i) (hp i)⟩

/-- The successor link of a node is the node after it in its list. -/
theorem next_eq (h : Family next prev L) {i : ι} {a b : List α} {x : α}
    (hL : L i = a ++ x :: b) : next x = b.head? := by
  have hs := h.seg i
  rw [hL, seg_append] at hs
  simpa using hs.2.2.1

/-- The predecessor link of a node is the node before it in its list. -/
theorem prev_eq (h : Family next prev L) {i : ι} {a b : List α} {x : α}
    (hL : L i = a ++ x :: b) : prev x = a.getLast? := by
  have hs := h.seg i
  rw [hL, seg_append] at hs
  simpa using hs.2.1

theorem prev_mem (h : Family next prev L) {i : ι} {x y : α} (hx : x ∈ L i)
    (hy : prev x = some y) : y ∈ L i := by
  obtain ⟨a, b, hL⟩ := List.append_of_mem hx
  rw [h.prev_eq hL] at hy
  rw [hL]
  simp [List.mem_of_getLast? hy]

/-- Within a list the two links are inverse to each other. -/
theorem next_eq_some_iff (h : Family next prev L) {i j : ι} {x y : α} (hx : x ∈ L i)
    (hy : y ∈ L j) : next x = some y ↔ prev y = some x := by
  constructor
  · intro hxy
    obtain ⟨a, b, hL⟩ := List.append_of_mem hx
    rw [h.next_eq hL] at hxy
    obtain ⟨b', rfl⟩ : ∃ b', b = y :: b' := by
      cases b with
      | nil => simp at hxy
      | cons z b' => exact ⟨b', by simpa using hxy⟩
    rw [h.prev_eq (i := i) (a := a ++ [x]) (b := b') (by simpa using hL)]
    simp
  · intro hyx
    obtain ⟨a, b, hL⟩ := List.append_of_mem hy
    rw [h.prev_eq hL] at hyx
    obtain ⟨a', rfl⟩ : ∃ a', a = a' ++ [x] := by
      obtain rfl | ⟨a', z, rfl⟩ := a.eq_nil_or_concat
      · simp at hyx
      · exact ⟨a', by simpa using hyx⟩
    rw [h.next_eq (i := j) (a := a') (b := y :: b) (by simpa using hL)]
    simp

variable [DecidableEq α] [DecidableEq ι]

/-- Putting a fresh node between the two halves of one list. -/
theorem insert (h : Family next prev L) {i : ι} {x : α} {a b : List α}
    (hfresh : ∀ j, x ∉ L j) (hL : L i = a ++ b) :
    Family (Function.update (setAt next a.getLast? (some x)) x b.head?)
      (Function.update (setAt prev b.head? (some x)) x a.getLast?)
      (Function.update L i (a ++ x :: b)) := by
  have hxa : x ∉ a := fun hx => hfresh i (by simp [hL, hx])
  have hxb : x ∉ b := fun hx => hfresh i (by simp [hL, hx])
  have hnd := h.nodup i
  rw [hL] at hnd
  have hna := (List.nodup_append.mp hnd).1
  have hnb := (List.nodup_append.mp hnd).2.1
  have hab : ∀ y ∈ a, y ∉ b := fun y hya hyb => (List.nodup_append.mp hnd).2.2 y hya y hyb rfl
  -- a node of another list is neither `x` nor one of its two new neighbours
  have hother : ∀ j, j ≠ i → ∀ y ∈ L j, y ≠ x ∧ a.getLast? ≠ some y ∧ b.head? ≠ some y := by
    intro j hj y hy
    refine ⟨fun hyx => hfresh j (hyx ▸ hy), fun hya => ?_, fun hyb => ?_⟩
    · exact hj (h.disjoint j i y hy (by simp [hL, List.mem_of_getLast? hya]))
    · exact hj (h.disjoint j i y hy (by simp [hL, List.mem_of_mem_head? hyb]))
  refine ⟨fun j => ?_, fun j k y hj hk => ?_, fun j => ?_⟩
  · by_cases hj : j = i
    · subst hj
      simp only [Function.update_self]
      rw [List.nodup_append, List.nodup_cons]
      refine ⟨hna, ⟨hxb, hnb⟩, fun y hy z hz hyz => ?_⟩
      subst hyz
      rcases List.mem_cons.mp hz with rfl | hz
      · exact hxa hy
      · exact hab y hy hz
    · simpa [hj] using h.nodup j
  · have hmem : ∀ j, y ∈ Function.update L i (a ++ x :: b) j → (y = x ∧ j = i) ∨ y ∈ L j := by
      intro j hy
      by_cases hj : j = i
      · subst hj
        simp only [Function.update_self, List.mem_append, List.mem_cons] at hy
        rw [hL, List.mem_append]
        tauto
      · rw [Function.update_of_ne hj] at hy
        exact .inr hy
    rcases hmem j hj with ⟨hy, hji⟩ | hj' <;> rcases hmem k hk with ⟨hy', hki⟩ | hk'
    · rw [hji, hki]
    · exact absurd (hy ▸ hk') (hfresh k)
    · exact absurd (hy' ▸ hj') (hfresh j)
    · exact h.disjoint j k y hj' hk'
  · by_cases hj : j = i
    · subst hj
      rw [Function.update_self]
      have hs := h.seg j
      rw [hL, seg_append] at hs
      simp only [Option.or_none] at hs
      rw [seg_append, seg_cons]
      simp only [List.head?_cons, Option.or_none, Function.update_self, true_and]
      constructor
      · refine (hs.1.setLast hna (some x)).congr (fun y hy => ?_) (fun y hy => ?_)
        · exact Function.update_of_ne (ne_of_mem_of_not_mem hy hxa) _ _
        · rw [Function.update_of_ne (ne_of_mem_of_not_mem hy hxa)]
          exact setAt_of_ne fun hyb => hab y hy (List.mem_of_mem_head? hyb)
      · refine (hs.2.setFirst hnb (some x)).congr (fun y hy => ?_) (fun y hy => ?_)
        · rw [Function.update_of_ne (ne_of_mem_of_not_mem hy hxb)]
          exact setAt_of_ne fun hya => hab y (List.mem_of_getLast? hya) hy
        · exact Function.update_of_ne (ne_of_mem_of_not_mem hy hxb) _ _
    · rw [Function.update_of_ne hj]
      refine (h.seg j).congr (fun y hy => ?_) (fun y hy => ?_)
      · obtain ⟨h1, h2, -⟩ := hother j hj y hy
        rw [Function.update_of_ne h1, setAt_of_ne h2]
      · obtain ⟨h1, -, h3⟩ := hother j hj y hy
        rw [Function.update_of_ne h1, setAt_of_ne h3]

/-- Taking a node out of its list, wherever it stands. -/
theorem unlink (h : Family next prev L) {i : ι} {x : α} (hx : x ∈ L i) :
    Family (Function.update (setAt next (prev x) (next x)) x none)
      (Function.update (setAt prev (next x) (prev x)) x none)
      (Function.update L i ((L i).erase x)) := by
  obtain ⟨a, b, hL⟩ := List.append_of_mem hx
  have hnd := h.nodup i
  rw [hL, List.nodup_append, List.nodup_cons] at hnd
  obtain ⟨hna, ⟨hxb, hnb⟩, hab⟩ := hnd
  have hxa : x ∉ a := fun hxa => hab x hxa x (by simp) rfl
  have hdis : ∀ y ∈ a, y ∉ b := fun y hya hyb => hab y hya y (by simp [hyb]) rfl
  have herase : (L i).erase x = a ++ b := by
    rw [hL, List.erase_append_right _ hxa, List.erase_cons_head]
  rw [herase, h.next_eq hL, h.prev_eq hL]
  have hother : ∀ j, j ≠ i → ∀ y ∈ L j, y ≠ x ∧ a.getLast? ≠ some y ∧ b.head? ≠ some y := by
    intro j hj y hy
    refine ⟨fun hyx => hj (h.disjoint j i y hy (hyx ▸ hx)), fun hya => ?_, fun hyb => ?_⟩
    · exact hj (h.disjoint j i y hy (by simp [hL, List.mem_of_getLast? hya]))
    · exact hj (h.disjoint j i y hy (by simp [hL, List.mem_of_mem_head? hyb]))
  have hsub : ∀ j y, y ∈ Function.update L i (a ++ b) j → y ∈ L j := by
    intro j y hy
    by_cases hj : j = i
    · subst hj
      rw [Function.update_self] at hy
      rw [hL]
      simp only [List.mem_append, List.mem_cons] at hy ⊢
      tauto
    · rwa [Function.update_of_ne hj] at hy
  refine ⟨fun j => ?_, fun j k y hj hk => h.disjoint j k y (hsub j y hj) (hsub k y hk), fun j => ?_⟩
  · by_cases hj : j = i
    · subst hj
      rw [Function.update_self, List.nodup_append]
      exact ⟨hna, hnb, fun y hy z hz hyz => hdis y hy (hyz ▸ hz)⟩
    · rw [Function.update_of_ne hj]
      exact h.nodup j
  · by_cases hj : j = i
    · subst hj
      have hs := h.seg j
      rw [hL, seg_append, seg_cons] at hs
      obtain ⟨hsa, -, -, hsb⟩ := hs
      rw [Function.update_self, seg_append]
      simp only [Option.or_none]
      constructor
      · refine (hsa.setLast hna b.head?).congr (fun y hy => ?_) (fun y hy => ?_)
        · exact Function.update_of_ne (ne_of_mem_of_not_mem hy hxa) _ _
        · rw [Function.update_of_ne (ne_of_mem_of_not_mem hy hxa)]
          exact setAt_of_ne fun hyb => hdis y hy (List.mem_of_mem_head? hyb)
      · refine (hsb.setFirst hnb a.getLast?).congr (fun y hy => ?_) (fun y hy => ?_)
        · rw [Function.update_of_ne (ne_of_mem_of_not_mem hy hxb)]
          exact setAt_of_ne fun hya => hdis y (List.mem_of_getLast? hya) hy
        · exact Function.update_of_ne (ne_of_mem_of_not_mem hy hxb) _ _
    · rw [Function.update_of_ne hj]
      refine (h.seg j).congr (fun y hy => ?_) (fun y hy => ?_)
      · obtain ⟨h1, h2, -⟩ := hother j hj y hy
        rw [Function.update_of_ne h1, setAt_of_ne h2]
      · obtain ⟨h1, -, h3⟩ := hother j hj y hy
        rw [Function.update_of_ne h1, setAt_of_ne h3]

end Family

end Xeros.Foundations
