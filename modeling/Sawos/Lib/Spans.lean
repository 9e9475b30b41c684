import Mathlib.Algebra.BigOperators.Group.List.Basic
import Mathlib.Algebra.GroupWithZero.Nat
import Mathlib.Data.List.Range

/-! # Spans of bytes, and measures that add up over them

A span is a number of consecutive bytes. Whatever is cut, handed on and joined together again keeps its measure, for
every measure that adds up where a span is cut in two. That a list of spans tiles another is the case of the measures
that count one byte. -/

namespace Spans

/-- Of the summands of a sum one changes. -/
theorem sum_range_change {f g : Nat → Nat} {k : Nat} (hi : i < k) (same : ∀ j ≠ i, g j = f j) :
    ((List.range k).map g).sum + f i = ((List.range k).map f).sum + g i := by
  induction k with
  | zero => omega
  | succ k ih =>
    simp only [List.range_succ, List.map_append, List.sum_append, List.map_cons, List.map_nil, List.sum_cons,
      List.sum_nil]
    by_cases last : i = k
    · subst last
      have front : (List.range i).map g = (List.range i).map f :=
        List.map_congr_left fun j hj => same j (Nat.ne_of_lt (List.mem_range.mp hj))
      rw [front]
      omega
    · have := ih (by omega)
      rw [same k (fun h => last h.symm)]
      omega

structure Span where
  base : Nat
  len : Nat
  deriving DecidableEq

def Span.top (x : Span) : Nat := x.base + x.len

def Span.Has (x : Span) (a : Nat) : Prop := x.base ≤ a ∧ a < x.top

instance (x : Span) (a : Nat) : Decidable (x.Has a) := inferInstanceAs (Decidable (_ ∧ _))

/-- No byte is in both. -/
def Span.Apart (x y : Span) : Prop := ∀ a, ¬(x.Has a ∧ y.Has a)

/-- How often a span has the byte `a`: once or not at all. -/
def Span.hits (a : Nat) (x : Span) : Nat := if x.Has a then 1 else 0

/-- A measure adds up where a span is cut in two. -/
def Additive (μ : Span → Nat) : Prop := ∀ b l m, μ ⟨b, l + m⟩ = μ ⟨b, l⟩ + μ ⟨b + l, m⟩

/-- The measure of all spans of a list. -/
def total (μ : Span → Nat) (l : List Span) : Nat := (l.map μ).sum

section
variable {μ : Span → Nat} {l l' : List Span} {x y : Span} {a : Nat}

@[simp] theorem total_nil : total μ [] = 0 := rfl
@[simp] theorem total_cons : total μ (x :: l) = μ x + total μ l := by simp [total]
@[simp] theorem total_append : total μ (l ++ l') = total μ l + total μ l' := by simp [total]

theorem additive_len : Additive Span.len := fun _ _ _ => rfl

theorem additive_hits (a : Nat) : Additive (Span.hits a) := by
  intro b l m
  simp only [Span.hits, Span.Has, Span.top]
  by_cases below : a < b + l
  · by_cases above : b ≤ a
    · have first : a < b + (l + m) := by omega
      have second : ¬b + l ≤ a := by omega
      simp [below, above, first, second]
    · have second : ¬b + l ≤ a := by omega
      simp [above, second]
  · have second : b + l ≤ a := by omega
    have above : b ≤ a := by omega
    simp [below, above, second, Nat.add_assoc]

theorem Additive.empty (h : Additive μ) {b : Nat} : μ ⟨b, 0⟩ = 0 := by
  have := h b 0 0
  simp only [Nat.add_zero] at this
  omega

/-- The front of a span and the rest of it. -/
theorem Additive.front (h : Additive μ) {b l m : Nat} (fits : m ≤ l) : μ ⟨b, m⟩ + μ ⟨b + m, l - m⟩ = μ ⟨b, l⟩ := by
  have := h b m (l - m)
  rw [Nat.add_sub_cancel' fits] at this
  exact this.symm

theorem hits_eq_one : x.hits a = 1 ↔ x.Has a := by
  unfold Span.hits
  split <;> simp [*]

theorem hits_le_one : x.hits a ≤ 1 := by
  unfold Span.hits
  split <;> omega

theorem le_total (h : x ∈ l) : μ x ≤ total μ l := by
  induction l with
  | nil => cases h
  | cons y l ih =>
    rw [total_cons]
    rcases List.mem_cons.mp h with rfl | h
    · omega
    · have := ih h
      omega

theorem hits_pos_iff : 0 < total (Span.hits a) l ↔ ∃ x ∈ l, x.Has a := by
  induction l with
  | nil => simp
  | cons y l ih =>
    rw [total_cons, List.exists_mem_cons_iff, ← ih, ← hits_eq_one]
    have := hits_le_one (x := y) (a := a)
    omega

end

/-- A list of spans fills another span: it has the same measure, for every measure. -/
def Fills (l : List Span) (whole : Span) : Prop := ∀ μ, Additive μ → total μ l = μ whole

namespace Fills
variable {l : List Span} {whole x : Span}

/-- Then every byte of the whole is in one of the spans, and no other byte is. -/
theorem covers (h : Fills l whole) (a : Nat) : (∃ x ∈ l, x.Has a) ↔ whole.Has a := by
  have same := h (Span.hits a) (additive_hits a)
  rw [← hits_pos_iff, same, ← hits_eq_one]
  have := hits_le_one (x := whole) (a := a)
  omega

/-- And no two of them overlap. -/
theorem apart (h : Fills l whole) : l.Pairwise Span.Apart := by
  have few : ∀ a, total (Span.hits a) l ≤ 1 := by
    intro a
    rw [h (Span.hits a) (additive_hits a)]
    exact hits_le_one
  clear h
  induction l with
  | nil => exact .nil
  | cons y l ih =>
    refine .cons (fun z hz a both => ?_) (ih fun a => ?_)
    · have := few a
      rw [total_cons, hits_eq_one.mpr both.1] at this
      have hit := (le_total hz : Span.hits a _ ≤ _)
      rw [hits_eq_one.mpr both.2] at hit
      omega
    · have := few a
      rw [total_cons] at this
      omega

theorem bytes (h : Fills l whole) : total Span.len l = whole.len := h Span.len additive_len

/-- A span that has a byte, and lies in the whole, ends in it. -/
theorem top_le (h : Fills l whole) (hx : x ∈ l) (some : 0 < x.len) : x.top ≤ whole.top := by
  have last : x.Has (x.base + x.len - 1) := ⟨by omega, by simp only [Span.top]; omega⟩
  have := (h.covers _).mp ⟨x, hx, last⟩
  simp only [Span.Has, Span.top] at this ⊢
  omega

end Fills

theorem Span.Apart.symm {x y : Span} (h : x.Apart y) : y.Apart x := fun a both => h a both.symm

theorem Span.apart_of_empty {x y : Span} (h : x.len = 0) : x.Apart y := by
  rintro a ⟨⟨low, high⟩, -⟩
  simp only [Span.top, h] at high
  omega

/-- Of two spans that are apart, the one that begins lower ends before the other begins. -/
theorem Span.Apart.below {x y : Span} (h : x.Apart y) (order : x.base ≤ y.base) (some : 0 < y.len) :
    x.top ≤ y.base := by
  have := h y.base
  simp only [Span.Has, Span.top] at this ⊢
  omega

/-! ### Ladders -/

/-- The first span ends below the second, with a gap between them. -/
def Span.Gap (x y : Span) : Prop := x.top < y.base

/-- Spans with bytes, each below the next with a gap between them, and all below `limit`. -/
structure Ladder (l : List Span) (limit : Nat) : Prop where
  gaps : l.Pairwise Span.Gap
  some : ∀ x ∈ l, 0 < x.len
  below : ∀ x ∈ l, x.top < limit

/-- `x` goes into a list of spans: between two that it does not touch, or joined to those that it touches. -/
inductive Inserted (x : Span) : List Span → List Span → Prop
  | alone {pre suf : List Span} : (∀ p ∈ pre, p.top < x.base) → (∀ q ∈ suf, x.top < q.base) →
      Inserted x (pre ++ suf) (pre ++ x :: suf)
  | before {pre suf : List Span} {p : Span} : p.top = x.base → (∀ q ∈ suf, x.top < q.base) →
      Inserted x (pre ++ p :: suf) (pre ++ ⟨p.base, p.len + x.len⟩ :: suf)
  | after {pre suf : List Span} {q : Span} : x.top = q.base → (∀ p ∈ pre, p.top < x.base) →
      Inserted x (pre ++ q :: suf) (pre ++ ⟨x.base, q.len + x.len⟩ :: suf)
  | between {pre suf : List Span} {p q : Span} : p.top = x.base → x.top = q.base →
      Inserted x (pre ++ p :: q :: suf) (pre ++ ⟨p.base, p.len + x.len + q.len⟩ :: suf)

section
variable {l l' pre suf : List Span} {x y : Span} {limit limit' : Nat}

theorem Ladder.mono (h : Ladder l limit) (le : limit ≤ limit') : Ladder l limit' :=
  ⟨h.gaps, h.some, fun x hx => Nat.lt_of_lt_of_le (h.below x hx) le⟩

theorem ladder_nil : Ladder [] limit := ⟨.nil, by simp, by simp⟩

theorem ladder_append : Ladder (pre ++ y :: suf) limit ↔
    (Ladder pre limit ∧ Ladder suf limit ∧ 0 < y.len ∧ y.top < limit) ∧
      (∀ p ∈ pre, p.top < y.base) ∧ (∀ q ∈ suf, y.top < q.base) ∧ ∀ p ∈ pre, ∀ q ∈ suf, p.top < q.base := by
  constructor
  · rintro ⟨gaps, some, below⟩
    simp only [List.pairwise_append, List.pairwise_cons, List.forall_mem_cons, Span.Gap] at gaps
    simp only [List.forall_mem_append, List.forall_mem_cons] at some below
    obtain ⟨front, ⟨middle, back⟩, across⟩ := gaps
    exact ⟨⟨⟨front, some.1, below.1⟩, ⟨back, some.2.2, below.2.2⟩, some.2.1, below.2.1⟩,
      fun p hp => (across p hp).1, middle, fun p hp => (across p hp).2⟩
  · rintro ⟨⟨front, back, own, top⟩, left, right, across⟩
    refine ⟨?_, ?_, ?_⟩
    · simp only [List.pairwise_append, List.pairwise_cons, List.forall_mem_cons, Span.Gap]
      exact ⟨front.gaps, ⟨right, back.gaps⟩, fun p hp => ⟨left p hp, across p hp⟩⟩
    · simp only [List.forall_mem_append, List.forall_mem_cons]
      exact ⟨front.some, own, back.some⟩
    · simp only [List.forall_mem_append, List.forall_mem_cons]
      exact ⟨front.below, top, back.below⟩

theorem Ladder.parts (h : Ladder (pre ++ suf) limit) : Ladder pre limit ∧ Ladder suf limit :=
  ⟨⟨(List.pairwise_append.mp h.gaps).1, fun y hy => h.some y (List.mem_append_left _ hy),
      fun y hy => h.below y (List.mem_append_left _ hy)⟩,
    ⟨(List.pairwise_append.mp h.gaps).2.1, fun y hy => h.some y (List.mem_append_right _ hy),
      fun y hy => h.below y (List.mem_append_right _ hy)⟩⟩

/-- A span leaves a ladder. -/
theorem Ladder.remove (h : Ladder (pre ++ y :: suf) limit) : Ladder (pre ++ suf) limit := by
  obtain ⟨gaps, some, below⟩ := h
  have sub : (pre ++ suf).Sublist (pre ++ y :: suf) := .append_left (.cons y (.refl suf)) pre
  exact ⟨gaps.sublist sub, fun x hx => some x (sub.subset hx), fun x hx => below x (sub.subset hx)⟩

/-- A span of a ladder loses its front. -/
theorem Ladder.shrink (h : Ladder (pre ++ y :: suf) limit) {n : Nat} (rest : n < y.len) :
    Ladder (pre ++ ⟨y.base + n, y.len - n⟩ :: suf) limit := by
  rw [ladder_append] at h ⊢
  obtain ⟨⟨front, back, own, top⟩, left, right, across⟩ := h
  simp only [Span.top] at top left right across ⊢
  refine ⟨⟨front, back, by omega, by omega⟩, fun p hp => ?_, fun q hq => ?_, across⟩
  · have := left p hp
    omega
  · have := right q hq
    omega

/-- Spans below `x`, of which the last does not touch it: none does. -/
theorem Ladder.clear_before (h : Ladder pre limit) (before : ∀ p ∈ pre, p.top ≤ x.base)
    (last : ∀ p ∈ pre.getLast?, p.top ≠ x.base) : ∀ p ∈ pre, p.top < x.base := by
  rcases List.eq_nil_or_concat pre with rfl | ⟨front, m, rfl⟩
  · simp
  · rw [List.concat_eq_append] at h before last ⊢
    obtain ⟨⟨-, -, some, -⟩, left, -, -⟩ := ladder_append.mp h
    have touch := last m (by simp)
    have below := before m (by simp)
    intro p hp
    rcases List.mem_append.mp hp with hp | hp
    · have := left p hp
      simp only [Span.top] at this below touch ⊢
      omega
    · cases List.mem_singleton.mp hp
      omega

/-- Spans above `x`, of which the first does not touch it: none does. -/
theorem Ladder.clear_after (h : Ladder suf limit) (after : ∀ q ∈ suf, x.top ≤ q.base)
    (head : ∀ q ∈ suf.head?, x.top ≠ q.base) : ∀ q ∈ suf, x.top < q.base := by
  cases suf with
  | nil => simp
  | cons m rest =>
    obtain ⟨⟨-, -, some, -⟩, -, right, -⟩ := (@ladder_append [] _ _ _).mp h
    have touch := head m rfl
    have above := after m List.mem_cons_self
    intro q hq
    rcases List.mem_cons.mp hq with rfl | hq
    · omega
    · have := right q hq
      simp only [Span.top] at this above touch ⊢
      omega

/-- Two spans that touch are one. -/
theorem Additive.join {μ : Span → Nat} (h : Additive μ) (touch : x.top = y.base) :
    μ ⟨x.base, x.len + y.len⟩ = μ x + μ y := by
  have := h x.base x.len y.len
  rw [show x.base + x.len = y.base from touch] at this
  exact this

theorem Inserted.total {μ : Span → Nat} (additive : Additive μ) (h : Inserted x l l') :
    total μ l' = total μ l + μ x := by
  cases h with
  | alone => simp only [total_append, total_cons]; omega
  | before touch =>
    simp only [total_append, total_cons, additive.join touch]
    omega
  | @after pre suf q touch =>
    have joined := additive.join touch
    rw [Nat.add_comm x.len q.len] at joined
    simp only [total_append, total_cons, joined]
    omega
  | @between pre suf p q touch touch' =>
    have joined := additive.join (x := ⟨p.base, p.len + x.len⟩) (y := q) (by simp only [Span.top] at *; omega)
    simp only [total_append, total_cons, joined, additive.join touch]
    omega

/-- A ladder stays one, and may now reach its limit. -/
theorem Inserted.ladder (h : Inserted x l l') (hl : Ladder l limit) (some : 0 < x.len) (top : x.top ≤ limit) :
    Ladder l' (limit + 1) := by
  have weak := hl.mono (Nat.le_succ limit)
  cases h with
  | alone before after =>
    obtain ⟨front, back⟩ := weak.parts
    refine ladder_append.mpr ⟨⟨front, back, some, Nat.lt_succ_of_le top⟩, before, after, fun p hp q hq => ?_⟩
    exact (List.pairwise_append.mp weak.gaps).2.2 p hp q hq
  | before touch after =>
    obtain ⟨⟨front, back, own, -⟩, left, -, across⟩ := ladder_append.mp weak
    simp only [Span.top] at touch top left across after
    refine ladder_append.mpr ⟨⟨front, back, by simp only; omega, ?_⟩, left, fun q hq => ?_, across⟩
    · simp only [Span.top]
      omega
    · have := after q hq
      simp only [Span.top]
      omega
  | after touch before =>
    obtain ⟨⟨front, back, own, below⟩, left, right, across⟩ := ladder_append.mp weak
    simp only [Span.top] at touch below right before
    refine ladder_append.mpr ⟨⟨front, back, by simp only; omega, ?_⟩, before, fun q hq => ?_, across⟩
    · simp only [Span.top]
      omega
    · have := right q hq
      simp only [Span.top]
      omega
  | between touch touch' =>
    obtain ⟨⟨front, rest, own, -⟩, left, right, across⟩ := ladder_append.mp weak
    obtain ⟨⟨-, back, -, below⟩, -, next, -⟩ := (@ladder_append [] _ _ _).mp rest
    simp only [Span.top] at touch touch' below next left
    refine ladder_append.mpr ⟨⟨front, back, by simp only; omega, ?_⟩, left, fun q hq => ?_, fun p hp q hq => ?_⟩
    · simp only [Span.top]
      omega
    · have := next q hq
      simp only [Span.top]
      omega
    · exact across p hp q (List.mem_cons_of_mem _ hq)

/-- The last span of a ladder reaches its limit, and the ladder without it ends below it; or none does. -/
theorem Ladder.settle (h : Ladder (pre ++ [y]) (limit + 1)) :
    (y.top = limit → Ladder pre y.base) ∧ (y.top ≠ limit → Ladder (pre ++ [y]) limit) := by
  obtain ⟨⟨front, -, own, top⟩, left, -, -⟩ := ladder_append.mp h
  refine ⟨fun _ => ⟨front.gaps, front.some, left⟩, fun other => ladder_append.mpr
    ⟨⟨?_, ladder_nil, own, by omega⟩, left, ?_⟩⟩
  · refine ⟨front.gaps, front.some, fun p hp => ?_⟩
    have := left p hp
    simp only [Span.top] at this top other ⊢
    omega
  · simp

/-- The head of a ladder has its lowest byte, and its own bytes are those below the gap. -/
theorem Ladder.head_top (h : Ladder (x :: l) limit) {a : Nat} (from' : x.base ≤ a)
    (below : ∀ b, x.base ≤ b → b ≤ a → ∃ z ∈ x :: l, z.Has b) :
    a < x.top := by
  by_contra high
  obtain ⟨z, hz, has⟩ := below x.top (by simp only [Span.top]; omega) (by omega)
  rcases List.mem_cons.mp hz with rfl | hz
  · exact absurd has.2 (Nat.lt_irrefl _)
  · have gap := (List.pairwise_cons.mp h.gaps).1 z hz
    have low := has.1
    simp only [Span.Gap] at gap
    omega

/-- Two ladders with the same bytes begin at the same byte, and their heads end at the same. -/
theorem Ladder.head_eq (h : Ladder (x :: l) limit) (h' : Ladder (y :: l') limit')
    (same : ∀ a, (∃ z ∈ x :: l, z.Has a) ↔ ∃ z ∈ y :: l', z.Has a) : x = y := by
  have low : ∀ {x : Span} {l : List Span} {limit : Nat}, Ladder (x :: l) limit → ∀ z ∈ x :: l, x.base ≤ z.base := by
    intro x l limit h z hz
    rcases List.mem_cons.mp hz with rfl | hz
    · rfl
    · have gap := (List.pairwise_cons.mp h.gaps).1 z hz
      simp only [Span.Gap, Span.top] at gap
      omega
  have own : ∀ {x : Span} {l : List Span} {a : Nat}, x.Has a → ∃ z ∈ x :: l, z.Has a := fun has =>
    ⟨_, List.mem_cons_self, has⟩
  have first : ∀ {x y : Span} {l l' : List Span} {limit limit' : Nat}, Ladder (x :: l) limit → Ladder (y :: l') limit' →
      (∀ a, (∃ z ∈ x :: l, z.Has a) → ∃ z ∈ y :: l', z.Has a) → y.base ≤ x.base := by
    intro x y l l' limit limit' h h' into
    have some := h.some x List.mem_cons_self
    obtain ⟨z, hz, has⟩ := into x.base (own ⟨Nat.le_refl _, by simp only [Span.top]; omega⟩)
    exact Nat.le_trans (low h' z hz) has.1
  have last : ∀ {x y : Span} {l l' : List Span} {limit : Nat}, Ladder (x :: l) limit → 0 < y.len → x.base = y.base →
      (∀ a, (∃ z ∈ y :: l', z.Has a) → ∃ z ∈ x :: l, z.Has a) → y.top ≤ x.top := by
    intro x y l l' limit h some base into
    have := h.head_top (a := y.top - 1) (by simp only [Span.top]; omega) fun b from' to' =>
      into b (own ⟨by omega, by simp only [Span.top] at to' ⊢; omega⟩)
    omega
  have base : x.base = y.base := Nat.le_antisymm (first h' h fun a => (same a).mpr) (first h h' fun a => (same a).mp)
  have top : x.top = y.top := Nat.le_antisymm
    (last h' (h.some x List.mem_cons_self) base.symm fun a => (same a).mp)
    (last h (h'.some y List.mem_cons_self) base fun a => (same a).mpr)
  obtain ⟨b, n⟩ := x
  obtain ⟨b', n'⟩ := y
  simp only [Span.top] at base top
  simp only [Span.mk.injEq]
  omega

/-- Two lists with the same bytes still have the same without a span that is apart from the rest of each. -/
theorem same_rest (apart : ∀ z ∈ l, x.Apart z) (apart' : ∀ z ∈ l', x.Apart z)
    (same : ∀ a, (∃ z ∈ x :: l, z.Has a) ↔ ∃ z ∈ x :: l', z.Has a) (a : Nat) :
    (∃ z ∈ l, z.Has a) ↔ ∃ z ∈ l', z.Has a := by
  have whole := same a
  simp only [List.exists_mem_cons_iff] at whole
  constructor
  · rintro ⟨z, hz, has⟩
    exact (whole.mp (Or.inr ⟨z, hz, has⟩)).resolve_left fun own => apart z hz a ⟨own, has⟩
  · rintro ⟨z, hz, has⟩
    exact (whole.mpr (Or.inr ⟨z, hz, has⟩)).resolve_left fun own => apart' z hz a ⟨own, has⟩

/-- A ladder is determined by the bytes that it has. -/
theorem Ladder.unique : ∀ {l l' : List Span}, Ladder l limit → Ladder l' limit' →
    (∀ a, (∃ z ∈ l, z.Has a) ↔ ∃ z ∈ l', z.Has a) → l = l'
  | [], [], _, _, _ => rfl
  | [], y :: l', _, h', same => by
    have some := h'.some y List.mem_cons_self
    obtain ⟨z, hz, -⟩ := (same y.base).mpr ⟨y, List.mem_cons_self, Nat.le_refl _, by simp only [Span.top]; omega⟩
    cases hz
  | x :: l, [], h, _, same => by
    have some := h.some x List.mem_cons_self
    obtain ⟨z, hz, -⟩ := (same x.base).mp ⟨x, List.mem_cons_self, Nat.le_refl _, by simp only [Span.top]; omega⟩
    cases hz
  | x :: l, y :: l', h, h', same => by
    obtain rfl := h.head_eq h' same
    have tail : Ladder l limit := (show Ladder ([x] ++ l) limit from h).parts.2
    have tail' : Ladder l' limit' := (show Ladder ([x] ++ l') limit' from h').parts.2
    have behind : ∀ {m : List Span} {bound : Nat}, Ladder (x :: m) bound → ∀ z ∈ m, x.Apart z := by
      rintro m bound hm z hz a ⟨own, has⟩
      have gap := (List.pairwise_cons.mp hm.gaps).1 z hz
      have low := has.1
      have high := own.2
      simp only [Span.Gap] at gap
      omega
    have rest := same_rest (behind h) (behind h') same
    rw [tail.unique tail' rest]

/-- A ladder below a span, and where the span begins, are determined by the bytes that they have, when it is known where
    the span ends. -/
theorem Ladder.unique_below (h : Ladder l x.base) (h' : Ladder l' y.base) (top : x.top = y.top)
    (same : ∀ a, (∃ z ∈ x :: l, z.Has a) ↔ ∃ z ∈ y :: l', z.Has a) : x = y ∧ l = l' := by
  have lower : ∀ {x y : Span} {l l' : List Span}, Ladder l' y.base → x.top = y.top →
      (∀ a, (∃ z ∈ x :: l, z.Has a) → ∃ z ∈ y :: l', z.Has a) → y.base ≤ x.base := by
    intro x y l l' h' top into
    -- Else the byte below the span would be in the ladder.
    by_contra above
    obtain ⟨z, hz, has⟩ := into (y.base - 1) ⟨x, List.mem_cons_self, by omega, by simp only [Span.top] at top ⊢; omega⟩
    rcases List.mem_cons.mp hz with rfl | hz
    · have := has.1
      omega
    · have below := h'.below z hz
      have high := has.2
      omega
  have base : x.base = y.base := Nat.le_antisymm (lower h top.symm fun a => (same a).mpr)
    (lower h' top fun a => (same a).mp)
  have one : x = y := by
    obtain ⟨b, n⟩ := x
    obtain ⟨b', n'⟩ := y
    simp only [Span.top] at base top
    simp only [Span.mk.injEq]
    omega
  subst one
  have above : ∀ {m : List Span}, Ladder m x.base → ∀ z ∈ m, x.Apart z := by
    rintro m hm z hz a ⟨own, has⟩
    have below := hm.below z hz
    have high := has.2
    have low := own.1
    omega
  exact ⟨rfl, h.unique h' (same_rest (above h) (above h') same)⟩

end

end Spans
