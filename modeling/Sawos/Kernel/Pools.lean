import Sawos.Kernel.FreeLists

/-! # Memory pools

The bytes that a pool was given at the boot are, at any time, divided among its frontier, its free ranges, the live
regions that were cut from it, what it dropped, and what was donated to slabs. -/

namespace Sawos
open Exec Spans

section
variable [Hal]

def MemorySlot.span (m : MemorySlot) : Span := ⟨m.base, m.len⟩

/-- Slot `i` is a live region cut from pool `r`. -/
def MemorySlot.CutFrom (m : MemorySlot) (i r : Nat) : Prop := i ≠ r ∧ m.state = .live ∧ m.root = some r

instance (m : MemorySlot) (i r : Nat) : Decidable (m.CutFrom i r) := inferInstanceAs (Decidable (_ ∧ _))

/-- The live regions cut from pool `r`, without slot `e`. -/
def K.pieces (s : K) (e : Option Nat) (r : Nat) : List Span :=
  ((List.range s.memories.cap).filter fun i => (s.memories.slot i).CutFrom i r ∧ some i ≠ e).map fun i =>
    (s.memories.slot i).span

/-- What the bytes of pool `r` are divided into, without slot `e`, while the spans `hand` are in hand. -/
def K.shares (s : K) (e : Option Nat) (hand : List Span) (r : Nat) (l : List Nat) : List Span :=
  let root := s.memories.slot r
  root.span :: (s.freeSpans l ++ s.pieces e r ++ root.history.lost ++ root.history.donated ++ hand)

/-- The range of the boot table that pool `r` was made for. The boot makes the pools in the order of the table. -/
def bootRange (r : Nat) : Option Span :=
  ((Build.bootRegions.filter fun row => row.kind = 0)[r]?).map fun row => ⟨Hal.virtToPhys row.base, row.len⟩

/-- Pool `r`, whose free list is `l`, with the spans `hand` in hand: its bytes are all accounted for. -/
structure PoolBody (e : Option Nat) (hand : List Span) (s : K) (r : Nat)
    (l : List Nat) : Prop extends FreeList s r l where
  fills : Fills (s.shares e hand r l) (s.memories.slot r).history.whole
  top : (s.memories.slot r).span.top = (s.memories.slot r).history.whole.top
  dropped : (s.memories.slot r).dropped = total Span.len (s.memories.slot r).history.lost
  origin : bootRange r = some (s.memories.slot r).history.whole

/-- Its free list is a ladder below the frontier, and its counter of bytes that are out counts those in hand. -/
structure Pool (e : Option Nat) (hand : List Span) (s : K) (r : Nat)
    (l : List Nat) : Prop extends PoolBody e hand s r l where
  ladder : Ladder (s.freeSpans l) (s.memories.slot r).base
  out : (s.memories.slot r).outBytes =
    total Span.len (s.pieces e r) + total Span.len (s.memories.slot r).history.donated + total Span.len hand

/-! ### Pieces -/

section
variable {s t : K} {e : Option Nat} {r i : Nat} {l l' : List Nat} {hand : List Span} {μ : Span → Nat}

/-- What a slot adds to the measure of the pieces of pool `r`. -/
def MemorySlot.share (μ : Span → Nat) (e : Option Nat) (r i : Nat) (m : MemorySlot) : Nat :=
  if m.CutFrom i r ∧ some i ≠ e then μ m.span else 0

theorem total_pieces : total μ (s.pieces e r) =
    ((List.range s.memories.cap).map fun i => (s.memories.slot i).share μ e r i).sum := by
  unfold K.pieces total
  generalize List.range s.memories.cap = js
  induction js with
  | nil => rfl
  | cons j js ih =>
    rw [List.filter_cons, List.map_cons, List.sum_cons, ← ih]
    by_cases own : (s.memories.slot j).CutFrom j r ∧ some j ≠ e
    · rw [if_pos (decide_eq_true own), MemorySlot.share, if_pos own]
      rfl
    · rw [if_neg (by simpa using own), MemorySlot.share, if_neg own, Nat.zero_add]

/-- One slot changes: so much do the pieces of a pool change. -/
theorem total_pieces_change {e' : Option Nat} (cap : t.memories.cap = s.memories.cap) (hi : i < s.memories.cap)
    (same : ∀ j ≠ i, (t.memories.slot j).share μ e' r j = (s.memories.slot j).share μ e r j) :
    total μ (t.pieces e' r) + (s.memories.slot i).share μ e r i =
      total μ (s.pieces e r) + (t.memories.slot i).share μ e' r i := by
  rw [total_pieces, total_pieces, cap]
  exact sum_range_change hi same

theorem pieces_congr (cap : t.memories.cap = s.memories.cap)
    (same : ∀ j < s.memories.cap, ((t.memories.slot j).CutFrom j r ↔ (s.memories.slot j).CutFrom j r) ∧
      ((s.memories.slot j).CutFrom j r → (t.memories.slot j).span = (s.memories.slot j).span)) :
    t.pieces e r = s.pieces e r := by
  unfold K.pieces
  rw [cap]
  have filtered : (List.range s.memories.cap).filter (fun i => (t.memories.slot i).CutFrom i r ∧ some i ≠ e) =
      (List.range s.memories.cap).filter fun i => (s.memories.slot i).CutFrom i r ∧ some i ≠ e :=
    List.filter_congr fun j hj => by simp [(same j (List.mem_range.mp hj)).1]
  rw [filtered]
  refine List.map_congr_left fun j hj => ?_
  simp only [List.mem_filter, List.mem_range, decide_eq_true_eq] at hj
  exact (same j hj.1).2 hj.2.1

theorem total_shares : total μ (s.shares e hand r l) = μ (s.memories.slot r).span + total μ (s.freeSpans l) +
    total μ (s.pieces e r) + total μ (s.memories.slot r).history.lost + total μ (s.memories.slot r).history.donated +
      total μ hand := by
  simp only [K.shares, total_cons, total_append]
  omega

theorem PoolEdit.pieces (h : PoolEdit s t r l l') : t.pieces e r = s.pieces e r := by
  refine pieces_congr h.memories fun j _ => ?_
  by_cases own : j = r
  · simp [MemorySlot.CutFrom, own]
  · rw [h.other j own]
    exact ⟨Iff.rfl, fun _ => rfl⟩

/-! ### Cutting -/

section
variable {G : Ev → Prop} {n : Nat} {A : Conduct K Ev}

theorem wp_lend {root len : Nat} {Q : Unit → K → Prop}
    (hQ : root < s.memories.cap → Q () { s with memories := s.memories.set root { s.memories.slot root with
      outBytes := (s.memories.slot root).outBytes + len } }) : wp G n (lend root len) Q (.leaving A) s :=
  wp_bind.mpr (wp_readMemory.mpr fun _ => wp_bind.mpr (wp_addWord.mpr fun _ => wp_modifyMemory.mpr hQ))

/-- A node loses its front to a piece in hand, and stays. -/
theorem Pool.shrink {pre suf : List Nat} {m : Nat} (len : Nat) (h : Pool e hand s r (pre ++ m :: suf))
    (rest : len < (s.freeRanges.slot m).len) :
    let t := { s with
      freeRanges := s.freeRanges.set m { s.freeRanges.slot m with
        base := (s.freeRanges.slot m).base + len, len := (s.freeRanges.slot m).len - len }
      memories := s.memories.set r { s.memories.slot r with outBytes := (s.memories.slot r).outBytes + len } }
    PoolEdit s t r (pre ++ m :: suf) (pre ++ m :: suf) ∧
      Pool e (⟨(s.freeRanges.slot m).base, len⟩ :: hand) t r (pre ++ m :: suf) := by
  intro t
  have edit : PoolEdit s t r (pre ++ m :: suf) (pre ++ m :: suf) := by
    refine ⟨rfl, rfl, fun i hi => by simp [t, hi], by simp [t], fun k hk _ => ?_, fun _ => Or.inl⟩
    simp [t, (mem_middle.mp hk).2.1]
  have list : FreeList t r (pre ++ m :: suf) := h.toFreeList.congr (by simp [t]) (Nat.le_refl _) fun k _ => by
    by_cases hk : k = m <;> simp [t, hk]
  obtain ⟨out, out'⟩ := h.toFreeList.distinct
  have others : ∀ {l : List Nat}, m ∉ l → t.freeSpans l = s.freeSpans l := fun hm => freeSpans_congr fun k hk => by
    have : k ≠ m := fun same => hm (same ▸ hk)
    simp [t, this]
  have spans : t.freeSpans (pre ++ m :: suf) = s.freeSpans pre ++
      ⟨(s.freeRanges.slot m).base + len, (s.freeRanges.slot m).len - len⟩ :: s.freeSpans suf := by
    rw [← others out, ← others out']
    simp [K.freeSpans, t, FreeRange.span]
  have before : s.freeSpans (pre ++ m :: suf) = s.freeSpans pre ++ (s.freeRanges.slot m).span :: s.freeSpans suf := by
    simp [K.freeSpans]
  have ladder := h.ladder
  rw [before] at ladder
  refine ⟨edit, ⟨list, fun μ hμ => ?_, ?_, ?_, ?_⟩, ?_, ?_⟩
  · have whole := h.fills μ hμ
    have cut := hμ.front (b := (s.freeRanges.slot m).base) (Nat.le_of_lt rest)
    rw [total_shares, before] at whole
    rw [total_shares, spans, edit.pieces]
    simp only [t, Slab.set_slot, if_true, total_append, total_cons, MemorySlot.span, FreeRange.span] at whole ⊢
    omega
  · simpa [t, MemorySlot.span] using h.top
  · simpa [t] using h.dropped
  · simpa [t] using h.origin
  · rw [spans]
    simpa [t, FreeRange.span] using ladder.shrink (n := len) rest
  · have := h.out
    rw [edit.pieces]
    simp only [t, Slab.set_slot, if_true, total_cons]
    omega

/-- A node is cut off whole. -/
theorem Pool.take {pre suf : List Nat} {m : Nat} (h : Pool e hand s r (pre ++ m :: suf))
    (edit : PoolEdit s t r (pre ++ m :: suf) (pre ++ suf)) (list : FreeList t r (pre ++ suf))
    (spans : t.freeSpans (pre ++ suf) = s.freeSpans (pre ++ suf))
    (own : t.memories.slot r = { s.memories.slot r with
      freeHead := (t.memories.slot r).freeHead
      outBytes := (s.memories.slot r).outBytes + (s.freeRanges.slot m).len }) :
    Pool e ((s.freeRanges.slot m).span :: hand) t r (pre ++ suf) := by
  have before : s.freeSpans (pre ++ m :: suf) = s.freeSpans pre ++ (s.freeRanges.slot m).span :: s.freeSpans suf := by
    simp [K.freeSpans]
  have after : s.freeSpans (pre ++ suf) = s.freeSpans pre ++ s.freeSpans suf := by simp [K.freeSpans]
  have ladder := h.ladder
  rw [before] at ladder
  refine ⟨⟨list, fun μ hμ => ?_, ?_, ?_, ?_⟩, ?_, ?_⟩
  · have whole := h.fills μ hμ
    rw [total_shares, before] at whole
    rw [total_shares, spans, after, edit.pieces, own]
    simp only [total_append, total_cons, MemorySlot.span] at whole ⊢
    omega
  · rw [own]
    exact h.top
  · rw [own]
    exact h.dropped
  · rw [own]
    exact h.origin
  · rw [spans, after, own]
    exact ladder.remove
  · have := h.out
    rw [edit.pieces, own]
    simp only [total_cons, FreeRange.span]
    omega

theorem wp_poolCutRange {root len : Nat} (h : Pool e hand s root l) {Q : Option Nat → K → Prop} (none : Q none s)
    (some : ∀ base t l', (∃ y ∈ s.freeSpans l, y.base = base ∧ len ≤ y.len) → PoolEdit s t root l l' →
      (t.memories.slot root).history = (s.memories.slot root).history → Pool e (⟨base, len⟩ :: hand) t root l' →
        Q (some base) t) :
    wp G n (poolCutRange root len) Q (.leaving A) s := by
  refine wp_bind.mpr (wp_readMemory.mpr fun inCap => ?_)
  refine wp_loop (Q := Q) (I := fun at' t => t = s ∧ ∃ pre suf, l = pre ++ suf ∧ at' = (pre.getLast?, suf.head?)) ?_
    ⟨rfl, [], l, rfl, by rw [h.chain.head_eq]; rfl⟩
  rintro at' t ⟨rfl, pre, suf, rfl, rfl⟩
  cases suf with
  | nil => exact wp_pure.mpr none
  | cons m suf =>
    have here : m ∈ pre ++ m :: suf := by simp
    refine wp_bind.mpr (wp_readFreeRange.mpr fun hm => wp_ite.mpr ⟨fun fits => ?_, fun _ => wp_pure.mpr ?_⟩)
    · have found : ∃ y ∈ t.freeSpans (pre ++ m :: suf), y.base = (t.freeRanges.slot m).base ∧ len ≤ y.len :=
        ⟨_, List.mem_map_of_mem here, rfl, fits⟩
      refine wp_bind.mpr (wp_addWord.mpr fun _ => wp_bind.mpr (wp_modifyFreeRange.mpr fun _ => ?_))
      refine wp_bind.mpr (wp_whenever.mpr ⟨fun whole => ?_, fun rest => ?_⟩)
      · have same : len = (t.freeRanges.slot m).len := by
          have := of_decide_eq_true whole
          omega
        subst same
        obtain ⟨out, out'⟩ := h.toFreeList.distinct
        have others : ∀ k ∈ pre ++ suf, k ≠ m := by
          rintro k hk rfl
          rcases List.mem_append.mp hk with hk | hk
          · exact out hk
          · exact out' hk
        have emptied : FreeList { t with freeRanges := t.freeRanges.set m { t.freeRanges.slot m with
            base := (t.freeRanges.slot m).base + (t.freeRanges.slot m).len
            len := (t.freeRanges.slot m).len - (t.freeRanges.slot m).len } } root (pre ++ m :: suf) :=
          h.toFreeList.congr rfl (Nat.le_refl _) fun k _ => by by_cases hk : k = m <;> simp [hk]
        refine wp_unlinkNode emptied h.toFreeList.next_eq ?_
        intro u edit list spans own
        refine wp_bind.mpr (wp_lend fun _ => wp_pure.mpr ?_)
        have edits := ((PoolEdit.node here).trans edit).trans (PoolEdit.own (s := u) (v := { u.memories.slot root with
          outBytes := (u.memories.slot root).outBytes + (t.freeRanges.slot m).len }) rfl rfl)
        refine some _ _ _ found edits (by simp only [Slab.set_slot, if_true]; rw [own])
          (h.take edits (list.congr (by simp) (Nat.le_refl _) fun _ _ => ⟨rfl, rfl⟩) ?_ ?_)
        · refine spans.trans (freeSpans_congr fun k hk => ?_)
          simp [others k hk]
        · simp only [Slab.set_slot, if_true]
          rw [own]
      · refine wp_bind.mpr (wp_lend fun _ => wp_pure.mpr ?_)
        obtain ⟨edit, pool⟩ := h.shrink (m := m) len (by have := of_decide_eq_false rest; omega)
        exact some _ _ _ found edit (by simp) pool
    · exact ⟨rfl, pre ++ [m], suf, by simp, by simp [h.toFreeList.next_eq]⟩

/-- The front of the pool's own extent goes into hand. -/
theorem Pool.advance (h : Pool e hand s r l) {len : Nat} (fits : len ≤ (s.memories.slot r).len) :
    let region := s.memories.slot r
    Pool e (⟨region.base, len⟩ :: hand) { s with memories := s.memories.set r { region with
      base := region.base + len, len := region.len - len, outBytes := region.outBytes + len } } r l := by
  intro region
  have edit : PoolEdit s { s with memories := s.memories.set r { region with
      base := region.base + len, len := region.len - len, outBytes := region.outBytes + len } } r l l := .own rfl rfl
  refine ⟨⟨h.toFreeList.congr (by simp [region]) (Nat.le_refl _) fun _ _ => ⟨rfl, rfl⟩,
    fun μ hμ => ?_, ?_, ?_, ?_⟩, ?_, ?_⟩
  · have whole := h.fills μ hμ
    have cut := hμ.front (b := region.base) fits
    rw [total_shares] at whole
    rw [total_shares, edit.pieces]
    simp only [Slab.set_slot, if_true, total_cons, MemorySlot.span, K.freeSpans, region] at whole cut ⊢
    omega
  · have := h.top
    simp only [Slab.set_slot, if_true, MemorySlot.span, Span.top, region] at this ⊢
    omega
  · simpa [region] using h.dropped
  · simpa [region] using h.origin
  · have := h.ladder.mono (Nat.le_add_right region.base len)
    simpa [region, K.freeSpans] using this
  · have := h.out
    rw [edit.pieces]
    simp only [Slab.set_slot, if_true, total_cons, region]
    omega

/-! ### Returning -/

/-- What is in hand touches no other share. -/
theorem PoolBody.clear {x : Span} (h : PoolBody e (x :: hand) s r l) :
    (∀ y ∈ s.freeSpans l, y.Apart x) ∧ (s.memories.slot r).span.Apart x := by
  have apart := h.fills.apart
  simp only [K.shares, List.pairwise_cons, List.pairwise_append] at apart
  exact ⟨fun y hy => apart.2.2.2 y (by simp [hy]) x List.mem_cons_self, apart.1 x (by simp)⟩

/-- What is in hand ends below the frontier. -/
theorem PoolBody.below {x : Span} (h : PoolBody e (x :: hand) s r l) (some : 0 < x.len) :
    x.top ≤ (s.memories.slot r).base := by
  have inside := h.fills.top_le (x := x) (by simp [K.shares]) some
  have top := h.top
  obtain ⟨-, apart⟩ := h.clear
  rcases Nat.eq_zero_or_pos (s.memories.slot r).len with empty | bytes
  · simp only [MemorySlot.span, Span.top] at top inside ⊢
    omega
  · rcases Nat.le_total x.base (s.memories.slot r).base with low | high
    · exact Span.Apart.below (Span.Apart.symm apart) low bytes
    · have := Span.Apart.below apart high some
      simp only [MemorySlot.span, Span.top] at this top inside ⊢
      omega

/-- What is in hand lies between two spans of the free list. -/
theorem PoolBody.place {x : Span} {pre suf : List Nat} (h : PoolBody e (x :: hand) s r (pre ++ suf))
    (ladder : Ladder (s.freeSpans (pre ++ suf)) (s.memories.slot r).base) (some : 0 < x.len)
    (low : ∀ p ∈ pre, (s.freeRanges.slot p).base ≤ x.base)
    (high : ∀ q ∈ suf.head?, x.base < (s.freeRanges.slot q).base) :
    (∀ p ∈ s.freeSpans pre, p.top ≤ x.base) ∧ ∀ q ∈ s.freeSpans suf, x.top ≤ q.base := by
  obtain ⟨apart, -⟩ := h.clear
  rw [freeSpans_append] at apart ladder
  refine ⟨fun p hp => ?_, fun q hq => ?_⟩
  · obtain ⟨k, hk, rfl⟩ := List.mem_map.mp hp
    exact (apart _ (List.mem_append_left _ hp)).below (low k hk) some
  · have above : x.base ≤ q.base := by
      cases suf with
      | nil => cases hq
      | cons m rest =>
        have first := high m rfl
        rcases List.mem_cons.mp hq with rfl | hq
        · exact Nat.le_of_lt first
        · have gap := (List.pairwise_cons.mp (List.pairwise_append.mp ladder.gaps).2.1).1 q hq
          simp only [Span.Gap, Span.top, FreeRange.span] at gap
          omega
    exact Span.Apart.below (Span.Apart.symm (apart q (List.mem_append_right _ hq))) above
      (ladder.some q (List.mem_append_right _ hq))

/-- What is in hand goes into the free list, which may now reach the frontier. -/
theorem PoolBody.inserted {x : Span} (h : PoolBody e (x :: hand) s r l)
    (ladder : Ladder (s.freeSpans l) (s.memories.slot r).base) (some : 0 < x.len) (edit : PoolEdit s t r l l')
    (list : FreeList t r l') (spans : Inserted x (s.freeSpans l) (t.freeSpans l'))
    (own : t.memories.slot r = { s.memories.slot r with freeHead := (t.memories.slot r).freeHead }) :
    PoolBody e hand t r l' ∧ Ladder (t.freeSpans l') ((t.memories.slot r).base + 1) := by
  refine ⟨⟨list, fun μ hμ => ?_, ?_, ?_, ?_⟩, ?_⟩
  · have whole := h.fills μ hμ
    rw [total_shares] at whole
    rw [total_shares, edit.pieces, own, spans.total hμ]
    simp only [total_cons, MemorySlot.span] at whole ⊢
    omega
  · rw [own]
    exact h.top
  · rw [own]
    exact h.dropped
  · rw [own]
    exact h.origin
  · rw [own]
    exact spans.ladder ladder some (h.below some)

/-- What is in hand is given up. -/
theorem PoolBody.lost {x : Span} (h : PoolBody e (x :: hand) s r l) :
    let region := s.memories.slot r
    PoolBody e hand { s with memories := s.memories.set r { region with
      dropped := region.dropped + x.len, history := region.history.lose x } } r l := by
  intro region
  have edit : PoolEdit s { s with memories := s.memories.set r { region with
      dropped := region.dropped + x.len, history := region.history.lose x } } r l l := .own rfl rfl
  refine ⟨h.toFreeList.congr (by simp [region]) (Nat.le_refl _) fun _ _ => ⟨rfl, rfl⟩, fun μ hμ => ?_, ?_, ?_, ?_⟩
  · have whole := h.fills μ hμ
    rw [total_shares] at whole
    rw [total_shares, edit.pieces]
    simp only [Slab.set_slot, if_true, total_cons, MemorySlot.span, K.freeSpans, PoolHistory.lose, region] at whole ⊢
    omega
  · simpa [region, MemorySlot.span, PoolHistory.lose] using h.top
  · have := h.dropped
    simp only [Slab.set_slot, if_true, PoolHistory.lose, total_cons, region]
    omega
  · simpa [region, PoolHistory.lose] using h.origin

/-- As many bytes of pool `r` are out, and as many donated. -/
def SameOut (s t : K) (r : Nat) : Prop :=
  (t.memories.slot r).outBytes = (s.memories.slot r).outBytes ∧
    (t.memories.slot r).history.donated = (s.memories.slot r).history.donated

/-- No node is free. -/
def K.NoNode (s : K) : Prop := ∀ n < s.freeRanges.cap, (s.freeRanges.slot n).state = .live

/-- The span ends where one of the list begins, or begins where one ends. -/
def Touches (x : Span) (l : List Span) : Prop := ∃ y ∈ l, y.top = x.base ∨ x.top = y.base

/-- The pool with the free list `l` gives a range up that comes back: it has bytes and touches no free range, and no
    node is free. -/
def K.GivesUp (s : K) (l : List Nat) (x : Span) : Prop := 0 < x.len ∧ s.NoNode ∧ ¬Touches x (s.freeSpans l)

/-- Pool `r` has lost the span if it gives it up, and nothing else. -/
structure Kept (s t : K) (r : Nat) (l : List Nat) (x : Span) : Prop where
  lost : s.GivesUp l x → (t.memories.slot r).history.lost = x :: (s.memories.slot r).history.lost
  kept : ¬s.GivesUp l x → (t.memories.slot r).history.lost = (s.memories.slot r).history.lost
  donated : (t.memories.slot r).history.donated = (s.memories.slot r).history.donated

theorem Kept.of_history {u : K} {x : Span} (same : (u.memories.slot r).history = (t.memories.slot r).history)
    (h : Kept s t r l x) : Kept s u r l x :=
  ⟨fun gone => by rw [same, h.lost gone], fun stays => by rw [same, h.kept stays], by rw [same, h.donated]⟩

theorem noNode_of_find (none : s.freeRanges.find (·.state = .free) = none) : s.NoNode := by
  intro n hn
  have busy := List.find?_eq_none.mp none n (List.mem_range.mpr hn)
  cases state : (s.freeRanges.slot n).state with
  | free => simp [state] at busy
  | live => rfl

/-- The bytes in hand go into the free list, joined to the ranges they touch, or are given up when no node is free. -/
theorem wp_poolInsertRange {base len : Nat} (h : PoolBody e (⟨base, len⟩ :: hand) s r l)
    (ladder : Ladder (s.freeSpans l) (s.memories.slot r).base) (bytes : 0 < len) {Q : Unit → K → Prop}
    (hQ : ∀ t l', PoolEdit s t r l l' → PoolBody e hand t r l' → Ladder (t.freeSpans l')
      ((t.memories.slot r).base + 1) → SameOut s t r → Kept s t r l ⟨base, len⟩ → Q () t) :
    wp G n (poolInsertRange r base len) Q (.leaving A) s := by
  refine wp_bind.mpr (wp_poolNeighbours h.toFreeList fun pre suf split low high => ?_)
  subst split
  obtain ⟨before, after⟩ := h.place ladder bytes low high
  obtain ⟨front, back⟩ : Ladder (s.freeSpans pre) (s.memories.slot r).base ∧
      Ladder (s.freeSpans suf) (s.memories.slot r).base := by
    rw [freeSpans_append] at ladder
    exact ladder.parts
  -- With the free list as `t` has it, the insertion is done.
  have done : ∀ t l' after, ¬s.GivesUp (pre ++ suf) ⟨base, len⟩ → PoolEdit s t r (pre ++ suf) l' → FreeList t r l' →
      t.freeSpans l' = after → Inserted ⟨base, len⟩ (s.freeSpans (pre ++ suf)) after →
      t.memories.slot r = { s.memories.slot r with freeHead := (t.memories.slot r).freeHead } → Q () t := by
    rintro t l' _ stays edit list rfl spans own
    obtain ⟨body, reach⟩ := h.inserted ladder bytes edit list spans own
    exact hQ t l' edit body reach (by rw [SameOut, own]; exact ⟨rfl, rfl⟩)
      ⟨fun gone => absurd gone stays, fun _ => by rw [own], by rw [own]⟩
  have joins : ∀ {m : Nat}, m ∈ pre ++ suf → (s.freeRanges.slot m).span.top = base ∨
    base + len = (s.freeRanges.slot m).base →
      ¬s.GivesUp (pre ++ suf) ⟨base, len⟩ := fun hm touch gone => gone.2.2 ⟨_, List.mem_map_of_mem hm, touch⟩
  refine wp_bind.mpr (wp_poolJoinBefore (fun apart => ?_) fun m last touch => ?_)
  · have clear : ∀ p ∈ s.freeSpans pre, p.top < base := front.clear_before before (by simpa [K.freeSpans] using apart)
    refine wp_bind.mpr (wp_poolJoinAfter (fun apart' => ?_) (fun q _ first touch' => ?_) (by simp))
    · have clear' : ∀ q ∈ s.freeSpans suf, base + len < q.base :=
        back.clear_after after (by simpa [K.freeSpans, Span.top, FreeRange.span] using apart')
      refine wp_bind.mpr (wp_allocFreeRange.mpr ?_)
      rcases found : s.freeRanges.find (·.state = .free) with _ | m
      · refine wp_bind.mpr
          (wp_readMemory.mpr fun _ => wp_bind.mpr (wp_addWord.mpr fun _ => wp_modifyMemory.mpr fun _ => ?_))
        have gone : s.GivesUp (pre ++ suf) ⟨base, len⟩ := by
          refine ⟨bytes, noNode_of_find found, ?_⟩
          rintro ⟨y, hy, touch⟩
          rw [freeSpans_append] at hy
          simp only [Span.top] at touch clear clear'
          rcases List.mem_append.mp hy with hy | hy
          · have := clear y hy
            have := ladder.some y (by rw [freeSpans_append]; exact List.mem_append_left _ hy)
            omega
          · have := clear' y hy
            omega
        refine hQ _ (pre ++ suf) (.own rfl rfl) h.lost ?_ (by simp [SameOut, PoolHistory.lose])
          ⟨fun _ => by simp [PoolHistory.lose], absurd gone, by simp [PoolHistory.lose]⟩
        simpa [K.freeSpans] using ladder.mono (Nat.le_succ _)
      · obtain ⟨inCap, free⟩ := Slab.find_some found
        have state : (s.freeRanges.slot m).state = .free := of_decide_eq_true free
        have room : ¬s.GivesUp (pre ++ suf) ⟨base, len⟩ := by
          rintro ⟨-, full, -⟩
          rw [full m inCap] at state
          cases state
        refine wp_bind.mpr (wp_modifyFreeRange.mpr fun _ => wp_poolLink (fun first => ?_) fun p last => ?_)
        · have empty : pre.getLast? = none := first
          obtain ⟨edit, list, spans⟩ := h.toFreeList.insert base len inCap state (t := { s with
            freeRanges := s.freeRanges.set m ⟨.live, base, len, suf.head?⟩
            memories := s.memories.set r { s.memories.slot r with freeHead := some m } }) ⟨rfl, rfl⟩
            (fun i hi => by simp [hi]) (by simp) (by rw [Chain.rehead, if_pos empty]; simp) (by simp)
            fun k hk => by simp [Chain.relinked, empty, hk]
          refine done _ _ _ room edit list spans ?_ (by simp)
          rw [freeSpans_append]
          exact .alone clear clear'
        · have last : pre.getLast? = some p := last
          have mem : p ∈ pre := List.mem_of_getLast? last
          have other : p ≠ m := by
            rintro rfl
            rw [(h.live p (List.mem_append_left _ mem)).2] at state
            cases state
          let written := s.freeRanges.set m ⟨.live, base, len, suf.head?⟩
          obtain ⟨edit, list, spans⟩ := h.toFreeList.insert base len inCap state (t := { s with
            freeRanges := written.set p { written.slot p with next := some m } }) ⟨rfl, rfl⟩ (fun _ _ => rfl) ⟨rfl, rfl⟩
            (by rw [Chain.rehead, if_neg (by rw [last]; simp)]) (by simp [written, other.symm])
            fun k hk => by
              by_cases hkp : p = k
              · subst hkp
                simp [written, Chain.relinked, last, other]
              · have : k ≠ p := fun h => hkp h.symm
                simp [written, Chain.relinked, last, hk, hkp, this]
          refine done _ _ _ room edit list spans ?_ rfl
          rw [freeSpans_append]
          exact .alone clear clear'
    · obtain ⟨rest, rfl⟩ : ∃ rest, suf = q :: rest := List.head?_eq_some_iff.mp first
      refine wp_pure.mpr ?_
      obtain ⟨edit, list, spans⟩ := h.toFreeList.resize base ((s.freeRanges.slot q).len + len)
      refine done _ _ _ (joins (by simp) (Or.inr touch')) edit list spans ?_ rfl
      rw [freeSpans_append, freeSpans_cons]
      exact .after touch' clear
  · obtain ⟨rest, rfl⟩ := List.getLast?_eq_some_iff.mp last
    have split : rest ++ [m] ++ suf = rest ++ m :: suf := by simp
    rw [split] at h done joins
    obtain ⟨out, out'⟩ := h.toFreeList.distinct
    have top : (s.freeRanges.slot m).base + ((s.freeRanges.slot m).len + len) = base + len := by
      simp only [FreeRange.span, Span.top] at touch
      omega
    refine wp_bind.mpr (wp_poolJoinAfter (fun apart' => ?_) (by simp) fun m' x y q into first touch' => ?_)
    · obtain ⟨edit, list, spans⟩ := h.toFreeList.resize (s.freeRanges.slot m).base ((s.freeRanges.slot m).len + len)
      have clear' : ∀ q ∈ s.freeSpans suf, base + len < q.base := by
        refine back.clear_after after ?_
        simp only [K.freeSpans, List.head?_map, Option.mem_def, Option.map_eq_some_iff]
        rintro _ ⟨q, first, rfl⟩
        have mem : q ∈ suf := List.mem_of_head? first
        have other : q ≠ m := fun same => out' (same ▸ mem)
        have := apart' q first
        simpa [other, top, Span.top, FreeRange.span] using this
      refine wp_pure.mpr (done _ _ _ (joins (by simp) (Or.inl touch)) edit list spans ?_ rfl)
      rw [freeSpans_append, freeSpans_cons]
      exact .before touch clear'
    · cases into
      obtain ⟨rest', rfl⟩ : ∃ rest, suf = q :: rest := List.head?_eq_some_iff.mp first
      obtain ⟨edit, list, spans⟩ := h.toFreeList.absorb ((s.freeRanges.slot m).len + len + (s.freeRanges.slot q).len)
      have other : q ≠ m := fun same => out' (same ▸ List.mem_cons_self)
      refine wp_pure.mpr ?_
      simp only [Slab.set_slot, other, if_false, if_true, Slab.set_set]
      refine done _ _ _ (joins (by simp) (Or.inl touch)) edit list spans ?_ rfl
      rw [freeSpans_append, freeSpans_cons, freeSpans_cons]
      refine .between touch ?_
      simpa [other, top, Span.top, FreeRange.span] using touch'

/-- The last node is folded into the frontier. -/
theorem PoolBody.folded {pre : List Nat} {m : Nat} (h : PoolBody e hand s r (pre ++ [m]))
    (touch : (s.freeRanges.slot m).span.top = (s.memories.slot r).base) (edit : PoolEdit s t r (pre ++ [m]) pre)
    (list : FreeList t r pre) (spans : t.freeSpans pre = s.freeSpans pre)
    (own : t.memories.slot r = { s.memories.slot r with
      base := (s.freeRanges.slot m).base
      len := (s.memories.slot r).len + (s.freeRanges.slot m).len
      freeHead := (t.memories.slot r).freeHead }) : PoolBody e hand t r pre := by
  refine ⟨list, fun μ hμ => ?_, ?_, ?_, ?_⟩
  · have whole := h.fills μ hμ
    have joined := hμ.join (x := (s.freeRanges.slot m).span) (y := (s.memories.slot r).span) touch
    rw [total_shares, freeSpans_append, freeSpans_cons] at whole
    rw [total_shares, spans, edit.pieces, own]
    simp only [total_append, total_cons, freeSpans_nil, total_nil, MemorySlot.span, FreeRange.span,
      Nat.add_comm (s.freeRanges.slot m).len] at whole joined ⊢
    omega
  · rw [own]
    have := h.top
    simp only [MemorySlot.span, FreeRange.span, Span.top] at this touch ⊢
    omega
  · rw [own]
    exact h.dropped
  · rw [own]
    exact h.origin

/-- A free list that reaches the frontier no longer does. -/
theorem wp_poolFoldFrontier (h : PoolBody e hand s r l) (reach : Ladder (s.freeSpans l) ((s.memories.slot r).base + 1))
    {Q : Unit → K → Prop}
    (hQ : ∀ t l', PoolEdit s t r l l' → PoolBody e hand t r l' → Ladder (t.freeSpans l') (t.memories.slot r).base →
      (t.memories.slot r).outBytes = (s.memories.slot r).outBytes →
      (t.memories.slot r).history = (s.memories.slot r).history → Q () t) :
    wp G n (poolFoldFrontier r) Q (.leaving A) s := by
  refine wp_bind.mpr (wp_readMemory.mpr fun inCap => ?_)
  refine wp_loop (Q := Q) (I := fun at' t => t = s ∧ ∃ pre suf, l = pre ++ suf ∧ at' = (pre.getLast?, suf.head?) ∧
    (suf = [] → l = [])) ?_ ⟨rfl, [], l, rfl, by rw [h.chain.head_eq]; rfl, id⟩
  rintro at' t ⟨rfl, pre, suf, rfl, rfl, more⟩
  cases suf with
  | nil =>
    have empty := more rfl
    rw [empty] at hQ h reach
    exact wp_pure.mpr (hQ t [] .refl h ⟨.nil, by simp, by simp⟩ rfl rfl)
  | cons m suf =>
    have behind := h.toFreeList.next_eq
    refine wp_bind.mpr (wp_readFreeRange.mpr fun _ => ?_)
    cases suf with
    | cons m' rest =>
      rw [behind]
      exact wp_pure.mpr ⟨rfl, pre ++ [m], m' :: rest, by simp, by simp, by simp⟩
    | nil =>
      have last : (t.freeRanges.slot m).next = none := behind
      rw [freeSpans_append, freeSpans_cons, freeSpans_nil] at reach
      obtain ⟨folds, stays⟩ := reach.settle
      simp only [last]
      refine wp_bind.mpr (wp_addWord.mpr fun _ => wp_ite.mpr ⟨fun touch => ?_, fun apart => wp_pure.mpr ?_⟩)
      · refine wp_bind.mpr (wp_addWord.mpr fun _ => wp_bind.mpr (wp_modifyMemory.mpr fun _ => ?_))
        let region := t.memories.slot r
        let folded : K := { t with memories := t.memories.set r { region with
          base := (t.freeRanges.slot m).base, len := region.len + (t.freeRanges.slot m).len } }
        have list : FreeList folded r (pre ++ [m]) :=
          h.toFreeList.congr (by simp [folded, region]) (Nat.le_refl _) fun _ _ => ⟨rfl, rfl⟩
        have unlinked := wp_unlinkNode (G := G) (n := n) (A := A) (Q := fun _ u => Q () u) list (rfl : none = [].head?)
          fun u edit list' spans own => ?_
        · refine wp_bind.mpr ((wp_bind.mp unlinked).imp fun _ _ rest => wp_bind.mpr (rest.imp fun _ _ ready => ?_))
          exact wp_pure.mpr ready
        rw [List.append_nil] at edit list' spans
        have fold : PoolEdit t folded r (pre ++ [m]) (pre ++ [m]) := .own rfl rfl
        have edits : PoolEdit t u r (pre ++ [m]) pre := fold.trans edit
        have slot : u.memories.slot r = { region with
            base := (t.freeRanges.slot m).base
            len := region.len + (t.freeRanges.slot m).len
            freeHead := (u.memories.slot r).freeHead } := by
          rw [own]
          simp [folded]
        refine hQ u pre edits (h.folded touch edits list' spans slot) ?_ (by rw [slot]) (by rw [slot])
        rw [spans, slot]
        exact folds touch
      · refine hQ t _ .refl h ?_ rfl rfl
        rw [freeSpans_append, freeSpans_cons, freeSpans_nil]
        exact stays apart

theorem wp_poolReturn {base len : Nat} (h : Pool e (⟨base, len⟩ :: hand) s r l) {Q : Unit → K → Prop}
    (hQ : ∀ t l', PoolEdit s t r l l' → Pool e hand t r l' →
      (t.memories.slot r).outBytes ≤ (s.memories.slot r).outBytes → Kept s t r l ⟨base, len⟩ → Q () t) :
    wp G n (poolReturn r base len) Q (.leaving A) s := by
  refine wp_ite.mpr ⟨fun empty => wp_pure.mpr (hQ s l .refl ?_ (Nat.le_refl _) ⟨fun gone => ?_, fun _ => rfl, rfl⟩),
    fun bytes => ?_⟩
  · subst empty
    refine ⟨⟨h.toFreeList, fun μ hμ => ?_, h.top, h.dropped, h.origin⟩, h.ladder, ?_⟩
    · have whole := h.fills μ hμ
      rw [total_shares, total_cons, hμ.empty] at whole
      rw [total_shares]
      omega
    · simpa using h.out
  · exact absurd gone.1 (Nat.not_lt.mpr (Nat.le_of_eq empty))
  · refine wp_bind.mpr
      (wp_readMemory.mpr fun _ => wp_bind.mpr (wp_whenever.mpr ⟨fun _ => wp_fatalKernel.mpr trivial, fun _ => ?_⟩))
    refine wp_bind.mpr
      (wp_whenever.mpr ⟨fun _ => wp_fatalKernel.mpr trivial, fun _ => wp_bind.mpr (wp_modifyMemory.mpr fun _ => ?_)⟩)
    let region := s.memories.slot r
    let counted : K := { s with memories := s.memories.set r { region with outBytes := region.outBytes - len } }
    have edit : PoolEdit s counted r l l := .own rfl rfl
    have body : PoolBody e (⟨base, len⟩ :: hand) counted r l := by
      refine ⟨h.toFreeList.congr (by simp [counted, region]) (Nat.le_refl _) fun _ _ => ⟨rfl, rfl⟩,
        fun μ hμ => ?_, ?_, ?_, ?_⟩
      · have whole := h.fills μ hμ
        rw [total_shares] at whole
        rw [total_shares, edit.pieces]
        simpa [counted, region, MemorySlot.span, K.freeSpans] using whole
      · simpa [counted, region, MemorySlot.span] using h.top
      · simpa [counted, region] using h.dropped
      · simpa [counted, region] using h.origin
    have ladder : Ladder (counted.freeSpans l) (counted.memories.slot r).base := by
      simpa [counted, region, K.freeSpans] using h.ladder
    refine wp_bind.mpr
      (wp_poolInsertRange body ladder (Nat.pos_of_ne_zero bytes) fun t l₁ edit₁ body₁ reach out₁ kept => ?_)
    refine wp_poolFoldFrontier body₁ reach fun u l₂ edit₂ body₂ ladder₂ out₂ history => ?_
    have edits := (edit.trans edit₁).trans edit₂
    have left : (u.memories.slot r).outBytes = region.outBytes - len := by
      rw [out₂, out₁.1]
      simp [counted]
    refine hQ u l₂ edits ⟨body₂, ladder₂, ?_⟩ (by rw [left]; exact Nat.sub_le _ _) (Kept.of_history history ?_)
    swap
    · exact ⟨fun gone => by simpa [counted, region] using kept.lost gone, fun stays =>
        by simpa [counted, region] using kept.kept stays, by simpa [counted, region] using kept.donated⟩
    have := h.out
    rw [left, history, out₁.2, edits.pieces]
    simp only [counted, region, Slab.set_slot, if_true, total_cons] at this ⊢
    omega

/-- A root gives up its nodes. -/
theorem wp_poolDropNodes (h : FreeList s r l) {Q : Unit → K → Prop}
    (hQ : ∀ t, PoolEdit s t r l [] → t.memories.slot r = { s.memories.slot r with freeHead := none } → Q () t) :
    wp G n (poolDropNodes r) Q (.leaving A) s := by
  refine wp_bind.mpr (wp_readMemory.mpr fun _ => wp_bind.mpr ?_)
  refine wp_loop (I := fun cur t => (∃ pre suf, l = pre ++ suf ∧ cur = suf.head? ∧
    ∀ k ∉ pre, t.freeRanges.slot k = s.freeRanges.slot k) ∧ t.memories = s.memories ∧
      t.freeRanges.cap = s.freeRanges.cap)
    ?_ ⟨⟨[], l, rfl, h.chain.head_eq, fun _ _ => rfl⟩, rfl, rfl⟩
  rintro cur t ⟨⟨pre, suf, rfl, rfl, rest⟩, regions, cap⟩
  cases suf with
  | nil =>
    rw [List.append_nil] at hQ
    refine wp_pure.mpr (wp_modifyMemory.mpr fun _ => hQ _ ⟨by simp [regions], cap, fun i hi => by simp [hi, regions],
      by simp [regions], fun k hk _ => rest k hk, fun _ => by simp⟩ (by simp [regions]))
  | cons m suf =>
    refine wp_bind.mpr (wp_readFreeRange.mpr fun _ => wp_bind.mpr (wp_freeFreeRange.mpr fun _ => wp_pure.mpr ?_))
    refine ⟨⟨pre ++ [m], suf, by simp, ?_, fun k hk => ?_⟩, regions, cap⟩
    · rw [rest m h.distinct.1]
      exact h.next_eq
    · simp only [List.mem_append, List.mem_singleton, not_or] at hk
      simp [hk.2, rest k hk.1]

end

end

end

end Sawos
