import Sawos.Kernel.Pools
import Sawos.Kernel.Samples

/-! # All pools together

Every step of the machine keeps all pools in order, and the boot establishes it: in every reachable state the range that
the boot table gave a pool is divided among its parts. -/

namespace Sawos
open Exec Spans

section
variable [Hal]

/-- Slot `r` is the root of a pool. -/
def IsRoot (s : K) (r : Nat) : Prop :=
  r < s.memories.cap ∧ (s.memories.slot r).state = .live ∧ (s.memories.slot r).root = some r

/-- All pools are in order while region `e` is being given back and the spans `hand r` of pool `r` are in hand: free
    slots say so, a region with bytes is cut from a pool, and no two pools share a node. -/
structure Pools (e : Option Nat) (hand : Nat → List Span) (s : K) : Prop where
  vacant : ∀ i < s.memories.cap, (s.memories.slot i).state = .free →
    (s.memories.slot i).len = 0 ∧ (s.memories.slot i).root = none
  rooted : ∀ i < s.memories.cap, some i ≠ e → (s.memories.slot i).state = .live →
    ∃ r, (s.memories.slot i).root = some r ∧ r < s.memories.cap ∧ ((s.memories.slot i).len ≠ 0 → IsRoot s r)
  pools : ∀ r, IsRoot s r → ∃ l, Pool e (hand r) s r l
  apart : ∀ r r' l l', r ≠ r' → IsRoot s r → IsRoot s r' → FreeList s r l → FreeList s r' l' → ∀ n ∈ l, n ∉ l'

section
variable {s t : K} {e : Option Nat} {r i : Nat} {l l' : List Nat} {hand : List Span} {μ : Span → Nat}
  {G : Ev → Prop} {n : Nat} {A : Conduct K Ev}

theorem PoolEdit.isRoot (edit : PoolEdit s t r l l') : IsRoot t i ↔ IsRoot s i := by
  unfold IsRoot
  rw [edit.memories]
  by_cases own : i = r
  · rw [own, edit.root.1, edit.root.2]
  · rw [edit.other i own]

/-- An edit of one pool leaves another alone. -/
theorem PoolEdit.elsewhere {r' : Nat} {m : List Nat} (edit : PoolEdit s t r l l') (root : IsRoot s r) (other : r' ≠ r)
    (clear : ∀ k ∈ m, k ∉ l) (h : Pool e hand s r' m) : Pool e hand t r' m := by
  have same : ∀ k ∈ m, t.freeRanges.slot k = s.freeRanges.slot k := fun k hk =>
    edit.nodes k (clear k hk) (h.live k hk).2
  have spans : t.freeSpans m = s.freeSpans m := freeSpans_congr fun k hk => by rw [same k hk]
  have pieces : t.pieces e r' = s.pieces e r' := by
    refine pieces_congr edit.memories fun j _ => ?_
    by_cases own : j = r
    · subst own
      have foreign : (s.memories.slot j).root ≠ some r' := by
        rw [root.2.2]
        simpa using other.symm
      simp [MemorySlot.CutFrom, edit.root.2, foreign]
    · rw [edit.other j own]
      exact ⟨Iff.rfl, fun _ => rfl⟩
  have slot := edit.other r' other
  refine ⟨⟨?_, ?_, ?_, ?_, ?_⟩, ?_, ?_⟩
  · refine h.toFreeList.congr (by rw [slot]) (Nat.le_of_eq edit.ranges.symm) fun k hk => ?_
    rw [same k hk]
    exact ⟨rfl, rfl⟩
  · have whole := h.fills
    unfold K.shares at whole ⊢
    rw [slot, spans, pieces]
    exact whole
  · rw [slot]
    exact h.top
  · rw [slot]
    exact h.dropped
  · rw [slot]
    exact h.origin
  · rw [slot, spans]
    exact h.ladder
  · rw [slot, pieces]
    exact h.out

variable {hands hands' : Nat → List Span}

/-- An edit that keeps one pool in order keeps all of them in order. -/
theorem Pools.edit (h : Pools e hands s) (root : IsRoot s r) (list : FreeList s r l) (edit : PoolEdit s t r l l')
    (pool : Pool e (hands' r) t r l') (others : ∀ r' ≠ r, hands' r' = hands r') : Pools e hands' t := by
  have kept : ∀ i ≠ r, t.memories.slot i = s.memories.slot i := edit.other
  have foreign : ∀ r' ≠ r, ∀ m, IsRoot s r' → FreeList s r' m → ∀ k ∈ m, k ∉ l := fun r' hr m root' list' =>
    h.apart r' r m l hr root' root list' list
  -- The free list of another pool is the one that it had.
  have lists : ∀ r' ≠ r, ∀ m, IsRoot s r' → FreeList t r' m → FreeList s r' m := by
    intro r' hr m root' list'
    obtain ⟨m', pool'⟩ := h.pools r' root'
    have still := edit.elsewhere root hr (foreign r' hr m' root' pool'.toFreeList) pool'
    rw [list'.unique still.toFreeList]
    exact pool'.toFreeList
  refine ⟨fun i hi free => ?_, fun i hi out live => ?_, fun r' root' => ?_, ?_⟩
  · by_cases own : i = r
    · rw [own, edit.root.1, root.2.1] at free
      cases free
    · rw [kept i own] at free ⊢
      rw [edit.memories] at hi
      exact h.vacant i hi free
  · rw [edit.memories] at hi ⊢
    by_cases own : i = r
    · subst own
      exact ⟨i, edit.root.2.trans root.2.2, hi, fun _ => edit.isRoot.mpr root⟩
    · rw [kept i own] at live ⊢
      obtain ⟨r', from', inCap, bytes⟩ := h.rooted i hi out live
      exact ⟨r', from', inCap, fun some => edit.isRoot.mpr (bytes some)⟩
  · by_cases own : r' = r
    · subst own
      exact ⟨l', pool⟩
    · have root'' := edit.isRoot.mp root'
      obtain ⟨m, pool'⟩ := h.pools r' root''
      rw [others r' own]
      exact ⟨m, edit.elsewhere root own (foreign r' own m root'' pool'.toFreeList) pool'⟩
  · -- A node that is new in the list of `r` was free, and so in no other list.
    have fresh : ∀ r' ≠ r, ∀ m, IsRoot s r' → FreeList s r' m → ∀ k ∈ m, k ∉ l' := by
      intro r' hr m root' list' k hk new
      rcases edit.origin k new with old | free
      · exact foreign r' hr m root' list' k hk old
      · rw [(list'.live k hk).2] at free
        cases free
    intro r₁ r₂ l₁ l₂ ne root₁ root₂ list₁ list₂ k hk₁ hk₂
    rw [edit.isRoot] at root₁ root₂
    by_cases own₁ : r₁ = r
    · subst own₁
      rw [list₁.unique pool.toFreeList] at hk₁
      exact fresh r₂ ne.symm l₂ root₂ (lists r₂ ne.symm l₂ root₂ list₂) k hk₂ hk₁
    · by_cases own₂ : r₂ = r
      · subst own₂
        rw [list₂.unique pool.toFreeList] at hk₂
        exact fresh r₁ own₁ l₁ root₁ (lists r₁ own₁ l₁ root₁ list₁) k hk₁ hk₂
      · exact h.apart r₁ r₂ l₁ l₂ ne root₁ root₂ (lists r₁ own₁ l₁ root₁ list₁) (lists r₂ own₂ l₂ root₂ list₂) k hk₁ hk₂

/-- A slot that is no root changes, and what is in hand makes up for it. -/
theorem Pools.set {f : Option Nat} {v : MemorySlot} (h : Pools e hands s) (hi : i < s.memories.cap) (out : ¬IsRoot s i)
    (here : ∀ j ≠ i, some j ≠ f → some j ≠ e) (here' : ∀ j ≠ i, some j ≠ e → some j ≠ f)
    (vacant : v.state = .free → v.len = 0 ∧ v.root = none) (foreign : v.state = .live → v.root ≠ some i)
    (rooted : some i ≠ f → v.state = .live →
      ∃ r, v.root = some r ∧ r < s.memories.cap ∧ (v.len ≠ 0 → IsRoot s r))
    (balance : ∀ r, IsRoot s r → ∀ μ, Spans.Additive μ →
      v.share μ f r i + total μ (H r) = (s.memories.slot i).share μ e r i + total μ (hands r)) :
    Pools f H { s with memories := s.memories.set i v } := by
  let t : K := { s with memories := s.memories.set i v }
  have kept : ∀ j ≠ i, t.memories.slot j = s.memories.slot j := fun j hj => by simp [t, hj]
  have own : t.memories.slot i = v := by simp [t]
  have roots : ∀ {r}, IsRoot t r ↔ IsRoot s r := by
    intro r
    by_cases same : r = i
    · subst same
      refine ⟨fun root => ?_, fun root => absurd root out⟩
      unfold IsRoot at root
      rw [own] at root
      exact absurd root.2.2 (foreign root.2.1)
    · unfold IsRoot
      rw [kept r same]
      rfl
  have other : ∀ {r}, IsRoot s r → r ≠ i := by
    rintro r root rfl
    exact out root
  have lists : ∀ {r m}, IsRoot s r → FreeList t r m → FreeList s r m := fun root list =>
    list.congr (by rw [kept _ (other root)]) (Nat.le_refl _) fun _ _ => ⟨rfl, rfl⟩
  refine ⟨fun j hj free => ?_, fun j hj outside live => ?_, fun r root => ?_, ?_⟩
  · by_cases same : j = i
    · subst same
      rw [own] at free ⊢
      exact vacant free
    · rw [kept j same] at free ⊢
      exact h.vacant j hj free
  · by_cases same : j = i
    · subst same
      rw [own] at live ⊢
      obtain ⟨r, from', inCap, bytes⟩ := rooted outside live
      exact ⟨r, from', inCap, fun some => roots.mpr (bytes some)⟩
    · rw [kept j same] at live ⊢
      obtain ⟨r, from', inCap, bytes⟩ := h.rooted j hj (here j same outside) live
      exact ⟨r, from', inCap, fun some => roots.mpr (bytes some)⟩
  · have root' := roots.mp root
    obtain ⟨l, pool⟩ := h.pools r root'
    have slot := kept r (other root')
    have balanced : ∀ μ, Spans.Additive μ → total μ (t.pieces f r) + total μ (H r) =
        total μ (s.pieces e r) + total μ (hands r) := by
      intro μ hμ
      have change : total μ (t.pieces f r) + (s.memories.slot i).share μ e r i =
          total μ (s.pieces e r) + (t.memories.slot i).share μ f r i := total_pieces_change rfl hi fun j hj => by
        have same : some j ≠ f ↔ some j ≠ e := ⟨here j hj, here' j hj⟩
        simp only [MemorySlot.share, kept j hj, same]
      rw [own] at change
      have := balance r root' μ hμ
      omega
    refine ⟨l, ⟨pool.toFreeList.congr (by rw [slot]) (Nat.le_refl _) fun _ _ => ⟨rfl, rfl⟩,
      fun μ hμ => ?_, ?_, ?_, ?_⟩, ?_, ?_⟩
    · have whole := pool.fills μ hμ
      have := balanced μ hμ
      rw [total_shares] at whole
      show total μ (t.shares f (H r) r l) = μ (t.memories.slot r).history.whole
      rw [total_shares, slot]
      have free : t.freeSpans l = s.freeSpans l := rfl
      rw [free]
      omega
    · exact slot.symm ▸ pool.top
    · exact slot.symm ▸ pool.dropped
    · exact slot.symm ▸ pool.origin
    · exact slot.symm ▸ pool.ladder
    · have := balanced Span.len additive_len
      have was := pool.out
      show (t.memories.slot r).outBytes = total Span.len (t.pieces f r) +
        total Span.len (t.memories.slot r).history.donated + total Span.len (H r)
      rw [slot]
      omega
  · intro r₁ r₂ l₁ l₂ ne root₁ root₂ list₁ list₂
    rw [roots] at root₁ root₂
    exact h.apart r₁ r₂ l₁ l₂ ne root₁ root₂ (lists root₁ list₁) (lists root₂ list₂)

/-- A root that lends nothing goes away. -/
theorem Pools.dropRoot {v : MemorySlot} (h : Pools none hands s) (root : IsRoot s r) (list : FreeList s r l)
    (idle : (s.memories.slot r).outBytes = 0) (edit : PoolEdit s t r l []) (free : v.state = .free) (len : v.len = 0)
    (rootless : v.root = none) : Pools none hands { t with memories := t.memories.set r v } := by
  let u : K := { t with memories := t.memories.set r v }
  have kept : ∀ j ≠ r, u.memories.slot j = s.memories.slot j := fun j hj => by
    rw [← edit.other j hj]
    simp [u, hj]
  have own : u.memories.slot r = v := by simp [u]
  have cap : u.memories.cap = s.memories.cap := edit.memories
  have roots : ∀ {j}, j ≠ r → (IsRoot u j ↔ IsRoot s j) := by
    intro j hj
    unfold IsRoot
    rw [kept j hj, cap]
  have other : ∀ {j}, IsRoot u j → j ≠ r := by
    rintro j live rfl
    have := live.2.1
    rw [own, free] at this
    cases this
  have clear : ∀ r' ≠ r, ∀ m, IsRoot s r' → FreeList s r' m → ∀ k ∈ m, k ∉ l := fun r' hr m root' list' =>
    h.apart r' r m l hr root' root list' list
  obtain ⟨l', pool⟩ := h.pools r root
  -- What was cut from it has no bytes.
  have empty : ∀ j < s.memories.cap, j ≠ r → (s.memories.slot j).state = .live → (s.memories.slot j).root = some r →
      (s.memories.slot j).len = 0 := by
    intro j hj hjr live from'
    have cut : (s.memories.slot j).CutFrom j r ∧ some j ≠ none := ⟨⟨hjr, live, from'⟩, by simp⟩
    have piece : (s.memories.slot j).span ∈ s.pieces none r :=
      List.mem_map.mpr ⟨j, List.mem_filter.mpr ⟨List.mem_range.mpr hj, decide_eq_true cut⟩, rfl⟩
    have few : Span.len (s.memories.slot j).span ≤ total Span.len (s.pieces none r) := Spans.le_total piece
    have few : (s.memories.slot j).len ≤ total Span.len (s.pieces none r) := few
    have := pool.out
    omega
  -- The others are what an edit of it leaves alone.
  have elsewhere : ∀ r' ≠ r, ∀ m, IsRoot s r' → Pool none (hands r') s r' m → Pool none (hands r') u r' m := by
    intro r' hr m root' pool'
    have still := edit.elsewhere root hr (clear r' hr m root' pool'.toFreeList) pool'
    have slot : u.memories.slot r' = t.memories.slot r' := by simp [u, hr]
    have pieces : u.pieces none r' = t.pieces none r' := by
      refine pieces_congr rfl fun j _ => ?_
      by_cases hj : j = r
      · subst hj
        have foreign : (t.memories.slot j).root ≠ some r' := by
          rw [edit.root.2, root.2.2]
          simpa using hr.symm
        simp [MemorySlot.CutFrom, own, rootless, foreign]
      · simp [u, hj]
    refine ⟨⟨still.toFreeList.congr (by rw [slot]) (Nat.le_refl _) fun _ _ => ⟨rfl, rfl⟩, ?_, ?_, ?_, ?_⟩, ?_, ?_⟩
    · have whole := still.fills
      unfold K.shares at whole ⊢
      rw [slot, pieces]
      exact whole
    · exact slot.symm ▸ still.top
    · exact slot.symm ▸ still.dropped
    · exact slot.symm ▸ still.origin
    · exact slot.symm ▸ still.ladder
    · rw [slot, pieces]
      exact still.out
  have lists : ∀ r' ≠ r, ∀ m, IsRoot s r' → FreeList u r' m → FreeList s r' m := by
    intro r' hr m root' list'
    obtain ⟨m', pool'⟩ := h.pools r' root'
    rw [list'.unique (elsewhere r' hr m' root' pool').toFreeList]
    exact pool'.toFreeList
  refine ⟨fun j hj _ => ?_, fun j hj outside live => ?_, fun r' root' => ?_, ?_⟩
  · by_cases hjr : j = r
    · subst hjr
      rw [own]
      exact ⟨len, rootless⟩
    · rename_i state
      rw [kept j hjr] at state ⊢
      rw [cap] at hj
      exact h.vacant j hj state
  · have hjr : j ≠ r := by
      rintro rfl
      rw [own, free] at live
      cases live
    rw [cap] at hj ⊢
    rw [kept j hjr] at live ⊢
    obtain ⟨r', from', inCap, bytes⟩ := h.rooted j hj outside live
    refine ⟨r', from', inCap, fun some => ?_⟩
    have hr : r' ≠ r := by
      rintro rfl
      exact some (empty j hj hjr live from')
    exact (roots hr).mpr (bytes some)
  · have hr := other root'
    have root'' := (roots hr).mp root'
    obtain ⟨m, pool'⟩ := h.pools r' root''
    exact ⟨m, elsewhere r' hr m root'' pool'⟩
  · intro r₁ r₂ l₁ l₂ ne root₁ root₂ list₁ list₂
    have hr₁ := other root₁
    have hr₂ := other root₂
    rw [roots hr₁] at root₁
    rw [roots hr₂] at root₂
    exact h.apart r₁ r₂ l₁ l₂ ne root₁ root₂ (lists r₁ hr₁ l₁ root₁ list₁) (lists r₂ hr₂ l₂ root₂ list₂)

/-! ### What the pools are about -/

def poolStateParts : List Part := [.memory .region, .memory .pool, .freeRange .range, .freeRange .next, .machine .slabs]

theorem agree_pools (h : Agree poolStateParts s t) :
    t.memories.cap = s.memories.cap ∧ t.freeRanges.cap = s.freeRanges.cap ∧
    (∀ n, t.freeRanges.slot n = s.freeRanges.slot n) ∧ ∀ i, t.memories.slot i = { s.memories.slot i with
      process := (t.memories.slot i).process, refs := (t.memories.slot i).refs, maps := (t.memories.slot i).maps } := by
  have shape : s.shape = t.shape := h (.machine .slabs) (by decide)
  simp only [K.shape, List.cons.injEq, Prod.mk.injEq] at shape
  refine ⟨shape.2.2.2.2.2.2.2.1.1.symm, shape.2.2.2.2.2.2.2.2.1.1.symm, fun n => ?_, fun i => ?_⟩
  · have range : FreeRangePart.same .range _ _ := h (.freeRange .range) (by decide) n
    have next : FreeRangePart.same .next _ _ := h (.freeRange .next) (by decide) n
    generalize s.freeRanges.slot n = x, t.freeRanges.slot n = y at range next ⊢
    cases x
    cases y
    simp_all
  · have region : MemoryPart.same .region _ _ := h (.memory .region) (by decide) i
    have pool : MemoryPart.same .pool _ _ := h (.memory .pool) (by decide) i
    generalize s.memories.slot i = x, t.memories.slot i = y at region pool ⊢
    cases x
    cases y
    simp_all

theorem Pools.agree (h : Agree poolStateParts s t) (hs : Pools e hands s) : Pools e hands t := by
  obtain ⟨cap, freeCap, free, slot⟩ := agree_pools h
  have roots : ∀ {r}, IsRoot t r ↔ IsRoot s r := by
    intro r
    unfold IsRoot
    rw [cap, slot r]
  have lists : ∀ {r l}, FreeList t r l → FreeList s r l := fun list =>
    list.congr (by rw [slot]) (Nat.le_of_eq freeCap) fun n _ => by simp [free n]
  refine ⟨fun i hi vacant => ?_, fun i hi out live => ?_, fun r root => ?_, ?_⟩
  · rw [cap] at hi
    rw [slot i] at vacant ⊢
    exact hs.vacant i hi vacant
  · rw [cap] at hi ⊢
    rw [slot i] at live ⊢
    obtain ⟨r, from', inCap, bytes⟩ := hs.rooted i hi out live
    exact ⟨r, from', inCap, fun some => roots.mpr (bytes some)⟩
  · obtain ⟨l, pool⟩ := hs.pools r (roots.mp root)
    have spans : t.freeSpans l = s.freeSpans l := freeSpans_congr fun n _ => by rw [free n]
    have pieces : t.pieces e r = s.pieces e r := pieces_congr cap fun j _ => by
      rw [slot j]
      exact ⟨Iff.rfl, fun _ => rfl⟩
    refine ⟨l, ⟨?_, ?_, ?_, ?_, ?_⟩, ?_, ?_⟩
    · exact pool.toFreeList.congr (by rw [slot]) (Nat.le_of_eq freeCap.symm) fun n _ => by simp [free n]
    · have whole := pool.fills
      unfold K.shares at whole ⊢
      rw [spans, pieces, slot r]
      exact whole
    · rw [slot r]
      exact pool.top
    · rw [slot r]
      exact pool.dropped
    · rw [slot r]
      exact pool.origin
    · rw [spans, slot r]
      exact pool.ladder
    · rw [pieces, slot r]
      exact pool.out
  · intro r₁ r₂ l₁ l₂ ne root₁ root₂ list₁ list₂
    exact hs.apart r₁ r₂ l₁ l₂ ne (roots.mp root₁) (roots.mp root₂) (lists list₁) (lists list₂)

/-- All pools are in order, and nothing is in hand. -/
def Pooled (s : K) : Prop := Pools none (fun _ => []) s

/-- Only pool `r` has something in hand. -/
def inHand (r : Nat) (x : Span) : Nat → List Span := fun i => if i = r then [x] else []

theorem Pooled.spares {α : Type} {m : M α} {A : K → Prop} (hm : Spares poolStateParts m) : Keeps G n A Pooled m :=
  hm.keeps fun _ _ same => Pools.agree same

/-- A region that was cut from a pool is taken in hand. -/
theorem Pooled.take (hs : Pooled s) (hi : i < s.memories.cap) (live : (s.memories.slot i).state = .live)
    (from' : (s.memories.slot i).root = some r) (other : r ≠ i)
    (same : ∀ μ, Spans.Additive μ → ∀ r', total μ (H r') = if r' = r then μ (s.memories.slot i).span else 0) :
    Pools (some i) H s := by
  have out : ¬IsRoot s i := by
    rintro ⟨-, -, own⟩
    rw [from', Option.some.injEq] at own
    exact other own
  have taken := hs.set (f := some i) (H := H) (v := s.memories.slot i) hi out (by simp)
    (fun j hj _ => by simpa using hj)
    (hs.vacant i hi) (fun _ => by simpa [from'] using other) (by simp) fun r' root' μ hμ => ?_
  · rw [Slab.set_same] at taken
    exact taken
  · have hr : r' ≠ i := by
      rintro rfl
      exact out root'
    rw [same μ hμ r']
    by_cases own : r' = r
    · subst own
      simp [MemorySlot.share, MemorySlot.CutFrom, live, from', hr.symm]
    · have foreign : r ≠ r' := fun h => own h.symm
      simp [MemorySlot.share, MemorySlot.CutFrom, from', own, foreign]

/-- The slot in hand is emptied. -/
theorem Pools.emptied (h : Pools (some i) (fun _ => []) s) (hi : i < s.memories.cap) (out : ¬IsRoot s i) :
    Pooled { s with memories := s.memories.set i .vacant } :=
  h.set hi out (fun j hj _ => by simpa using hj) (by simp) (fun _ => ⟨rfl, rfl⟩) (by simp [MemorySlot.vacant])
    (by simp [MemorySlot.vacant]) fun r _ μ _ => by simp [MemorySlot.share, MemorySlot.CutFrom, MemorySlot.vacant]

/-- Slot `k`, if it is a root, has lent nothing. -/
def Idle (k : Nat) (s : K) : Prop := IsRoot s k → (s.memories.slot k).outBytes = 0

theorem PoolEdit.idle {k : Nat} (edit : PoolEdit s t r l l')
    (less : (t.memories.slot r).outBytes ≤ (s.memories.slot r).outBytes) (h : Idle k s) : Idle k t := by
  intro root
  have was := h (edit.isRoot.mp root)
  by_cases own : k = r
  · subst own
    omega
  · rw [edit.other k own]
    exact was

theorem Idle.vacate {k : Nat} (h : Idle k s) : Idle k { s with memories := s.memories.set i .vacant } := by
  intro root
  by_cases own : k = i
  · have live := root.2.1
    simp [own, MemorySlot.vacant] at live
  · have was : IsRoot s k := by simpa [IsRoot, own] using root
    simpa [own] using h was

/-- The bytes of a region go back to the pool that they were cut from. -/
theorem Pooled.wp_return {k : Nat} (hs : Pooled s) (still : Idle k s) (hi : i < s.memories.cap)
    (live : (s.memories.slot i).state = .live) (from' : (s.memories.slot i).root = some r) (other : r ≠ i)
    {Q : Unit → K → Prop}
    (hQ : ∀ t l₀ l', PoolEdit s t r l₀ l' → (∀ l, FreeList s r l → Kept s t r l (s.memories.slot i).span) →
      Pools (some i) (fun _ => []) t → Idle k t → i < t.memories.cap → ¬IsRoot t i → Q () t) :
    wp G n (poolReturn r (s.memories.slot i).base (s.memories.slot i).len) Q (.leaving A) s := by
  have out : ¬IsRoot s i := by
    rintro ⟨-, -, own⟩
    rw [from', Option.some.injEq] at own
    exact other own
  by_cases empty : (s.memories.slot i).len = 0
  · have nothing : ∀ l, FreeList s r l → Kept s s r l (s.memories.slot i).span := fun l _ =>
      ⟨fun gone => absurd gone.1 (Nat.not_lt.mpr (Nat.le_of_eq empty)), fun _ => rfl, rfl⟩
    refine wp_ite.mpr
      ⟨fun _ => wp_pure.mpr (hQ s [] [] .refl nothing (hs.take hi live from' other fun μ hμ r' => ?_) still hi out),
      absurd empty⟩
    rw [MemorySlot.span, empty, hμ.empty]
    simp
  · obtain ⟨r', same, -, bytes⟩ := hs.rooted i hi (by simp) live
    rw [from', Option.some.injEq] at same
    subst same
    have root := bytes empty
    have taken := hs.take (H := inHand r (s.memories.slot i).span) hi live from' other fun μ hμ r' => by
      unfold inHand
      split <;> simp
    obtain ⟨l, pool⟩ := taken.pools r root
    simp only [inHand, if_true, MemorySlot.span] at pool
    refine wp_poolReturn pool fun t l' edit pool' less kept => ?_
    refine hQ t l l' edit (fun l' list => list.unique pool.toFreeList ▸ kept) ?_ (edit.idle less still)
      (edit.memories.symm ▸ hi) fun h => out (edit.isRoot.mp h)
    refine taken.edit root pool.toFreeList edit pool' fun r' hr => ?_
    simp [inHand, hr]

/-- All pools are in order, and slot `k` is idle if it is a root. -/
def IdlePooled (k : Nat) (s : K) : Prop := Pooled s ∧ Idle k s

theorem IdlePooled.agree {k : Nat} (same : Agree poolStateParts s t) (h : IdlePooled k s) : IdlePooled k t := by
  refine ⟨Pools.agree same h.1, fun root => ?_⟩
  obtain ⟨cap, -, -, slot⟩ := agree_pools same
  unfold IsRoot at root
  rw [slot k, cap] at root
  rw [slot k]
  exact h.2 root

theorem IdlePooled.spares {k : Nat} {α : Type} {m : M α} (hm : Spares poolStateParts m)
    (quiet : ∀ e : Ev, e.quiet → A.emitted e) : Keeps G n A (IdlePooled k) m :=
  hm.keepsQuietly (fun _ _ => IdlePooled.agree) quiet

theorem IdlePooled.release {k : Nat} (quiet : ∀ e : Ev, e.quiet → A.emitted e) :
    Keeps G n A (IdlePooled k) (memoryReleaseIfIdle r) := by
  refine .recur fun again hagain slot s hs => wp_bind.mpr (wp_readMemory.mpr fun hi => ?_)
  obtain ⟨pooled, still⟩ := hs
  refine wp_ite.mpr ⟨fun _ => wp_pure.mpr ⟨pooled, still⟩, fun busy => ?_⟩
  have live : (s.memories.slot slot).state = .live := by
    cases state : (s.memories.slot slot).state with
    | free => simp [state] at busy
    | live => rfl
  rcases from' : (s.memories.slot slot).root with _ | root
  · exact wp_halt.mpr trivial
  refine wp_ite.mpr ⟨fun _ => wp_pure.mpr ⟨pooled, still⟩, fun idle => wp_bind.mpr ?_⟩
  by_cases own : root = slot
  · subst own
    have root' : IsRoot s root := ⟨hi, live, from'⟩
    have out : (s.memories.slot root).outBytes = 0 := by simpa using idle
    obtain ⟨l, pool⟩ := pooled.pools root root'
    rw [memoryGiveBack, if_pos rfl]
    refine wp_poolDropNodes pool.toFreeList fun t edit same => wp_bind.mpr (wp_modifyMemory.mpr fun _ => ?_)
    have dropped : Pooled { t with memories := t.memories.set root .vacant } :=
      pooled.dropRoot root' pool.toFreeList out edit rfl rfl rfl
    have idle' : Idle k t := edit.idle (by rw [same]) still
    refine wp_bind.mpr ((IdlePooled.spares (by simp +decide) quiet _ ⟨dropped, idle'.vacate⟩).imp fun _ u hu => ?_)
    simpa [whenever] using hu
  · rw [memoryGiveBack, if_neg own]
    refine pooled.wp_return still hi live from' own fun t _ _ _ _ ht idle' inCap out =>
      wp_bind.mpr (wp_modifyMemory.mpr fun _ => ?_)
    have emptied := ht.emptied inCap out
    refine wp_bind.mpr ((IdlePooled.spares (by simp +decide) quiet _ ⟨emptied, idle'.vacate⟩).imp fun _ u hu => ?_)
    exact wp_whenever.mpr ⟨fun _ => hagain root u hu, fun _ => hu⟩

theorem Pooled.release (quiet : ∀ e : Ev, e.quiet → A.emitted e) : Keeps G n A Pooled (memoryReleaseIfIdle r) :=
  -- A slot beyond the slab is no root.
  fun s hs => (IdlePooled.release (k := s.memories.cap) quiet s ⟨hs, fun root => absurd root.1 (Nat.lt_irrefl _)⟩).imp
    fun _ _ h => h.1

/-- What is in hand is donated. -/
theorem Pool.donated {x : Span} (h : Pool e (x :: hand) s r l) :
    let region := s.memories.slot r
    Pool e hand { s with memories := s.memories.set r { region with history := region.history.donate x } } r l := by
  intro region
  have edit :
    PoolEdit s { s with memories := s.memories.set r { region with history := region.history.donate x } } r l l :=
    .own rfl rfl
  refine ⟨⟨h.toFreeList.congr (by simp [region]) (Nat.le_refl _) fun _ _ => ⟨rfl, rfl⟩,
    fun μ hμ => ?_, ?_, ?_, ?_⟩, ?_, ?_⟩
  · have whole := h.fills μ hμ
    rw [total_shares] at whole
    rw [total_shares, edit.pieces]
    simp only [Slab.set_slot, if_true, total_cons, MemorySlot.span, K.freeSpans, PoolHistory.donate, region] at whole ⊢
    omega
  · simpa [region, MemorySlot.span, PoolHistory.donate] using h.top
  · simpa [region, PoolHistory.donate] using h.dropped
  · simpa [region, PoolHistory.donate] using h.origin
  · simpa [region, K.freeSpans] using h.ladder
  · have := h.out
    rw [edit.pieces]
    simp only [Slab.set_slot, if_true, PoolHistory.donate, total_cons, region] at this ⊢
    omega

/-- A region stays out of its pool for good. -/
theorem IdlePooled.retire (quiet : ∀ e : Ev, e.quiet → A.emitted e) :
    Leads G n A (IdlePooled r) Pooled (memoryRetireDonated r) := by
  rintro s ⟨hs, idle⟩
  have finish : ∀ u p, Pooled u → wp G n (quotaCredit p .memory) (fun _ => Pooled) (.leaving A) u := fun u p hu =>
    (Spares.keepsQuietly (by simp +decide) (fun _ _ => Pools.agree) quiet u hu)
  refine wp_bind.mpr (wp_readMemory.mpr fun hi => wp_bind.mpr (wp_whenever.mpr ⟨fun own => ?_, fun other => ?_⟩))
  · have own : (s.memories.slot r).root = some r := of_decide_eq_true own
    have live : (s.memories.slot r).state = .live := by
      cases state : (s.memories.slot r).state with
      | live => rfl
      | free =>
        rw [(hs.vacant r hi state).2] at own
        cases own
    have root : IsRoot s r := ⟨hi, live, own⟩
    obtain ⟨l, pool⟩ := hs.pools r root
    refine wp_poolDropNodes pool.toFreeList fun t edit _ => wp_bind.mpr ?_
    rw [recordDonated, own]
    refine wp_modifyMemory.mpr fun _ => wp_bind.mpr (wp_modifyMemory.mpr fun _ => finish _ _ ?_)
    exact hs.dropRoot root pool.toFreeList (idle root) (edit.trans (.own rfl rfl)) rfl rfl rfl
  · have other : (s.memories.slot r).root ≠ some r := of_decide_eq_false other
    have out : ¬IsRoot s r := fun root => other root.2.2
    refine wp_bind.mpr ?_
    rcases from' : (s.memories.slot r).root with _ | root
    · have free : (s.memories.slot r).state = .free := by
        cases state : (s.memories.slot r).state with
        | free => rfl
        | live =>
          obtain ⟨_, same, -⟩ := hs.rooted r hi (by simp) state
          rw [from'] at same
          cases same
      rw [recordDonated, from']
      refine wp_pure.mpr (wp_bind.mpr (wp_modifyMemory.mpr fun _ => finish _ _ ?_))
      exact hs.set hi out (by simp) (by simp) (fun _ => ⟨rfl, rfl⟩) (by simp [MemorySlot.vacant])
        (by simp [MemorySlot.vacant])
        fun r' _ μ _ => by simp [MemorySlot.share, MemorySlot.CutFrom, MemorySlot.vacant, free]
    · have apart : root ≠ r := fun same => other (same ▸ from')
      have live : (s.memories.slot r).state = .live := by
        cases state : (s.memories.slot r).state with
        | live => rfl
        | free =>
          rw [(hs.vacant r hi state).2] at from'
          cases from'
      rw [recordDonated, from']
      refine wp_modifyMemory.mpr fun inCap => wp_bind.mpr (wp_modifyMemory.mpr fun _ => finish _ _ ?_)
      by_cases root' : IsRoot s root
      · have taken := hs.take (H := inHand root (s.memories.slot r).span) hi live from' apart fun μ hμ r' => by
          unfold inHand
          split <;> simp
        obtain ⟨l, pool⟩ := taken.pools root root'
        simp only [inHand, if_true] at pool
        have edit : PoolEdit s { s with memories := s.memories.set root { s.memories.slot root with
            history := (s.memories.slot root).history.donate (s.memories.slot r).span } } root l l := .own rfl rfl
        have kept : Pools (some r) (fun _ => []) { s with memories := s.memories.set root { s.memories.slot root with
            history := (s.memories.slot root).history.donate (s.memories.slot r).span } } :=
          taken.edit root' pool.toFreeList edit pool.donated fun r' hr => by simp [inHand, hr]
        exact kept.emptied hi fun h => out (edit.isRoot.mp h)
      · -- The root is gone, and so the region has no bytes.
        obtain ⟨root'', same, -, bytes⟩ := hs.rooted r hi (by simp) live
        rw [from', Option.some.injEq] at same
        subst same
        have empty : (s.memories.slot r).len = 0 := Classical.byContradiction fun some => root' (bytes some)
        have taken := hs.take (H := fun _ => []) hi live from' apart fun μ hμ r' => by
          rw [MemorySlot.span, empty, hμ.empty]
          simp
        have kept := taken.set (f := some r) (H := fun _ => []) (v := { s.memories.slot root with
            history := (s.memories.slot root).history.donate (s.memories.slot r).span }) inCap root' (by simp) (by simp)
          (taken.vacant root inCap) (fun live' own => root' ⟨inCap, live', own⟩)
          (taken.rooted root inCap) fun _ _ _ _ => rfl
        exact kept.emptied hi fun h => out (by simpa [IsRoot, apart.symm] using h)

/-! ### Splitting -/

/-- A piece of `region` was cut off pool `r`: of the regions, only these two have changed. -/
structure CutOff (s t : K) (region r : Nat) : Prop where
  cap : t.memories.cap = s.memories.cap
  other : ∀ i, i ≠ region → i ≠ r → t.memories.slot i = s.memories.slot i
  live : (s.memories.slot region).state = .live
  from' : (s.memories.slot region).root = some r
  own : (t.memories.slot region).state = .live ∧ (t.memories.slot region).root = some r
  root : IsRoot s r
  still : IsRoot t r
  history : (t.memories.slot r).history = (s.memories.slot r).history

theorem CutOff.free {region : Nat} (h : CutOff s t region r) (free : (s.memories.slot i).state = .free) :
    t.memories.slot i = s.memories.slot i := by
  refine h.other i ?_ ?_
  · rintro rfl
    rw [h.live] at free
    cases free
  · rintro rfl
    rw [h.root.2.1] at free
    cases free

/-- A piece of a region with bytes is cut off its pool, or off the region itself, and is in hand. -/
theorem Pooled.wp_cut {region len : Nat} (quiet : ∀ e : Ev, e.quiet → A.emitted e) (hs : Pooled s) (bytes : 0 < len)
    {Q : Nat → K → Prop}
    (hQ : ∀ base r t, Pools none (inHand r ⟨base, len⟩) t → CutOff s t region r → Q base t) :
    wp G n (poolCut region len) Q (.leaving A) s := by
  refine wp_bind.mpr (wp_readMemory.mpr fun hi => wp_ite.mpr ⟨fun own => ?_, fun other => ?_⟩)
  · have live : (s.memories.slot region).state = .live := by
      cases state : (s.memories.slot region).state with
      | live => rfl
      | free =>
        rw [(hs.vacant region hi state).2] at own
        cases own
    have root : IsRoot s region := ⟨hi, live, own⟩
    obtain ⟨l, pool⟩ := hs.pools region root
    -- However the piece was cut, only this pool was edited.
    have done : ∀ base t l', PoolEdit s t region l l' →
      (t.memories.slot region).history = (s.memories.slot region).history →
        Pool none [⟨base, len⟩] t region l' → Q base t := by
      intro base t l' edit history pool'
      have pools : Pools none (inHand region ⟨base, len⟩) t :=
        hs.edit root pool.toFreeList edit (by simpa [inHand] using pool') fun r' hr => by simp [inHand, hr]
      exact hQ base region t pools ⟨edit.memories, fun i hi _ => edit.other i hi, live, own,
        ⟨edit.root.1.trans live, edit.root.2.trans own⟩, root, edit.isRoot.mpr root, history⟩
    refine wp_bind.mpr (wp_poolCutRange pool ?_ fun base t l' _ edit history pool' =>
      wp_pure.mpr (done base t l' edit history pool'))
    refine wp_bind.mpr (wp_readMemory.mpr fun _ => wp_bind.mpr (wp_markQuietly quiet (by simp) (by simp) ?_))
    refine wp_ite.mpr ⟨fun _ => wp_fatalKernel.mpr trivial, fun fits => wp_bind.mpr (wp_addWord.mpr fun _ => ?_)⟩
    refine wp_bind.mpr (wp_modifyMemory.mpr fun _ =>
      wp_bind.mpr (wp_whenever.mpr ⟨fun _ => wp_lend fun _ => ?_, by simp⟩))
    simp only [Slab.set_slot, if_true, Slab.set_set]
    exact wp_pure.mpr (done _ _ l (.own rfl rfl) (by simp) (pool.advance (by omega)))
  · refine wp_bind.mpr (wp_readMemory.mpr fun _ => wp_bind.mpr (wp_markQuietly quiet (by simp) (by simp) ?_))
    refine wp_ite.mpr ⟨fun _ => wp_fatalKernel.mpr trivial, fun fits => wp_bind.mpr (wp_addWord.mpr fun _ => ?_)⟩
    refine wp_bind.mpr (wp_modifyMemory.mpr fun _ => wp_bind.mpr (wp_whenever.mpr ⟨by simp, fun _ => wp_pure.mpr ?_⟩))
    have live : (s.memories.slot region).state = .live := by
      cases state : (s.memories.slot region).state with
      | live => rfl
      | free =>
        have := (hs.vacant region hi state).1
        omega
    obtain ⟨r, from', inCap, root⟩ := hs.rooted region hi (by simp) live
    have root : IsRoot s r := root (by omega)
    have apart : r ≠ region := fun same => other (same ▸ from')
    have out : ¬IsRoot s region := fun root => other root.2.2
    refine hQ _ r _ (hs.set hi out (by simp) (by simp) (by simp [live]) (by simpa [from'] using fun _ => apart) ?_ ?_)
      ⟨rfl, fun i hi _ => by simp [hi], live, from', by simp [live, from'], root, by simpa [IsRoot, apart] using root,
        by simp [apart]⟩
    · intro _ _
      exact ⟨r, from', inCap, fun _ => root⟩
    · intro r' root' μ hμ
      have hr : r' ≠ region := fun same => out (same ▸ root')
      by_cases own : r' = r
      · subst own
        have cut := hμ.front (b := (s.memories.slot region).base) (Nat.le_of_not_lt fits)
        simp [MemorySlot.share, MemorySlot.CutFrom, live, from', hr.symm, inHand, MemorySlot.span] at cut ⊢
        omega
      · have foreign : r ≠ r' := fun h => own h.symm
        simp [MemorySlot.share, MemorySlot.CutFrom, from', own, foreign, inHand]

variable {V : Ev → Prop} {B : K → Prop}

/-- Slot `i` is free. -/
def Unused (i : Nat) (s : K) : Prop := i < s.memories.cap ∧ (s.memories.slot i).state = .free

theorem Unused.agree (same : Agree groundParts s t) (h : Unused i s) : Unused i t := by
  have shape : s.shape = t.shape := same (.machine .slabs) (by decide)
  have region : MemoryPart.same .region _ _ := same (.memory .region) (by decide) i
  simp only [K.shape, List.cons.injEq, Prod.mk.injEq] at shape
  exact ⟨shape.2.2.2.2.2.2.2.1.1 ▸ h.1, region.1 ▸ h.2⟩

/-- The slot of a piece is free until it is filled. -/
theorem Upkeep.carve {I N : K → Prop} (w : Upkeep G V n I N B) {p region len : Nat} (hp : Mortal V p)
    (fill : ∀ i, 0 < len → Leads G n ⟨B, V⟩ (fun s => I s ∧ Unused i s) I (do
      let base ← poolCut region len
      let root := (← memories.read region).root
      memories.write i ⟨.live, p, base, len, 1, 0, root, none, 0, 0, .none⟩
      quotaCharge p .memory)) : Keeps G n ⟨B, V⟩ I (memorySplit p region len) := by
  intro s hs
  refine wp_bind.mpr (wp_sparesQuietly w.ground.quiet (S := groundParts) (by simp) fun _ t ht => ?_)
  have hs := w.ground.about s t ht hs
  refine wp_bind.mpr (w.wp_check hp hs fun nonzero => wp_bind.mpr (w.wp_check hp hs fun _ => ?_))
  have bytes : 0 < len := by
    simp only [Bool.or_eq_false_iff, decide_eq_false_iff_not] at nonzero
    omega
  refine w.createIn (R := fun _ => True) (P := Unused) (fun _ _ _ _ => trivial) (fun u hu _ => ?_)
    (fun _ _ _ same => Unused.agree same) (fun i => fill i bytes) t ⟨hs, trivial⟩
  refine wp_reads.mpr ⟨hu, fun i found => ?_⟩
  obtain ⟨inCap, free⟩ := Slab.find_some found
  exact ⟨inCap, of_decide_eq_true free⟩

/-- A free slot is filled with what is cut off. -/
theorem Pooled.wp_fill {A : Conduct K Ev} (quiet : ∀ e : Ev, e.quiet → A.emitted e) (hs : Pooled s) {p region len : Nat}
    (bytes : 0 < len) (unused : Unused i s) {J : K → Prop} (about : ∀ s t, Agree poolStateParts s t → J s → J t)
    (hJ : ∀ base r t, CutOff s t region r → t.shape = s.shape →
      let v : MemorySlot := ⟨.live, p, base, len, 1, 0, some r, none, 0, 0, .none⟩
      Pooled { t with memories := t.memories.set i v } → J { t with memories := t.memories.set i v }) :
    wp G n (do
      let base ← poolCut region len
      let root := (← memories.read region).root
      memories.write i ⟨.live, p, base, len, 1, 0, root, none, 0, 0, .none⟩
      quotaCharge p .memory) (fun _ => J) (.leaving A) s := by
  obtain ⟨inCap, free⟩ := unused
  have shape : Spares [.machine .slabs] (poolCut region len) := spares_poolCut (by decide)
  have cutting : wp G n (poolCut region len)
    (fun base t => ∃ r, CutOff s t region r ∧ Pools none (inHand r ⟨base, len⟩) t)
      (.leaving A) s := hs.wp_cut quiet bytes fun _ r _ pools cut => ⟨r, cut, pools⟩
  refine wp_bind.mpr ((cutting.and (shape.wp quiet n s)).mono (fun _ => id) ?_ (fun _ => And.left)
    (fun _ => And.left) fun _ => And.left)
  rintro base t ⟨⟨r, cut, pools⟩, same⟩
  refine wp_bind.mpr (wp_readMemory.mpr fun _ => wp_bind.mpr (wp_modifyMemory.mpr fun _ => ?_))
  refine (Spares.keepsQuietly (by simp +decide) about quiet) _ ?_
  rw [cut.own.2]
  refine hJ base r t cut (show s.shape = t.shape from same (.machine .slabs) (by simp)).symm ?_
  have root := cut.still
  have unused : (t.memories.slot i).state = .free := by rw [cut.free free, free]
  have out : ¬IsRoot t i := fun root => by
    have := root.2.1
    rw [unused] at this
    cases this
  have apart : r ≠ i := fun same => out (same ▸ root)
  refine pools.set (cut.cap ▸ inCap) out (by simp) (by simp) (by simp) (by simpa using apart) ?_ ?_
  · intro _ _
    exact ⟨r, rfl, root.1, fun _ => root⟩
  · intro r' root' μ _
    have hr : i ≠ r' := fun same => out (same ▸ root')
    by_cases own : r' = r
    · subst own
      simp [MemorySlot.share, MemorySlot.CutFrom, unused, hr, inHand, MemorySlot.span]
    · have foreign : r ≠ r' := fun h => own h.symm
      simp [MemorySlot.share, MemorySlot.CutFrom, unused, own, foreign, inHand]

theorem Pooled.split {N : K → Prop} (w : Upkeep G V n Pooled N B) {p region len : Nat} (hp : Mortal V p) :
    Keeps G n ⟨B, V⟩ Pooled (memorySplit p region len) := by
  exact w.carve hp fun i bytes s ⟨hs, unused⟩ =>
    hs.wp_fill w.ground.quiet bytes unused (fun _ _ => Pools.agree) fun _ _ _ _ _ filled => filled

/-! ### Every step -/

theorem IdlePooled.bedrock {k : Nat} (quiet : ∀ e : Ev, e.quiet → A.emitted e) : Bedrock G n A (IdlePooled k) where
  quiet := quiet
  about _ _ same := IdlePooled.agree (same.mono (by decide))
  release _ := IdlePooled.release quiet
  unmapped _ := IdlePooled.spares (spares_mappings (by simp +decide)) quiet
  reclaim _ := IdlePooled.spares (spares_processes (by simp +decide)) quiet

/-- An invariant about the pools that releases keep. -/
structure Pooling (G : Ev → Prop) (n : Nat) (I : K → Prop) : Prop where
  about : ∀ s t, Agree poolStateParts s t → I s → I t
  release : ∀ {A : K → Prop} r, Keeps G n A I (memoryReleaseIfIdle r)

namespace Pooling
variable {I A : K → Prop} {p : Nat} (h : Pooling G n I)
include h

theorem spares {α : Type} {m : M α} (hm : Spares poolStateParts m) : Keeps G n A I m := hm.keeps h.about

theorem bedrock : Bedrock G n A I where
  quiet _ _ := trivial
  about s t same := h.about s t (same.mono (by decide))
  release := h.release
  unmapped _ := h.spares (spares_mappings (by simp +decide))
  reclaim _ := h.spares (spares_processes (by simp +decide))

theorem unrefRow {region : Option Nat} : Keeps G n A I (unrefRegionRow region) := by
  cases region with
  | none => exact keeps_pure
  | some r =>
    refine .bind (h.spares (by simp)) fun _ => .bind (.whenever (h.spares (by simp))) fun _ => ?_
    refine .bind (h.spares (spares_memories ?_)) fun _ => h.release r
    simp +decide

theorem clearDomain : Keeps G n A I (clearDomain p) := by
  refine .bind (h.spares (by simp)) fun slot => .bind (h.spares (spares_processes ?_)) fun _ => ?_
  · simp +decide
  refine .bind (h.spares (by simp +decide)) fun _ => .bind (.countUp fun _ => h.unrefRow) fun _ => ?_
  refine .bind (h.spares (by simp)) fun _ => .whenever (h.spares (spares_machine (fun _ => rfl) ?_))
  simp +decide [K.shape]

theorem dismantles : Dismantles G n A p I I I I I I I where
  enter _ _ := (h.spares (spares_processes (by simp +decide))).leads
  before := h.bedrock.ground
  threads := (h.spares (spares_sweepThreads (by simp +decide) (by decide))).leads
  idle := (h.spares (spares_idle (by decide))).leads
  lines := h.bedrock.sweepLines
  after := h.bedrock.ground
  timers := h.bedrock.sweepTimers
  rows := (h.spares (by simp +decide)).leads
  record := h.clearDomain.leads
  boot := (h.spares (by simp +decide)).leads
  quota := (h.spares (by simp +decide)).leads
  reclaim := h.bedrock.reclaim p

theorem steady : Steady G n I :=
  .steady .any (fun s t same => h.about s t (same.mono (by decide))) h.bedrock.serviced
    (fun _ => h.spares (by simp +decide))
    fun _ _ _ _ => h.dismantles.teardown trivial

theorem unmap {i : Nat} : Keeps G n I I (mappingUnmap p i) := by
  have w : Steady G n I := h.steady
  refine .bind (w.mappedRow mortal_any) fun _ => .bind (w.spares (by simp)) fun _ => .bind ?_ fun _ => ?_
  · refine .ite (.bind (w.spares (by simp)) fun _ => .bind (w.spares (by simp)) fun _ => ?_) (w.spares (by simp))
    refine .bind (h.spares (by simp +decide)) fun _ => .bind (h.spares (spares_processes ?_)) fun _ => ?_
    · simp +decide [ProcessSlot.dropRow]
    · exact h.unrefRow
  refine .bind (h.spares (spares_mappings ?_)) fun _ => ?_
  · simp +decide
  refine .bind (h.spares (by simp +decide)) fun _ => .bind (h.spares (by simp +decide)) fun _ => ?_
  exact .bind (h.spares (by simp +decide)) fun _ => keeps_pure

theorem fillProcess {slot img dst : Nat} {dest : LoadRegion} : Keeps G n I I (fillProcess slot img dest dst) := by
  have g : Serviced G n I I := h.bedrock.serviced
  refine .bind (g.placeImage fun _ _ _ _ _ _ => h.spares (by simp +decide)) fun _ =>
    .bind (h.spares (by simp)) fun _ => ?_
  refine .bind (h.spares (spares_processes ?_)) fun _ => .bind (h.spares (by simp +decide)) fun _ => ?_
  · simp +decide
  · exact .bind (h.spares (by simp)) fun _ => h.spares (by simp +decide)

/-- What is left to show are splits and donations. -/
theorem grounded (split : ∀ p r len, Keeps G n I I (memorySplit p r len))
    (donate : ∀ p k d, Keeps G n I I (slabDonate p k d)) :
    SteadyGrounded G n I where
  toUpkeep := h.steady
  split p r len _ := split p r len
  map _ _ _ _ _ := h.steady.map h.about (by decide)
  mapDevice _ _ _ := h.steady.mapDevice h.about (by decide)
  mapStats _ _ _ hp s hs := h.steady.mapStats h.about (by decide) hp s hs.1
  unmap _ _ _ := h.unmap
  donate p k d _ := donate p k d
  processCreate _ _ _ := h.steady.processCreate fun _ _ _ _ s hs => h.fillProcess s hs.1
  start _ _ _ _ := h.steady.start h.about (by decide)
  threadCreate _ _ _ _ := h.steady.threadCreate h.about (by decide)
  devices := h.steady.devices fun s t same => h.about s t (same.mono (by decide))

end Pooling

theorem Pooled.pooling : Pooling G n Pooled where
  about _ _ := Pools.agree
  release _ := Pooled.release fun _ _ => trivial

theorem Pooled.upkeep : Steady G n Pooled := Pooled.pooling.steady

/-- More slots, all of them free, leave the pools as they are. -/
theorem Pooled.donated (d : Donated s t) (hs : Pooled s) : Pooled t := by
  have slot : ∀ {i}, i < s.memories.cap → t.memories.slot i = s.memories.slot i := fun hi => d.memories.old hi
  have beyond : ∀ {i}, i < t.memories.cap → ¬i < s.memories.cap → t.memories.slot i = .vacant := fun hi out => by
    rw [d.memories.slot, if_pos ⟨Nat.le_of_not_lt out, hi⟩]
  have inside : ∀ {i}, i < t.memories.cap → (t.memories.slot i).state = .live → i < s.memories.cap := fun hi live =>
    Classical.byContradiction fun out => by
      rw [beyond hi out] at live
      cases live
  have roots : ∀ {r}, IsRoot t r ↔ IsRoot s r := by
    intro r
    refine ⟨fun ⟨hr, live, own⟩ => ?_, fun ⟨hr, live, own⟩ => ?_⟩
    · have old := inside hr live
      rw [slot old] at live own
      exact ⟨old, live, own⟩
    · exact ⟨Nat.lt_of_lt_of_le hr d.memories.cap, (slot hr).symm ▸ live, (slot hr).symm ▸ own⟩
  have node : ∀ {r l}, FreeList s r l → ∀ n ∈ l, t.freeRanges.slot n = s.freeRanges.slot n := fun list n hn =>
    d.freeRanges.old (list.live n hn).1
  have lists : ∀ {r l}, IsRoot s r → FreeList s r l → FreeList t r l := fun root list =>
    list.congr (by rw [slot root.1]) d.freeRanges.cap fun n hn => by simp [node list n hn]
  have back : ∀ {r l}, IsRoot s r → FreeList t r l → FreeList s r l := fun root list => by
    obtain ⟨l, pool⟩ := hs.pools _ root
    rw [list.unique (lists root pool.toFreeList)]
    exact pool.toFreeList
  have pieces : ∀ r, t.pieces none r = s.pieces none r := by
    intro r
    obtain ⟨more, cap⟩ := Nat.exists_eq_add_of_le d.memories.cap
    unfold K.pieces
    rw [cap, List.range_add, List.filter_append, List.map_append]
    have new : ((List.range more).map (s.memories.cap + ·)).filter
        (fun i => (t.memories.slot i).CutFrom i r ∧ some i ≠ none) = [] := by
      refine List.filter_eq_nil_iff.mpr fun i hi => ?_
      obtain ⟨j, hj, rfl⟩ := List.mem_map.mp hi
      rw [beyond (by have := List.mem_range.mp hj; omega) (by omega)]
      simp [MemorySlot.CutFrom, MemorySlot.vacant]
    rw [new, List.map_nil, List.append_nil]
    have old : (List.range s.memories.cap).filter (fun i => (t.memories.slot i).CutFrom i r ∧ some i ≠ none) =
        (List.range s.memories.cap).filter fun i => (s.memories.slot i).CutFrom i r ∧ some i ≠ none :=
      List.filter_congr fun i hi => by rw [slot (List.mem_range.mp hi)]
    rw [old]
    refine List.map_congr_left fun i hi => ?_
    rw [slot (List.mem_range.mp (List.mem_filter.mp hi).1)]
  refine ⟨fun i hi free => ?_, fun i hi out live => ?_, fun r root => ?_, ?_⟩
  · by_cases old : i < s.memories.cap
    · rw [slot old] at free ⊢
      exact hs.vacant i old free
    · rw [beyond hi old]
      exact ⟨rfl, rfl⟩
  · have old := inside hi live
    rw [slot old] at live ⊢
    obtain ⟨r, from', inCap, bytes⟩ := hs.rooted i old out live
    exact ⟨r, from', Nat.lt_of_lt_of_le inCap d.memories.cap, fun some => roots.mpr (bytes some)⟩
  · have root := roots.mp root
    obtain ⟨l, pool⟩ := hs.pools r root
    have spans : t.freeSpans l = s.freeSpans l := freeSpans_congr fun n hn => by rw [node pool.toFreeList n hn]
    refine ⟨l, ⟨lists root pool.toFreeList, ?_, ?_, ?_, ?_⟩, ?_, ?_⟩
    · have whole := pool.fills
      unfold K.shares at whole ⊢
      rw [spans, pieces, slot root.1]
      exact whole
    · exact (slot root.1).symm ▸ pool.top
    · exact (slot root.1).symm ▸ pool.dropped
    · exact (slot root.1).symm ▸ pool.origin
    · rw [spans, slot root.1]
      exact pool.ladder
    · rw [pieces, slot root.1]
      exact pool.out
  · intro r₁ r₂ l₁ l₂ ne root₁ root₂ list₁ list₂
    have root₁ := roots.mp root₁
    have root₂ := roots.mp root₂
    exact hs.apart r₁ r₂ l₁ l₂ ne root₁ root₂ (back root₁ list₁) (back root₂ list₂)

theorem IdlePooled.donated {k : Nat} (d : Donated s t) (hs : IdlePooled k s) : IdlePooled k t := by
  refine ⟨hs.1.donated d, fun root => ?_⟩
  obtain ⟨hk, live, own⟩ := root
  have old : k < s.memories.cap := Classical.byContradiction fun out => by
    rw [d.memories.slot, if_pos ⟨Nat.le_of_not_lt out, hk⟩] at live
    cases live
  have same := d.memories.old old
  rw [same] at live own ⊢
  exact hs.2 ⟨old, live, own⟩

theorem Pooled.donate {p k h : Nat} : Keeps G n Pooled Pooled (slabDonate p k h) := by
  have w : Steady G n Pooled := Pooled.upkeep
  have quiet : ∀ e : Ev, e.quiet → (⟨Pooled, fun _ => True⟩ : Conduct K Ev).emitted e := fun _ _ => trivial
  unfold Sawos.slabDonate
  cases SlabKind.ofRaw k with
  | none => exact w.faultProcess mortal_any
  | some kind =>
    refine .bind (w.memoryArg mortal_any) fun slot s hs => wp_bind.mpr (wp_readMemory.mpr fun _ => ?_)
    refine wp_bind.mpr (w.wp_check mortal_any hs fun _ => wp_bind.mpr (w.wp_check mortal_any hs fun _ => ?_))
    refine wp_bind.mpr (w.wp_check mortal_any hs fun lent => ?_)
    have idle : IdlePooled slot s := by
      refine ⟨hs, fun root => ?_⟩
      simpa [root.2.2] using lent
    have weaken : ∀ {u}, IdlePooled slot u → Pooled u := And.left
    refine wp_bind.mpr
      (wp_reads.mpr (wp_ite.mpr ⟨fun _ => wp_pure.mpr hs, fun _ => wp_bind.mpr (wp_addWord.mpr fun _ => ?_)⟩))
    refine wp_ite.mpr ⟨fun _ => wp_pure.mpr hs, fun _ => wp_bind.mpr ?_⟩
    refine ((IdlePooled.bedrock quiet).serviced.longZero s idle).imp fun _ u hu =>
      wp_bind.mpr (wp_slabInstall fun _ v d => ?_)
    have hv := hu.donated d
    refine wp_bind.mpr (wp_whenever.mpr ⟨fun _ => wp_fatalKernel.mpr trivial, fun _ => wp_bind.mpr ?_⟩)
    refine (IdlePooled.spares (by simp +decide) quiet v hv).imp fun _ x hx => ?_
    exact wp_bind.mpr ((IdlePooled.retire quiet x hx).imp fun _ _ done => wp_pure.mpr done)

theorem Pooled.grounded : SteadyGrounded G n Pooled :=
  Pooled.pooling.grounded (fun _ _ _ => Pooled.split Pooled.upkeep mortal_any) fun _ _ _ => Pooled.donate

/-! ### The boot -/

/-- Every memory slot is free. -/
def Barren (s : K) : Prop := ∀ i, (s.memories.slot i).state = .free ∧ (s.memories.slot i).len = 0 ∧
    (s.memories.slot i).root = none

theorem Barren.agree (same : Agree poolStateParts s t) (h : Barren s) : Barren t := fun i => by
  rw [(agree_pools same).2.2.2 i]
  exact h i

theorem Barren.spares {α : Type} {m : M α} {A : K → Prop} (hm : Spares poolStateParts m) : Keeps G n A Barren m :=
  hm.keeps fun _ _ same => Barren.agree same

/-- There is nothing to release. -/
theorem Barren.release {A : K → Prop} : Keeps G n A Barren (memoryReleaseIfIdle r) := by
  refine .recur fun _ _ slot s hs => wp_bind.mpr (wp_readMemory.mpr fun _ => ?_)
  exact wp_ite.mpr ⟨fun _ => wp_pure.mpr hs, fun busy => absurd (by simp [(hs slot).1]) busy⟩

theorem Barren.bedrock {A : K → Prop} : Bedrock G n A Barren where
  quiet _ _ := trivial
  about _ _ same := Barren.agree (same.mono (by decide))
  release _ := Barren.release
  unmapped _ := Barren.spares (spares_mappings (by simp +decide))
  reclaim _ := Barren.spares (spares_processes (by simp +decide))

/-- The first `k` slots are roots, and the others are free. -/
structure Booting (k : Nat) (s : K) : Prop where
  pooled : Pooled s
  roots : ∀ i < k, IsRoot s i
  rest : ∀ i, k ≤ i → i < s.memories.cap → (s.memories.slot i).state = .free

theorem Barren.booting (h : Barren s) : Booting 0 s := by
  refine ⟨⟨fun i _ _ => (h i).2, fun i _ _ live => ?_, fun r root => ?_, fun r _ _ _ _ root => ?_⟩,
    by simp, fun i _ _ => (h i).1⟩
  · rw [(h i).1] at live
    cases live
  · have := root.2.1
    rw [(h r).1] at this
    cases this
  · have := root.2.1
    rw [(h r).1] at this
    cases this

theorem Booting.agree {k : Nat} (same : Agree poolStateParts s t) (h : Booting k s) : Booting k t := by
  obtain ⟨cap, -, -, slot⟩ := agree_pools same
  refine ⟨Pools.agree same h.pooled, fun i hi => ?_, fun i hi inCap => ?_⟩
  · have := h.roots i hi
    unfold IsRoot at this ⊢
    rw [cap, slot i]
    exact this
  · rw [slot i]
    exact h.rest i hi (cap ▸ inCap)

/-- The next slot becomes the root of a pool that has lent nothing. -/
theorem Booting.next {k p base len : Nat} (h : Booting k s) (inCap : k < s.memories.cap)
    (origin : bootRange k = some ⟨base, len⟩) :
    let v : MemorySlot := ⟨.live, p, base, len, 1, 0, some k, none, 0, 0, ⟨⟨base, len⟩, [], []⟩⟩
    Booting (k + 1) { s with memories := s.memories.set k v } := by
  intro v
  let t : K := { s with memories := s.memories.set k v }
  have free := h.rest k (Nat.le_refl k) inCap
  have own : t.memories.slot k = v := by simp [t]
  have kept : ∀ {i}, i ≠ k → t.memories.slot i = s.memories.slot i := fun hi => by simp [t, hi]
  have fresh : IsRoot t k := ⟨inCap, by rw [own], by rw [own]⟩
  have roots : ∀ {r}, r ≠ k → (IsRoot t r ↔ IsRoot s r) := fun hr => by
    unfold IsRoot
    rw [kept hr]
    rfl
  -- No slot names `k` as the pool it was cut from.
  have strange : ∀ i, (t.memories.slot i).CutFrom i k → ¬i < s.memories.cap := by
    rintro i ⟨hi, live, from'⟩ old
    rw [kept hi] at live from'
    by_cases first : i < k
    · rw [(h.roots i first).2.2, Option.some.injEq] at from'
      exact hi from'
    · rw [h.rest i (Nat.le_of_not_lt first) old] at live
      cases live
  have none' : t.pieces none k = [] := by
    unfold K.pieces
    rw [List.map_eq_nil_iff, List.filter_eq_nil_iff]
    intro i hi
    have := strange i
    simp only [decide_eq_true_eq, not_and]
    exact fun cut => absurd (List.mem_range.mp hi) (this cut)
  have first : Pool none [] t k [] := by
    refine ⟨⟨⟨by rw [own]; rfl, by simp⟩, fun μ _ => ?_, by rw [own]; rfl, by rw [own]; rfl,
      by rw [own]; exact origin⟩, ?_, ?_⟩
    · rw [total_shares, none', own]
      simp [v, MemorySlot.span]
    · exact ladder_nil
    · rw [none', own]
      rfl
  have other : ∀ {r}, r ≠ k → ∀ l, Pool none [] s r l → Pool none [] t r l := by
    intro r hr l pool
    have slot := kept hr
    have pieces : t.pieces none r = s.pieces none r := by
      refine pieces_congr rfl fun j _ => ?_
      by_cases hj : j = k
      · subst hj
        rw [own]
        simp [MemorySlot.CutFrom, free, v, hr.symm]
      · rw [kept hj]
        exact ⟨Iff.rfl, fun _ => rfl⟩
    refine ⟨⟨pool.toFreeList.congr (by rw [slot]) (Nat.le_refl _) fun _ _ => ⟨rfl, rfl⟩, ?_, ?_, ?_, ?_⟩, ?_, ?_⟩
    · have whole := pool.fills
      unfold K.shares at whole ⊢
      rw [pieces, slot]
      exact whole
    · exact slot.symm ▸ pool.top
    · exact slot.symm ▸ pool.dropped
    · exact slot.symm ▸ pool.origin
    · exact slot.symm ▸ pool.ladder
    · rw [pieces, slot]
      exact pool.out
  have lists : ∀ {r l}, r ≠ k → FreeList t r l → FreeList s r l := fun hr list =>
    list.congr (by rw [kept hr]) (Nat.le_refl _) fun _ _ => ⟨rfl, rfl⟩
  refine ⟨⟨fun i hi vacant => ?_, fun i hi out live => ?_, fun r root => ?_, ?_⟩, fun i hi => ?_, fun i hi inCap' => ?_⟩
  · by_cases same : i = k
    · rw [same, show ({ s with memories := s.memories.set k v } : K).memories.slot k = v from own] at vacant
      cases vacant
    · have old : ({ s with memories := s.memories.set k v } : K).memories.slot i = s.memories.slot i := kept same
      rw [old] at vacant ⊢
      exact h.pooled.vacant i hi vacant
  · by_cases same : i = k
    · subst same
      exact ⟨i, by simp [v], hi, fun _ => fresh⟩
    · have old : ({ s with memories := s.memories.set k v } : K).memories.slot i = s.memories.slot i := kept same
      rw [old] at live ⊢
      by_cases before : i < k
      · have root := h.roots i before
        exact ⟨i, root.2.2, hi, fun _ => (roots same).mpr root⟩
      · rw [h.rest i (Nat.le_of_not_lt before) hi] at live
        cases live
  · by_cases same : r = k
    · subst same
      exact ⟨[], first⟩
    · obtain ⟨l, pool⟩ := h.pooled.pools r ((roots same).mp root)
      exact ⟨l, other same l pool⟩
  · intro r₁ r₂ l₁ l₂ ne root₁ root₂ list₁ list₂ m hm₁ hm₂
    by_cases same₁ : r₁ = k
    · subst same₁
      rw [list₁.unique first.toFreeList] at hm₁
      cases hm₁
    · by_cases same₂ : r₂ = k
      · subst same₂
        rw [list₂.unique first.toFreeList] at hm₂
        cases hm₂
      · exact h.pooled.apart r₁ r₂ l₁ l₂ ne ((roots same₁).mp root₁) ((roots same₂).mp root₂) (lists same₁ list₁)
          (lists same₂ list₂) m hm₁ hm₂
  · by_cases same : i = k
    · rw [same]
      exact fresh
    · exact (roots same).mpr (h.roots i (by omega))
  · have hne : i ≠ k := by omega
    show (t.memories.slot i).state = .free
    rw [kept hne]
    exact h.rest i (by omega) inCap'

/-- How many pools the first `i` rows of the boot table make. -/
def bootPools (i : Nat) : Nat := ((Build.bootRegions.take i).filter fun row => row.kind = 0).length

omit [Hal] in
/-- An element of a list that satisfies `p` comes behind those before it that do. -/
theorem getElem?_filter {α : Type} {p : α → Bool} {l : List α} {i : Nat} {a : α} (here : l[i]? = some a)
    (good : p a = true) :
    (l.filter p)[((l.take i).filter p).length]? = some a := by
  obtain ⟨hi, rfl⟩ := List.getElem?_eq_some_iff.mp here
  have split : l.filter p = (l.take i).filter p ++ (l[i] :: l.drop (i + 1)).filter p := by
    rw [List.getElem_cons_drop, ← List.filter_append, List.take_append_drop]
  rw [split, List.getElem?_append_right (Nat.le_refl _), Nat.sub_self, List.filter_cons, if_pos good]
  rfl

theorem bootRange_next {i : Nat} {row : BootRegion} (here : Build.bootRegions[i]? = some row) (pool : row.kind = 0) :
    bootRange (bootPools i) = some ⟨Hal.virtToPhys row.base, row.len⟩ ∧ bootPools (i + 1) = bootPools i + 1 := by
  constructor
  · unfold bootRange bootPools
    rw [getElem?_filter here (decide_eq_true pool)]
    rfl
  · unfold bootPools
    rw [List.take_add_one, here]
    simp [pool]

theorem bootPools_next {i : Nat} {row : BootRegion} (here : Build.bootRegions[i]? = some row) (pool : row.kind ≠ 0) :
    bootPools (i + 1) = bootPools i := by
  unfold bootPools
  rw [List.take_add_one, here]
  simp [pool]

theorem Booting.spares {k : Nat} {α : Type} {m : M α} {A : K → Prop} (hm : Spares poolStateParts m) :
    Keeps G n A (Booting k) m := hm.keeps fun _ _ same => Booting.agree same

theorem Booting.mintBootRegion {A : K → Prop} {p i : Nat} {row : BootRegion} (here : Build.bootRegions[i]? = some row) :
    Leads G n A (Booting (bootPools i)) (Booting (bootPools (i + 1))) (mintBootRegion p i row) := by
  intro s hs
  refine wp_bind.mpr (wp_whenever.mpr ⟨fun _ => wp_halt.mpr trivial, fun _ => ?_⟩)
  refine wp_bind.mpr (wp_whenever.mpr ⟨fun _ => wp_halt.mpr trivial, fun _ => ?_⟩)
  refine wp_bind.mpr ((Booting.spares (by simp) s hs).imp fun room t ht => ?_)
  refine wp_bind.mpr
    (wp_whenever.mpr ⟨fun _ => wp_halt.mpr trivial, fun _ => wp_ite.mpr ⟨fun pool => ?_, fun device => ?_⟩⟩)
  · obtain ⟨range, next⟩ := bootRange_next here pool
    rw [next]
    refine wp_bind.mpr (wp_allocMemory.mpr ?_)
    rcases found : t.memories.find (·.state = .free) with _ | slot
    · exact wp_halt.mpr trivial
    obtain ⟨inCap, free⟩ := Slab.find_some found
    have free : (t.memories.slot slot).state = .free := of_decide_eq_true free
    -- The first free slot is the one behind the roots.
    have same : slot = bootPools i := by
      rcases Nat.lt_trichotomy slot (bootPools i) with before | same | after
      · rw [(ht.roots slot before).2.1] at free
        cases free
      · exact same
      · have busy := (List.find?_range_eq_some.mp found).2.2 (bootPools i) after
        simp [ht.rest (bootPools i) (Nat.le_refl _) (by omega)] at busy
    subst same
    refine wp_bind.mpr (wp_modifyMemory.mpr fun _ => ?_)
    refine Booting.spares ?_ _ (ht.next inCap range)
    refine .bind (by simp +decide) fun _ => .bind (.whenever spares_halt) fun _ => .bind (by simp +decide) fun _ => ?_
    simp +decide
  · rw [bootPools_next here device]
    refine Booting.spares (.bind (by simp) fun found => ?_) t ht
    cases found with
    | none => exact spares_halt
    | some slot =>
      refine .bind (spares_ioMemories (by simp +decide)) fun _ => .bind (by simp +decide) fun _ => ?_
      exact .bind (.whenever spares_halt) fun _ => .bind (by simp +decide) fun _ => by simp +decide

theorem Barren.mintBootRegions {A : K → Prop} {p : Nat} : Leads G n A Barren Pooled (mintBootRegions p) := by
  intro s hs
  refine wp_bind.mpr (wp_whenever.mpr ⟨fun _ => wp_halt.mpr trivial, fun _ => ?_⟩)
  have start : Booting (bootPools 0) s := hs.booting
  refine (wp_countUp (I := fun i => Booting (bootPools i)) start fun i t _ hi ht => ?_).imp fun _ _ done => done.pooled
  rw [Nat.zero_add] at hi
  rw [List.getElem?_eq_getElem hi]
  exact Booting.mintBootRegion (List.getElem?_eq_getElem hi) t ht

theorem Pooled.startProcess {A : K → Prop} {e sp rb rt wb wt : Nat} :
    Leads G n A Barren Pooled (startProcess e sp rb rt wb wt) := by
  refine (Barren.spares (spares_processes ?_)).leads.bind fun _ => ?_
  · simp +decide
  refine (Barren.spares (by simp +decide)).leads.bind fun _ => (Barren.spares (by simp)).leads.bind fun _ => ?_
  refine (Barren.spares (by simp +decide)).leads.bind fun _ => (Barren.spares (by simp +decide)).leads.bind fun _ => ?_
  refine (Barren.spares (by simp +decide)).leads.bind fun _ => (Barren.spares (by simp +decide)).leads.bind fun _ => ?_
  refine (Barren.spares (by simp)).leads.bind fun found => ?_
  cases found with
  | none => exact fun _ _ => wp_halt.mpr trivial
  | some main =>
    refine (Barren.spares (by simp +decide)).leads.bind fun _ =>
      (Barren.spares (spares_threads ?_)).leads.bind fun _ => ?_
    · simp +decide
    refine (Barren.spares (by simp +decide)).leads.bind fun _ => ?_
    refine Leads.bind (J := Barren) (Keeps.leads (Barren.spares ?_)) fun _ => ?_
    · simp +decide
    refine (Barren.spares (.whenever spares_halt)).leads.bind fun _ => Barren.mintBootRegions.bind fun _ => ?_
    refine Keeps.leads (Pooled.spares (.bind ?_ fun _ => spares_frameInit (by decide)))
    simp +decide

theorem Pooled.boot {A : K → Prop} : Leads G n A K.Fresh Pooled loadRootAndEnter := fun s hs =>
  boot_leads (I := Barren) (J := Barren) (L := Barren)
    (fun _ => Barren.bedrock.serviced.placeImage fun _ _ _ _ _ _ => Barren.spares (by simp +decide))
    (Barren.spares (by simp +decide)).leads (fun _ _ _ _ _ _ => Pooled.startProcess) s fun i => by
      rw [hs.memories]
      exact ⟨rfl, rfl, rfl⟩

/-- The pools are in order in every state that a run reaches. -/
theorem Pooled.reachable (h : Reachable s) : Pooled s := Grounded.reachable (fun _ => Pooled.grounded) (fun _ s hs =>
  (Pooled.boot (A := fun _ => False) s hs).mono (fun _ => id) (fun _ _ => id) (fun _ => id) (fun _ => id) fun _ => id) h

/-- What the bytes of pool `r` are divided into: the space above its frontier, the free ranges, the live regions that
    were cut from it, the ranges that it dropped, and those that were donated. -/
def K.division (s : K) (r : Nat) (l : List Nat) : List Span :=
  let root := s.memories.slot r
  root.span :: (s.freeSpans l ++ s.pieces none r ++ root.history.lost ++ root.history.donated)

/-- The range `whole` is divided among the parts of pool `r`, whose free list is `l`, and its counters count them. -/
structure Divided (s : K) (r : Nat) (l : List Nat) (whole : Span) : Prop where
  list : FreeList s r l
  ladder : Ladder (s.freeSpans l) (s.memories.slot r).base
  apart : (s.division r l).Pairwise Span.Apart
  covers : ∀ a, (∃ x ∈ s.division r l, x.Has a) ↔ whole.Has a
  out : (s.memories.slot r).outBytes = total Span.len (s.pieces none r) + total Span.len
    (s.memories.slot r).history.donated
  dropped : (s.memories.slot r).dropped = total Span.len (s.memories.slot r).history.lost
  bytes : (s.memories.slot r).len + total Span.len (s.freeSpans l) + (s.memories.slot r).outBytes +
    (s.memories.slot r).dropped = whole.len

/-- In every reachable state each pool is divided, and what is divided is the range that the boot table gave it. -/
theorem pool_is_divided (h : Reachable s) (root : IsRoot s r) :
    ∃ l whole, bootRange r = some whole ∧ Divided s r l whole := by
  obtain ⟨l, pool⟩ := (Pooled.reachable h).pools r root
  have same : s.shares none [] r l = s.division r l := by simp [K.shares, K.division]
  have fills := pool.fills
  rw [same] at fills
  have out := pool.out
  have dropped := pool.dropped
  rw [total_nil, Nat.add_zero] at out
  refine ⟨l, _, pool.origin, pool.toFreeList, pool.ladder, fills.apart, fills.covers, out, dropped, ?_⟩
  have bytes := fills.bytes
  simp only [K.division, total_cons, total_append, MemorySlot.span] at bytes
  omega

end

end

section
attribute [local instance] pairBuild sampleTarget Riscv32.board

/-- Slot 1 is a root, and its free list begins with node 0. -/
def returned (s : K) : Bool :=
  decide (1 < s.memories.cap) && decide ((s.memories.slot 1).state = .live) && (s.memories.slot 1).root == some 1 &&
    (s.memories.slot 1).freeHead == some 0

/-- The root splits two pages off its region and releases the first, which then is a free range. -/
theorem pool_is_divided_page : ∃ s : K, (s.memories.slot 1).freeHead = some 0 ∧
    ∃ l whole, bootRange 1 = some whole ∧ Divided s 1 l whole := by
  obtain ⟨s, reached, found⟩ := reachable_of_played (G := fun _ => True) (c := returned)
    (i := [.call 5 0 4096 0 0, .call 5 0 4096 0 0, .call 6 0xFFFF 0 0 0]) (g := fun _ => true)
    (by decide +kernel) fun _ _ => trivial
  simp only [returned, Bool.and_eq_true, beq_iff_eq, decide_eq_true_eq] at found
  obtain ⟨⟨⟨inCap, live⟩, own⟩, head⟩ := found
  exact ⟨s, head, pool_is_divided reached ⟨inCap, live, own⟩⟩

end

end Sawos
