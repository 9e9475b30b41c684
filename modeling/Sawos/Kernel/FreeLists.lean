import Sawos.Kernel.Rules
import Sawos.Lib.Chain

/-! # Free lists

The list of free ranges of a pool: its nodes as a list, and what the routines that edit it do to that list. -/

namespace Sawos
open Exec Spans

section
variable [Hal]

def FreeRange.span (f : FreeRange) : Span := ⟨f.base, f.len⟩

/-- The free list of pool `r` is `l`. -/
structure FreeList (s : K) (r : Nat) (l : List Nat) : Prop where
  chain : Chain (fun n => (s.freeRanges.slot n).next) (s.memories.slot r).freeHead l none
  live : ∀ n ∈ l, n < s.freeRanges.cap ∧ (s.freeRanges.slot n).state = .live

def K.freeSpans (s : K) (l : List Nat) : List Span := l.map fun n => (s.freeRanges.slot n).span

section
variable {s t : K} {r : Nat} {l l' : List Nat}

theorem freeSpans_congr (same : ∀ n ∈ l, (t.freeRanges.slot n).span = (s.freeRanges.slot n).span) :
    t.freeSpans l = s.freeSpans l := List.map_congr_left same

@[simp] theorem freeSpans_nil : s.freeSpans [] = [] := rfl

@[simp] theorem freeSpans_cons {n : Nat} : s.freeSpans (n :: l) = (s.freeRanges.slot n).span :: s.freeSpans l := rfl

@[simp] theorem freeSpans_append : s.freeSpans (l ++ l') = s.freeSpans l ++ s.freeSpans l' := List.map_append

theorem FreeList.congr (h : FreeList s r l) (head : (t.memories.slot r).freeHead = (s.memories.slot r).freeHead)
    (cap : s.freeRanges.cap ≤ t.freeRanges.cap)
    (same : ∀ n ∈ l, (t.freeRanges.slot n).next = (s.freeRanges.slot n).next ∧
      (t.freeRanges.slot n).state = (s.freeRanges.slot n).state) : FreeList t r l := by
  refine ⟨?_, fun n hn => ?_⟩
  · rw [head]
    exact h.chain.congr fun n hn => (same n hn).1.symm
  · exact ⟨Nat.lt_of_lt_of_le (h.live n hn).1 cap, (same n hn).2.trans (h.live n hn).2⟩

theorem FreeList.unique (h : FreeList s r l) (h' : FreeList s r l') : l = l' := h.chain.unique h'.chain

/-- The next node is the one that follows in the list. -/
theorem FreeList.next_eq {pre suf : List Nat} {n : Nat} (h : FreeList s r (pre ++ n :: suf)) :
    (s.freeRanges.slot n).next = suf.head? := by
  obtain ⟨_, -, -, rest⟩ := Chain.append.mp h.chain
  exact rest.head_eq

/-- A node of a free list is in it once. -/
theorem FreeList.distinct {pre suf : List Nat} {m : Nat} (h : FreeList s r (pre ++ m :: suf)) : m ∉ pre ∧ m ∉ suf := by
  have once := h.chain.nodup
  refine ⟨fun hm => (List.nodup_append.mp once).2.2 m hm m List.mem_cons_self rfl, ?_⟩
  exact (List.nodup_cons.mp (List.nodup_append.mp once).2.1).1

omit [Hal] in
theorem mem_middle {pre suf : List Nat} {m k : Nat} : k ∉ pre ++ m :: suf ↔ k ∉ pre ∧ k ≠ m ∧ k ∉ suf := by
  simp only [List.mem_append, List.mem_cons, not_or]

/-! ### Edits of one pool -/

/-- Only pool `r` is edited, whose free list was `l` and is `l'`. -/
structure PoolEdit (s t : K) (r : Nat) (l l' : List Nat) : Prop where
  memories : t.memories.cap = s.memories.cap
  ranges : t.freeRanges.cap = s.freeRanges.cap
  other : ∀ i ≠ r, t.memories.slot i = s.memories.slot i
  root : (t.memories.slot r).state = (s.memories.slot r).state ∧ (t.memories.slot r).root = (s.memories.slot r).root
  nodes : ∀ n ∉ l, (s.freeRanges.slot n).state = .live → t.freeRanges.slot n = s.freeRanges.slot n
  origin : ∀ n ∈ l', n ∈ l ∨ (s.freeRanges.slot n).state = .free

theorem PoolEdit.refl : PoolEdit s s r l l := ⟨rfl, rfl, fun _ _ => rfl, ⟨rfl, rfl⟩, fun _ _ _ => rfl, fun _ => Or.inl⟩

theorem PoolEdit.trans {u : K} {l'' : List Nat} (h : PoolEdit s t r l l') (h' : PoolEdit t u r l' l'') :
    PoolEdit s u r l l'' := by
  have kept : ∀ n ∉ l, (s.freeRanges.slot n).state = .live → n ∉ l' ∧ (t.freeRanges.slot n).state = .live := by
    intro n hn live
    refine ⟨fun hn' => ?_, by rw [h.nodes n hn live, live]⟩
    rcases h.origin n hn' with old | free
    · exact hn old
    · rw [live] at free
      cases free
  refine ⟨h'.memories.trans h.memories, h'.ranges.trans h.ranges, fun i hi => (h'.other i hi).trans (h.other i hi),
    ⟨h'.root.1.trans h.root.1, h'.root.2.trans h.root.2⟩, fun n hn live => ?_, fun n hn => ?_⟩
  · obtain ⟨out, still⟩ := kept n hn live
    rw [h'.nodes n out still, h.nodes n hn live]
  · by_cases old : n ∈ l
    · exact Or.inl old
    · refine Or.inr ?_
      cases state : (s.freeRanges.slot n).state with
      | free => rfl
      | live =>
        obtain ⟨out, still⟩ := kept n old state
        rcases h'.origin n hn with now | free
        · exact absurd now out
        · rw [still] at free
          cases free

/-- The root's own slot changes, but not where it belongs. -/
theorem PoolEdit.own {v : MemorySlot} (state : v.state = (s.memories.slot r).state)
    (root : v.root = (s.memories.slot r).root) : PoolEdit s { s with memories := s.memories.set r v } r l l :=
  ⟨rfl, rfl, fun i hi => by simp [hi], by simp [state, root], fun _ _ _ => rfl, fun _ => Or.inl⟩

/-- A node of the list changes. -/
theorem PoolEdit.node {m : Nat} {v : FreeRange} (hm : m ∈ l) :
    PoolEdit s { s with freeRanges := s.freeRanges.set m v } r l l := by
  refine ⟨rfl, rfl, fun _ _ => rfl, ⟨rfl, rfl⟩, fun k hk _ => ?_, fun _ => Or.inl⟩
  have : k ≠ m := by
    rintro rfl
    exact hk hm
  simp [this]

/-- A node of a free list gets another span. -/
theorem FreeList.resize {pre suf : List Nat} {m : Nat} (h : FreeList s r (pre ++ m :: suf)) (base len : Nat) :
    let t := { s with freeRanges := s.freeRanges.set m { s.freeRanges.slot m with base := base, len := len } }
    PoolEdit s t r (pre ++ m :: suf) (pre ++ m :: suf) ∧ FreeList t r (pre ++ m :: suf) ∧
      t.freeSpans (pre ++ m :: suf) = s.freeSpans pre ++ ⟨base, len⟩ :: s.freeSpans suf := by
  intro t
  obtain ⟨out, out'⟩ := h.distinct
  have others : ∀ {l : List Nat}, m ∉ l → t.freeSpans l = s.freeSpans l := fun hm => freeSpans_congr fun k hk => by
    have : k ≠ m := fun same => hm (same ▸ hk)
    simp [t, this]
  refine ⟨⟨rfl, rfl, fun _ _ => rfl, ⟨rfl, rfl⟩, fun k hk _ => ?_, fun _ => Or.inl⟩, ?_, ?_⟩
  · simp [t, (mem_middle.mp hk).2.1]
  · refine h.congr rfl (Nat.le_refl _) fun k _ => ?_
    by_cases hk : k = m <;> simp [t, hk]
  · rw [← others out, ← others out']
    simp [K.freeSpans, t, FreeRange.span]

/-- A node leaves a free list, and the link before it passes it. -/
theorem FreeList.remove {pre suf : List Nat} {m : Nat} (h : FreeList s r (pre ++ m :: suf))
    (caps : t.memories.cap = s.memories.cap ∧ t.freeRanges.cap = s.freeRanges.cap)
    (other : ∀ i ≠ r, t.memories.slot i = s.memories.slot i)
    (root : (t.memories.slot r).state = (s.memories.slot r).state ∧ (t.memories.slot r).root = (s.memories.slot r).root)
    (head : (t.memories.slot r).freeHead = Chain.rehead (s.memories.slot r).freeHead pre.getLast? suf.head?)
    (nodes : ∀ k ≠ m, t.freeRanges.slot k = { s.freeRanges.slot k with
      next := Chain.relinked (fun n => (s.freeRanges.slot n).next) pre.getLast? suf.head? k }) :
    PoolEdit s t r (pre ++ m :: suf) (pre ++ suf) ∧ FreeList t r (pre ++ suf) ∧
      t.freeSpans (pre ++ suf) = s.freeSpans (pre ++ suf) := by
  have once := h.chain.nodup
  obtain ⟨out, out'⟩ := h.distinct
  have ne : ∀ k ∈ pre ++ suf, k ≠ m := by
    rintro k hk rfl
    rcases List.mem_append.mp hk with hk | hk
    · exact out hk
    · exact out' hk
  obtain ⟨k, front, -, back⟩ := Chain.append.mp h.chain
  have behind : Chain (fun n => (s.freeRanges.slot n).next) suf.head? suf none := by
    rw [← h.next_eq]
    exact back
  have relinked : Chain (Chain.relinked (fun n => (s.freeRanges.slot n).next) pre.getLast? suf.head?)
      (Chain.rehead (s.memories.slot r).freeHead pre.getLast? suf.head?) (pre ++ suf) none :=
    Chain.append.mpr ⟨suf.head?, front.relink (List.nodup_append.mp once).1,
      Chain.relink_rest (List.nodup_append.mpr ⟨(List.nodup_append.mp once).1,
        (List.nodup_cons.mp (List.nodup_append.mp once).2.1).2, fun a ha b hb =>
          (List.nodup_append.mp once).2.2 a ha b (List.mem_cons_of_mem _ hb)⟩) behind⟩
  refine ⟨⟨caps.1, caps.2, other, root, fun k hk _ => ?_, fun k hk => Or.inl ?_⟩, ⟨?_, fun k hk => ?_⟩, ?_⟩
  · obtain ⟨outPre, hkm, -⟩ := mem_middle.mp hk
    have last : pre.getLast? ≠ some k := fun last => outPre (List.mem_of_getLast? last)
    rw [nodes k hkm]
    simp [Chain.relinked, last]
  · simp only [List.mem_append, List.mem_cons] at hk ⊢
    tauto
  · rw [head]
    exact relinked.congr fun k hk => by rw [nodes k (ne k hk)]
  · have old := h.live k (by simp only [List.mem_append, List.mem_cons] at hk ⊢; tauto)
    rw [caps.2, nodes k (ne k hk)]
    exact old
  · exact freeSpans_congr fun k hk => by rw [nodes k (ne k hk)]; rfl

/-- A free node goes into a free list. -/
theorem FreeList.insert {pre suf : List Nat} {m : Nat} (h : FreeList s r (pre ++ suf)) (base len : Nat)
    (inCap : m < s.freeRanges.cap) (free : (s.freeRanges.slot m).state = .free)
    (caps : t.memories.cap = s.memories.cap ∧ t.freeRanges.cap = s.freeRanges.cap)
    (other : ∀ i ≠ r, t.memories.slot i = s.memories.slot i)
    (root : (t.memories.slot r).state = (s.memories.slot r).state ∧ (t.memories.slot r).root = (s.memories.slot r).root)
    (head : (t.memories.slot r).freeHead = Chain.rehead (s.memories.slot r).freeHead pre.getLast? (some m))
    (node : t.freeRanges.slot m = ⟨.live, base, len, suf.head?⟩)
    (nodes : ∀ k ≠ m, t.freeRanges.slot k = { s.freeRanges.slot k with
      next := Chain.relinked (fun n => (s.freeRanges.slot n).next) pre.getLast? (some m) k }) :
    PoolEdit s t r (pre ++ suf) (pre ++ m :: suf) ∧ FreeList t r (pre ++ m :: suf) ∧
      t.freeSpans (pre ++ m :: suf) = s.freeSpans pre ++ ⟨base, len⟩ :: s.freeSpans suf := by
  have once := h.chain.nodup
  have ne : ∀ k ∈ pre ++ suf, k ≠ m := by
    rintro k hk rfl
    have := (h.live k hk).2
    rw [free] at this
    cases this
  obtain ⟨k, front, back⟩ := Chain.append.mp h.chain
  have behind : Chain (fun n => (s.freeRanges.slot n).next) suf.head? suf none := by
    rw [← back.head_eq]
    exact back
  have relinked := front.relink (x := some m) (List.nodup_append.mp once).1
  have rest := Chain.relink_rest (x := some m) once behind
  have links : ∀ k ∈ pre ++ suf, Chain.relinked (fun n => (s.freeRanges.slot n).next) pre.getLast? (some m) k =
      (t.freeRanges.slot k).next := fun k hk => by rw [nodes k (ne k hk)]
  have spans : ∀ k ∈ pre ++ suf, (t.freeRanges.slot k).span = (s.freeRanges.slot k).span := fun k hk => by
    rw [nodes k (ne k hk)]
    rfl
  refine ⟨⟨caps.1, caps.2, other, root, fun k hk live => ?_, fun k hk => ?_⟩, ⟨?_, fun k hk => ?_⟩, ?_⟩
  · have hkm : k ≠ m := by
      rintro rfl
      rw [free] at live
      cases live
    have last : pre.getLast? ≠ some k := fun last => hk (List.mem_append_left _ (List.mem_of_getLast? last))
    rw [nodes k hkm]
    simp [Chain.relinked, last]
  · by_cases hkm : k = m
    · exact Or.inr (hkm ▸ free)
    · simp only [List.mem_append, List.mem_cons] at hk ⊢
      tauto
  · rw [head]
    refine Chain.append.mpr ⟨some m, relinked.congr fun k hk => links k (List.mem_append_left _ hk), rfl, ?_⟩
    show Chain _ (t.freeRanges.slot m).next suf none
    rw [node]
    exact rest.congr fun k hk => links k (List.mem_append_right _ hk)
  · rw [caps.2]
    by_cases hkm : k = m
    · subst hkm
      rw [node]
      exact ⟨inCap, rfl⟩
    · have old := h.live k (by simp only [List.mem_append, List.mem_cons] at hk ⊢; tauto)
      rw [nodes k hkm]
      exact old
  · rw [← freeSpans_congr fun k hk => spans k (List.mem_append_left _ hk),
      ← freeSpans_congr fun k hk => spans k (List.mem_append_right _ hk)]
    simp [K.freeSpans, node, FreeRange.span]

/-- A node takes in the one behind it. -/
theorem FreeList.absorb {pre suf : List Nat} {m q : Nat} (h : FreeList s r (pre ++ m :: q :: suf)) (len : Nat) :
    let t := { s with freeRanges := (s.freeRanges.set m { s.freeRanges.slot m with
      len := len, next := (s.freeRanges.slot q).next }).set q .vacant }
    PoolEdit s t r (pre ++ m :: q :: suf) (pre ++ m :: suf) ∧ FreeList t r (pre ++ m :: suf) ∧
      t.freeSpans (pre ++ m :: suf) = s.freeSpans pre ++ ⟨(s.freeRanges.slot m).base, len⟩ :: s.freeSpans suf := by
  intro t
  obtain ⟨edit, list, -⟩ := h.resize (s.freeRanges.slot m).base len
  have split : pre ++ m :: q :: suf = (pre ++ [m]) ++ q :: suf := by simp
  rw [split] at edit list ⊢
  have behind := list.next_eq
  have apart : m ≠ q := by
    rintro rfl
    exact list.distinct.1 (by simp)
  have after : (s.freeRanges.slot q).next = suf.head? := by simpa [apart.symm] using behind
  obtain ⟨edit', list', -⟩ := list.remove (t := t) ⟨rfl, rfl⟩ (fun _ _ => rfl) ⟨rfl, rfl⟩ (by simp [t, Chain.rehead])
    fun k hk => by
      by_cases hkm : m = k
      · subst hkm
        simp [t, Chain.relinked, after, apart]
      · have : k ≠ m := fun h => hkm h.symm
        simp [t, Chain.relinked, hk, hkm, this]
  obtain ⟨out, out'⟩ := h.distinct
  have others : ∀ {l : List Nat}, m ∉ l → q ∉ l → t.freeSpans l = s.freeSpans l := fun hm hq =>
    freeSpans_congr fun k hk => by
    have : k ≠ m := fun same => hm (same ▸ hk)
    have : k ≠ q := fun same => hq (same ▸ hk)
    simp [t, *]
  obtain ⟨clear, clear'⟩ := list.distinct
  have spans' : t.freeSpans (pre ++ m :: suf) =
      s.freeSpans pre ++ ⟨(s.freeRanges.slot m).base, len⟩ :: s.freeSpans suf := by
    rw [← others out fun hq => clear (List.mem_append_left _ hq),
      ← others (fun hm => out' (List.mem_cons_of_mem _ hm)) clear']
    simp [K.freeSpans, t, FreeRange.span, apart]
  have whole : pre ++ [m] ++ suf = pre ++ m :: suf := by simp
  rw [whole] at edit' list'
  exact ⟨edit.trans edit', list', spans'⟩

/-! ### Programs -/

section
variable {G : Ev → Prop} {n : Nat} {A : Conduct K Ev}

/-- The link behind `prev` is pointed at `next`. -/
theorem wp_poolLink {root : Nat} {prev next : Option Nat} {Q : Unit → K → Prop}
    (head : prev = none →
      Q () { s with memories := s.memories.set root { s.memories.slot root with freeHead := next } })
    (link : ∀ m, prev = some m → Q () { s with freeRanges := s.freeRanges.set m { s.freeRanges.slot m with
      next := next } }) : wp G n (poolLink root prev next) Q (.leaving A) s := by
  unfold poolLink
  cases prev with
  | none => exact wp_modifyMemory.mpr fun _ => head rfl
  | some m => exact wp_modifyFreeRange.mpr fun _ => link m rfl

theorem wp_freeFreeRange {m : Nat} {Q : Unit → K → Prop} :
    wp G n (freeFreeRange m) Q (.leaving A) s ↔
      (m < s.freeRanges.cap → Q () { s with freeRanges := s.freeRanges.set m .vacant }) := by
  unfold freeFreeRange
  exact wp_modifyFreeRange

/-- A node is taken out of a free list. -/
theorem wp_unlinkNode {root m : Nat} {pre suf : List Nat} {next : Option Nat} (h : FreeList s root (pre ++ m :: suf))
    (behind : next = suf.head?) {Q : Unit → K → Prop}
    (hQ : ∀ t, PoolEdit s t root (pre ++ m :: suf) (pre ++ suf) → FreeList t root (pre ++ suf) →
      t.freeSpans (pre ++ suf) = s.freeSpans (pre ++ suf) →
      t.memories.slot root = { s.memories.slot root with freeHead := (t.memories.slot root).freeHead } → Q () t) :
    wp G n (do poolLink root pre.getLast? next; freeFreeRange m) Q (.leaving A) s := by
  subst behind
  obtain ⟨out, out'⟩ := h.distinct
  refine wp_bind.mpr (wp_poolLink (fun first => ?_) fun p last => ?_)
  · refine wp_freeFreeRange.mpr fun _ => ?_
    obtain ⟨edit, list, spans⟩ := h.remove (t := { s with
      memories := s.memories.set root { s.memories.slot root with freeHead := suf.head? }
      freeRanges := s.freeRanges.set m .vacant }) ⟨rfl, rfl⟩ (fun i hi => by simp [hi]) (by simp)
      (by simp [Chain.rehead, first]) fun k hk => by simp [Chain.relinked, first, hk]
    exact hQ _ edit list spans (by simp)
  · have hp : p ≠ m := by
      rintro rfl
      exact out (List.mem_of_getLast? last)
    refine wp_freeFreeRange.mpr fun _ => ?_
    obtain ⟨edit, list, spans⟩ := h.remove (t := { s with
      freeRanges := (s.freeRanges.set p { s.freeRanges.slot p with next := suf.head? }).set m .vacant }) ⟨rfl, rfl⟩
      (fun _ _ => rfl) ⟨rfl, rfl⟩ (by simp [Chain.rehead, last]) fun k hk => by
        by_cases hkp : k = p
        · simp [Chain.relinked, last, hkp, hp]
        · have : p ≠ k := fun h => hkp h.symm
          simp [Chain.relinked, last, hk, hkp, this]
    exact hQ _ edit list spans rfl

theorem wp_poolNeighbours {root base : Nat} (h : FreeList s root l) {Q : Option Nat × Option Nat → K → Prop}
    (hQ : ∀ pre suf, l = pre ++ suf → (∀ p ∈ pre, (s.freeRanges.slot p).base ≤ base) →
      (∀ q ∈ suf.head?, base < (s.freeRanges.slot q).base) → Q (pre.getLast?, suf.head?) s) :
    wp G n (poolNeighbours root base) Q (.leaving A) s := by
  refine wp_bind.mpr (wp_readMemory.mpr fun _ => ?_)
  refine wp_loop (Q := Q) (I := fun at' t => t = s ∧ ∃ pre suf, l = pre ++ suf ∧ at' = (pre.getLast?, suf.head?) ∧
    ∀ p ∈ pre, (s.freeRanges.slot p).base ≤ base) ?_ ⟨rfl, [], l, rfl, by rw [h.chain.head_eq]; rfl, by simp⟩
  rintro at' t ⟨rfl, pre, suf, rfl, rfl, low⟩
  cases suf with
  | nil => exact wp_pure.mpr (hQ pre [] rfl low (by simp))
  | cons m suf =>
    refine wp_bind.mpr (wp_readFreeRange.mpr fun _ => wp_pure.mpr ?_)
    by_cases beyond : base < (t.freeRanges.slot m).base
    · rw [if_pos beyond]
      refine hQ pre (m :: suf) rfl low ?_
      rintro q ⟨⟩
      exact beyond
    · rw [if_neg beyond]
      refine ⟨rfl, pre ++ [m], suf, by simp, by simp [h.next_eq], fun p hp => ?_⟩
      rcases List.mem_append.mp hp with hp | hp
      · exact low p hp
      · cases List.mem_singleton.mp hp
        omega

theorem wp_poolJoinBefore {prev : Option Nat} {base len : Nat} {Q : Option (Nat × Nat × Nat) → K → Prop}
    (apart : (∀ m ∈ prev, (s.freeRanges.slot m).span.top ≠ base) → Q none s)
    (touch : ∀ m, prev = some m → (s.freeRanges.slot m).span.top = base →
      Q (some (m, (s.freeRanges.slot m).base, (s.freeRanges.slot m).len + len))
        { s with freeRanges :=
          s.freeRanges.set m { s.freeRanges.slot m with len := (s.freeRanges.slot m).len + len } }) :
    wp G n (poolJoinBefore prev base len) Q (.leaving A) s := by
  cases prev with
  | none => exact wp_pure.mpr (apart (by simp))
  | some m =>
    refine wp_bind.mpr (wp_readFreeRange.mpr fun _ =>
      wp_bind.mpr (wp_addWord.mpr fun _ => wp_ite.mpr ⟨fun same => ?_, fun other => ?_⟩))
    · exact wp_bind.mpr (wp_addWord.mpr fun _ =>
        wp_bind.mpr (wp_modifyFreeRange.mpr fun _ => wp_pure.mpr (touch m rfl same)))
    · refine wp_pure.mpr (apart ?_)
      rintro k ⟨⟩
      exact other

theorem wp_poolJoinAfter {into : Option (Nat × Nat × Nat)} {next : Option Nat} {b l : Nat} {Q : Bool → K → Prop}
    (apart : (∀ q ∈ next, b + l ≠ (s.freeRanges.slot q).base) → Q false s)
    (grow : ∀ q, into = none → next = some q → b + l = (s.freeRanges.slot q).base →
      Q true { s with freeRanges := s.freeRanges.set q { s.freeRanges.slot q with
        base := b, len := (s.freeRanges.slot q).len + l } })
    (absorb : ∀ m x y q, into = some (m, x, y) → next = some q → b + l = (s.freeRanges.slot q).base →
      Q true { s with freeRanges := (s.freeRanges.set m { s.freeRanges.slot m with
        len := l + (s.freeRanges.slot q).len, next := (s.freeRanges.slot q).next }).set q .vacant }) :
    wp G n (poolJoinAfter into next b l) Q (.leaving A) s := by
  cases next with
  | none => exact wp_pure.mpr (apart (by simp))
  | some q =>
    refine wp_bind.mpr (wp_readFreeRange.mpr fun _ =>
      wp_bind.mpr (wp_addWord.mpr fun _ => wp_ite.mpr ⟨fun same => ?_, fun other => ?_⟩))
    · cases into with
      | none =>
        refine wp_bind.mpr (wp_addWord.mpr fun _ => wp_bind.mpr (wp_modifyFreeRange.mpr fun _ => ?_))
        exact wp_pure.mpr (grow q rfl rfl same)
      | some m =>
        obtain ⟨m, x, y⟩ := m
        refine wp_bind.mpr (wp_addWord.mpr fun _ => wp_bind.mpr (wp_modifyFreeRange.mpr fun _ => ?_))
        exact wp_bind.mpr (wp_freeFreeRange.mpr fun _ => wp_pure.mpr (absorb m x y q rfl rfl same))
    · refine wp_pure.mpr (apart ?_)
      rintro k ⟨⟩
      exact other

end

end

end

end Sawos
