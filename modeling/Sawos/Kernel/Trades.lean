import Sawos.Kernel.Pooled
import Sawos.Kernel.Refusals

/-! # What comes back to a pool

The frontier of a pool and its free ranges are determined by what is out of it, so a pool is as it was once all that
was split off has come back, in whatever order, unless a range was given up on the way. A range needs a node of the
free list even where it ends at the frontier, into which it is folded only afterwards: that is where one is given up
that need not be. -/

namespace Sawos
open Exec Spans

section
variable [Hal]

/-- A range that `region` may serve a split from: its own extent, and of a pool each free range. -/
def Offers (s : K) (region : Nat) (y : Span) : Prop :=
  y = (s.memories.slot region).span ∨
    (s.memories.slot region).root = some region ∧ ∃ l, FreeList s region l ∧ y ∈ s.freeSpans l

/-- Some range that `region` may serve a split from is as long as that. -/
def Serves (s : K) (region len : Nat) : Prop := ∃ y, Offers s region y ∧ len ≤ y.len

section
variable {s t u : K} {r i region len n : Nat} {l : List Nat}

/-! ### Whether a split can be served -/

theorem FreeList.length_le (h : FreeList s r l) : l.length ≤ s.freeRanges.cap := by
  have inside : l ⊆ List.range s.freeRanges.cap := fun m hm => List.mem_range.mpr (h.live m hm).1
  simpa using (List.subperm_of_subset h.chain.nodup inside).length_le

theorem Pooled.root_of_own (hs : Pooled s) (hi : region < s.memories.cap)
    (own : (s.memories.slot region).root = some region) :
    IsRoot s region := by
  refine ⟨hi, ?_, own⟩
  cases state : (s.memories.slot region).state with
  | live => rfl
  | free =>
    rw [(hs.vacant region hi state).2] at own
    cases own

theorem lands_readMemory {Q : MemorySlot → K → Prop} (hi : i < s.memories.cap) (h : Q (s.memories.slot i) s) :
    Lands n (memories.read i) Q s := lands_read hi h

theorem lands_readFreeRange {Q : FreeRange → K → Prop} (hi : i < s.freeRanges.cap) (h : Q (s.freeRanges.slot i) s) :
    Lands n (freeRanges.read i) Q s := lands_read hi h

/-- The check looks at the region's own extent and walks the free list of a pool. -/
theorem Pooled.lands_canServe (hs : Pooled s) (hi : region < s.memories.cap) (rounds : s.freeRanges.cap < n) :
    Lands n (poolCanServe region len) (fun b t => t = s ∧ (b = true ↔ Serves s region len)) s := by
  refine lands_bind (lands_readMemory hi ?_)
  by_cases own : len ≤ (s.memories.slot region).len
  · rw [if_pos own]
    exact lands_pure ⟨rfl, fun _ => ⟨_, Or.inl rfl, own⟩, fun _ => rfl⟩
  rw [if_neg own]
  by_cases root : (s.memories.slot region).root = some region
  · obtain ⟨l, pool⟩ := hs.pools region (hs.root_of_own hi root)
    rw [if_neg (not_not.mpr root)]
    have list := pool.toFreeList
    refine lands_loop (m := l.length) (I := fun m cur t => t = s ∧ ∃ pre suf, l = pre ++ suf ∧ m = suf.length ∧
      cur = suf.head? ∧ ∀ k ∈ pre, (s.freeRanges.slot k).len < len) ?_
        ⟨rfl, [], l, rfl, rfl, list.chain.head_eq, by simp⟩
      (Nat.lt_of_le_of_lt list.length_le rounds)
    rintro m cur t ⟨rfl, pre, suf, rfl, rfl, rfl, short⟩
    cases suf with
    | nil =>
      refine lands_pure ⟨rfl, by simp, ?_⟩
      rintro ⟨y, rfl | ⟨-, l', list', hy⟩, fits⟩
      · exact absurd fits own
      · rw [← list.unique list', List.append_nil] at hy
        obtain ⟨k, hk, rfl⟩ := List.mem_map.mp hy
        have := short k hk
        simp only [FreeRange.span] at fits
        omega
    | cons m suf =>
      refine lands_bind (lands_readFreeRange (list.live m (by simp)).1 ?_)
      refine lands_pure ?_
      show Round _ _ (if len ≤ (t.freeRanges.slot m).len then _ else _) t
      by_cases fits : len ≤ (t.freeRanges.slot m).len
      · rw [if_pos fits]
        exact ⟨rfl, fun _ => ⟨_, Or.inr ⟨root, _, list, List.mem_map_of_mem (by simp)⟩, fits⟩, fun _ => rfl⟩
      · rw [if_neg fits]
        refine ⟨suf.length, Nat.lt_succ_self _, rfl, pre ++ [m], suf, by simp, rfl, list.next_eq, fun k hk => ?_⟩
        rcases List.mem_append.mp hk with hk | hk
        · exact short k hk
        · cases List.mem_singleton.mp hk
          exact Nat.lt_of_not_le fits
  · rw [if_pos root]
    refine lands_pure ⟨rfl, by simp, ?_⟩
    rintro ⟨y, rfl | ⟨root', -⟩, fits⟩
    · exact absurd fits own
    · exact absurd root' root

/-- Cut from the front of the region's own extent. -/
theorem wp_cutFront {G : Ev → Prop} {b : Bool} {Q : Nat → K → Prop}
    (h : ∀ t, len ≤ (s.memories.slot region).len → Q (s.memories.slot region).base t) :
    wp G n (poolCutFront region len b) Q Unasked s := by
  refine wp_bind.mpr (wp_readMemory.mpr fun _ =>
    wp_bind.mpr (wp_mark.mpr fun _ => wp_ite.mpr ⟨fun _ => ?_, fun fits => ?_⟩))
  · exact wp_fatalKernel.mpr trivial
  · refine wp_bind.mpr
      (wp_any (fun _ _ =>
        wp_bind.mpr (wp_any (fun _ _ => wp_bind.mpr (wp_any (fun _ t => ?_) ?_ ?_ ?_)) ?_ ?_ ?_)) ?_ ?_ ?_)
    · exact wp_pure.mpr (h t (Nat.le_of_not_lt fits))
    all_goals exact fun _ => trivial

/-- What is cut lies in a range that the region could serve it from. -/
theorem Pooled.wp_cut_inside {G : Ev → Prop} (hs : Pooled s) :
    wp G n (poolCut region len) (fun base _ => ∃ y, Offers s region y ∧ y.base ≤ base ∧ base + len ≤ y.top)
      Unasked s := by
  have own : ∀ t : K, len ≤ (s.memories.slot region).len →
    (fun base (_ : K) => ∃ y, Offers s region y ∧ y.base ≤ base ∧ base + len ≤ y.top)
      (s.memories.slot region).base t := fun t fits =>
    ⟨_, Or.inl rfl, Nat.le_refl _, by simp only [MemorySlot.span, Span.top]; omega⟩
  refine wp_bind.mpr (wp_readMemory.mpr fun hi => wp_ite.mpr ⟨fun root => ?_, fun _ => wp_cutFront own⟩)
  obtain ⟨l, pool⟩ := hs.pools region (hs.root_of_own hi root)
  refine wp_bind.mpr (wp_poolCutRange pool (wp_cutFront own) fun base t l' found _ _ _ => wp_pure.mpr ?_)
  obtain ⟨y, hy, rfl, fits⟩ := found
  exact ⟨y, Or.inr ⟨root, l, pool.toFreeList, hy⟩, Nat.le_refl _, by simp only [Span.top]; omega⟩

/-! ### A split that can be served is -/

theorem lands_modifyMemory {f : MemorySlot → MemorySlot} {Q : Unit → K → Prop} (hi : i < s.memories.cap)
    (h : Q () { s with memories := s.memories.set i (f (s.memories.slot i)) }) : Lands n (memories.modify i f) Q s :=
  lands_modify hi h

theorem lands_modifyFreeRange {f : FreeRange → FreeRange} {Q : Unit → K → Prop} (hi : i < s.freeRanges.cap)
    (h : Q () { s with freeRanges := s.freeRanges.set i (f (s.freeRanges.slot i)) }) :
      Lands n (freeRanges.modify i f) Q s :=
  lands_modify hi h

theorem lands_lend {root : Nat} {Q : Unit → K → Prop} (hi : root < s.memories.cap)
    (fits : (s.memories.slot root).outBytes + len < wordModulus) (h : ∀ t, Q () t) : Lands n (lend root len) Q s :=
  lands_bind (lands_readMemory hi (lands_bind (lands_addWord fits (lands_modifyMemory hi (h _)))))

theorem lands_cutFront {b : Bool} (hi : region < s.memories.cap) (fits : len ≤ (s.memories.slot region).len)
    (word : (s.memories.slot region).base + len < wordModulus)
    (out : b = true → (s.memories.slot region).outBytes + len < wordModulus) :
    Lands n (poolCutFront region len b) (fun _ _ => True) s := by
  refine lands_bind (lands_readMemory hi (lands_bind (lands_emits ?_)))
  rw [if_neg (Nat.not_lt.mpr fits)]
  refine lands_bind
    (lands_addWord word (lands_bind (lands_modifyMemory hi (lands_bind (lands_whenever (fun own => ?_) fun _ => ?_)))))
  · exact lands_lend hi (by simpa using out own) fun _ => lands_pure trivial
  · exact lands_pure trivial

theorem lands_poolLink {root : Nat} {prev next : Option Nat} {Q : Unit → K → Prop} (hi : root < s.memories.cap)
    (hp : ∀ m ∈ prev, m < s.freeRanges.cap)
    (h : ∀ t : K, t.memories.cap = s.memories.cap → t.freeRanges.cap = s.freeRanges.cap →
      (t.memories.slot root).outBytes = (s.memories.slot root).outBytes → Q () t) :
        Lands n (poolLink root prev next) Q s := by
  unfold poolLink
  cases prev with
  | none => exact lands_modifyMemory hi (h _ rfl rfl (by simp))
  | some m => exact lands_modifyFreeRange (hp m rfl) (h _ rfl rfl rfl)

/-- The ranges of the boot table end where a machine word can say. -/
def BootRangesEnd : Prop := ∀ r whole, bootRange r = some whole → whole.top < wordModulus

theorem Pool.word {e : Option Nat} {hand : List Span} (ends : BootRangesEnd) (h : Pool e hand s r l) :
    (s.memories.slot r).span.top < wordModulus := by
  rw [h.top]
  exact ends r _ h.origin

/-- What a pool has lent and what it has to give are in its range. -/
theorem Pool.out_add {y : Span} (ends : BootRangesEnd) (h : Pool none [] s r l)
    (own : y = (s.memories.slot r).span ∨ y ∈ s.freeSpans l) : (s.memories.slot r).outBytes + y.len < wordModulus := by
  have bytes := h.fills.bytes
  have out := h.out
  have top := h.top
  have word := h.word ends
  have share : y.len ≤ (s.memories.slot r).span.len + total Span.len (s.freeSpans l) := by
    rcases own with rfl | hy
    · exact Nat.le_add_right _ _
    · exact Nat.le_trans (le_total hy) (Nat.le_add_left _ _)
  rw [total_shares] at bytes
  simp only [total_nil, Span.top] at bytes out top word
  omega

theorem lands_cutRange {e : Option Nat} {hand : List Span} (h : Pool e hand s r l) (ends : BootRangesEnd)
    (rounds : s.freeRanges.cap < n) {Q : Option Nat → K → Prop} (hi : r < s.memories.cap)
    (out : ∀ y ∈ s.freeSpans l, len ≤ y.len → (s.memories.slot r).outBytes + len < wordModulus)
    (some : ∀ base t, Q (some base) t)
    (none : (∀ y ∈ s.freeSpans l, y.len < len) → Q none s) : Lands n (poolCutRange r len) Q s := by
  have list := h.toFreeList
  refine lands_bind (lands_readMemory hi ?_)
  refine lands_loop (m := l.length) (I := fun m (at' : Option Nat × Option Nat) t => t = s ∧ ∃ pre suf,
    l = pre ++ suf ∧ m = suf.length ∧ at' = (pre.getLast?, suf.head?) ∧ ∀ k ∈ pre, (s.freeRanges.slot k).len < len) ?_
    ⟨rfl, [], l, rfl, rfl, by rw [list.chain.head_eq]; rfl, by simp⟩ (Nat.lt_of_le_of_lt list.length_le rounds)
  rintro m at' t ⟨rfl, pre, suf, rfl, rfl, rfl, short⟩
  cases suf with
  | nil =>
    refine lands_pure (none fun y hy => ?_)
    rw [List.append_nil] at hy
    obtain ⟨k, hk, rfl⟩ := List.mem_map.mp hy
    exact short k hk
  | cons m suf =>
    have hm := (list.live m (by simp)).1
    have mem : (t.freeRanges.slot m).span ∈ t.freeSpans (pre ++ m :: suf) := List.mem_map_of_mem (by simp)
    have top : (t.freeRanges.slot m).span.top < wordModulus := by
      have below := h.ladder.below _ mem
      have word := h.word ends
      simp only [MemorySlot.span, Span.top] at below word ⊢
      omega
    refine lands_bind (lands_readFreeRange hm ?_)
    by_cases fits : len ≤ (t.freeRanges.slot m).len
    · rw [if_pos fits]
      have lent := out _ mem fits
      refine lands_bind (lands_addWord (by simp only [FreeRange.span, Span.top] at top; omega) ?_)
      refine lands_bind (lands_modifyFreeRange hm (lands_bind (lands_whenever (fun _ => ?_) fun _ => ?_)))
      · refine lands_bind (lands_poolLink hi (fun p last => ?_) fun u cap cap' same => ?_)
        · exact (list.live p (List.mem_append_left _ (List.mem_of_getLast? last))).1
        unfold freeFreeRange
        refine lands_modifyFreeRange (cap' ▸ hm) (lands_bind (lands_lend (cap ▸ hi) ?_ fun _ => lands_pure (some _ _)))
        show (u.memories.slot r).outBytes + len < wordModulus
        rw [same]
        exact lent
      · exact lands_bind (lands_lend hi lent fun _ => lands_pure (some _ _))
    · rw [if_neg fits]
      refine lands_pure ⟨suf.length, Nat.lt_succ_self _, rfl, pre ++ [m], suf, by simp, rfl,
        by simp [list.next_eq], fun k hk => ?_⟩
      rcases List.mem_append.mp hk with hk | hk
      · exact short k hk
      · cases List.mem_singleton.mp hk
        exact Nat.lt_of_not_le fits

/-- A region whose base is a machine word, as its field is, cuts what it can serve. -/
theorem Pooled.lands_cut (ends : BootRangesEnd) (hs : Pooled s) (hi : region < s.memories.cap)
    (word : (s.memories.slot region).base < wordModulus) (rounds : s.freeRanges.cap < n)
    (serves : Serves s region len) :
    Lands n (poolCut region len) (fun _ _ => True) s := by
  obtain ⟨y, offer, fits⟩ := serves
  refine lands_bind (lands_readMemory hi ?_)
  by_cases root : (s.memories.slot region).root = some region
  · obtain ⟨l, pool⟩ := hs.pools region (hs.root_of_own hi root)
    have end' := pool.word ends
    rw [if_pos root]
    refine lands_bind
      (lands_cutRange pool ends rounds hi (fun z hz long => ?_) (fun _ _ => lands_pure trivial) fun short => ?_)
    · have := pool.out_add ends (Or.inr hz)
      omega
    · rcases offer with rfl | ⟨-, l', list', hy⟩
      · have out := pool.out_add ends (Or.inl rfl)
        simp only [MemorySlot.span, Span.top] at fits out end'
        exact lands_cutFront hi fits (by omega) fun _ => by omega
      · rw [list'.unique pool.toFreeList] at hy
        exact absurd fits (Nat.not_le.mpr (short y hy))
  · rw [if_neg root]
    have own : len ≤ (s.memories.slot region).len := by
      rcases offer with rfl | ⟨root', -⟩
      · exact fits
      · exact absurd root' root
    refine lands_cutFront hi own ?_ (by simp)
    rcases Nat.eq_zero_or_pos (s.memories.slot region).len with empty | bytes
    · omega
    · have live : (s.memories.slot region).state = .live := by
        cases state : (s.memories.slot region).state with
        | live => rfl
        | free =>
          have := (hs.vacant region hi state).1
          omega
      obtain ⟨r, from', -, root'⟩ := hs.rooted region hi (by simp) live
      obtain ⟨l, pool⟩ := hs.pools r (root' (by omega))
      have apart : region ≠ r := fun same => root (same ▸ from')
      have piece : (s.memories.slot region).span ∈ s.shares none [] r l := by
        simp only [K.shares, K.pieces, List.mem_cons, List.mem_append, List.mem_map, List.mem_filter, List.mem_range]
        refine Or.inr (Or.inl (Or.inl (Or.inl (Or.inr ⟨region, ⟨hi, ?_⟩, rfl⟩))))
        simp [MemorySlot.CutFrom, apart, live, from']
      have inside := pool.fills.top_le piece bytes
      have end' := pool.word ends
      rw [pool.top] at end'
      simp only [MemorySlot.span, Span.top] at inside end'
      omega

/-! ### Splitting off and giving back -/

/-- Slot `i` was free, and is a region now that was cut off pool `r` in a split of `region`. -/
structure SplitOff (s t : K) (region i r : Nat) : Prop where
  cap : t.memories.cap = s.memories.cap
  live : (s.memories.slot region).state = .live
  from' : (s.memories.slot region).root = some r
  own : (t.memories.slot region).state = .live ∧ (t.memories.slot region).root = some r
  root : IsRoot s r
  still : IsRoot t r
  history : (t.memories.slot r).history = (s.memories.slot r).history
  free : (s.memories.slot i).state = .free
  piece : (t.memories.slot i).CutFrom i r
  rest : ∀ j, j ≠ region → j ≠ r → j ≠ i → t.memories.slot j = s.memories.slot j

/-- The slot that a piece cut off goes into is filled. -/
theorem CutOff.split {before : K} {v : MemorySlot} (h : CutOff before t region r) (same : before.memories = s.memories)
    (free : (s.memories.slot i).state = .free) (regions : u.memories = t.memories.set i v) (live : v.state = .live)
    (from' : v.root = some r) : SplitOff s u region i r := by
  obtain ⟨cap, other, live', root', own, root, still, history⟩ := h
  simp only [IsRoot, same] at cap live' root' root history other
  have busy : ∀ {j}, (s.memories.slot j).state = .live → j ≠ i := by
    rintro j live rfl
    rw [live] at free
    cases free
  have apart : r ≠ i := busy root.2.1
  have apart' : region ≠ i := busy live'
  refine ⟨?_, live', root', ?_, root, ?_, ?_, free, ?_, fun j hj hj' hji => ?_⟩
  · rw [regions]
    exact cap
  · simpa [regions, apart'] using own
  · simpa [IsRoot, regions, apart] using still
  · simpa [regions, apart] using history
  · simp [MemorySlot.CutFrom, regions, live, from', apart.symm]
  · simpa [regions, hji] using other j hj hj'

/-- From `s` to `t` pool `r` gave up some ranges, and donated none. -/
structure Ledger (s t : K) (r : Nat) : Prop where
  lost : ∃ more, (t.memories.slot r).history.lost = more ++ (s.memories.slot r).history.lost ∧ ∀ x ∈ more, 0 < x.len
  donated : (t.memories.slot r).history.donated = (s.memories.slot r).history.donated

theorem Ledger.of_history (same : (t.memories.slot r).history = (s.memories.slot r).history) : Ledger s t r :=
  ⟨⟨[], by rw [same]; rfl, by simp⟩, by rw [same]⟩

theorem Ledger.trans (h : Ledger s t r) (h' : Ledger t u r) : Ledger s u r := by
  obtain ⟨more, lost, some⟩ := h.lost
  obtain ⟨more', lost', some'⟩ := h'.lost
  refine ⟨⟨more' ++ more, by rw [lost', lost, List.append_assoc], fun x hx => ?_⟩, h'.donated.trans h.donated⟩
  rcases List.mem_append.mp hx with hx | hx
  · exact some' x hx
  · exact some x hx

theorem Kept.ledger {x : Span} (h : Kept s t r l x) : Ledger s t r := by
  refine ⟨?_, h.donated⟩
  by_cases gone : s.GivesUp l x
  · exact ⟨[x], h.lost gone, by simpa using gone.1⟩
  · exact ⟨[], h.kept gone, by simp⟩

/-- Region `k` of pool `r` was given back, or was in use still. -/
structure Returned (s t : K) (k r : Nat) : Prop extends Ledger s t r where
  cap : t.memories.cap = s.memories.cap
  other : ∀ j, j ≠ r → j ≠ k → t.memories.slot j = s.memories.slot j
  own : k ≠ r → t.memories.slot k = s.memories.slot k ∨ t.memories.slot k = .vacant

theorem Returned.refl {k : Nat} : Returned s s k r := ⟨.of_history rfl, rfl, fun _ _ _ => rfl, fun _ => Or.inl rfl⟩

/-- The pools are about the regions and the nodes. -/
theorem Pooled.processes {v : Slab ProcessSlot} (hs : Pooled s) : Pooled { s with processes := v } := by
  refine ⟨hs.vacant, hs.rooted, fun r root => ?_, fun r r' l l' ne root root' list list' => ?_⟩
  · obtain ⟨l, pool⟩ := hs.pools r root
    exact ⟨l, ⟨⟨⟨pool.chain, pool.live⟩, pool.fills, pool.top, pool.dropped, pool.origin⟩, pool.ladder, pool.out⟩⟩
  · exact hs.apart r r' l l' ne root root' ⟨list.chain, list.live⟩ ⟨list'.chain, list'.live⟩

section
variable {G : Ev → Prop}

theorem wp_quotaCredit {p : Nat} {k : QuotaKind} {Q : Unit → K → Prop} (h : ∀ v, Q () { s with processes := v }) :
    wp G n (quotaCredit p k) Q Unasked s :=
  wp_modifyProcess.mpr fun _ => h _

/-- A split answers that it cut a piece off, or has changed no region. -/
theorem Pooled.wp_split (hs : Pooled s) {p : Nat} :
    wp G n (memorySplit p region len) (fun _ t => t.memories = s.memories ∨ ∃ i r, SplitOff s t region i r)
      Unasked s := by
  refine wp_bind.mpr (looks_poolCanServe.wp fun _ =>
    wp_bind.mpr (wp_whenever.mpr ⟨fun _ => wp_fault_never, fun nonzero => ?_⟩))
  refine wp_bind.mpr (wp_whenever.mpr ⟨fun _ => wp_fault_never, fun _ => ?_⟩)
  have bytes : 0 < len := by
    simp only [Bool.or_eq_false_iff, decide_eq_false_iff_not] at nonzero
    omega
  refine wp_bind.mpr (looks_quotaRoom.wp fun room => ?_)
  cases room with
  | false => exact wp_pure.mpr (Or.inl rfl)
  | true =>
    refine wp_bind.mpr (wp_reads.mpr ?_)
    cases found : (memories.get s).find (·.state = .free) with
    | none => exact wp_pure.mpr (Or.inl rfl)
    | some i =>
      obtain ⟨inCap, free⟩ := Slab.find_some found
      have free : (s.memories.slot i).state = .free := of_decide_eq_true free
      refine wp_bind.mpr (wp_mintHandle (fun _ => ?_) fun _ h hh _ _ => ?_)
      · unfold minted
        exact wp_bind.mpr (looks_mintRefusal.wp fun _ => wp_pure.mpr (Or.inl rfl))
      · rw [minted, if_neg (handleWord_ne_zero hh)]
        refine wp_bind.mpr
          (wp_bind.mpr (Pooled.wp_cut (fun _ _ => trivial) hs.processes bytes fun base r v pools cut => ?_))
        refine wp_bind.mpr (wp_readMemory.mpr fun _ => wp_bind.mpr (wp_modifyMemory.mpr fun _ => ?_))
        exact wp_quotaCharge (wp_pure.mpr (Or.inr ⟨i, r, cut.split rfl free rfl rfl cut.own.2⟩))

/-- The release of a region of pool `r`, or of the root itself, leaves the rest of the pool alone. -/
theorem Pooled.wp_release {k : Nat} (hs : Pooled s) (root : IsRoot s r)
    (own : k = r ∨ (s.memories.slot k).CutFrom k r) :
    wp G n (memoryReleaseIfIdle k) (fun _ t => IsRoot t r → Returned s t k r) Unasked s := by
  refine wp_recur (P := fun k t => Pooled t ∧ IsRoot t r ∧ (k = r ∨ (t.memories.slot k).CutFrom k r))
    (Q := fun k _ t u => IsRoot u r → Returned t u k r) (A := fun _ _ => Unasked)
    (fun again hagain k t ⟨ht, root, own⟩ => ?_)
    ⟨hs, root, own⟩
  refine wp_bind.mpr (wp_readMemory.mpr fun hk => wp_ite.mpr ⟨fun _ => wp_pure.mpr fun _ => .refl, fun _ => ?_⟩)
  rcases own with rfl | ⟨apart, live, from'⟩
  · simp only [root.2.2]
    refine wp_ite.mpr ⟨fun _ => wp_pure.mpr fun _ => .refl, fun _ => ?_⟩
    -- The pool is given up, and is no root any more.
    refine wp_bind.mpr (wp_any (fun _ v => wp_bind.mpr (wp_modifyMemory.mpr fun _ => ?_)) ?_ ?_ ?_)
    · refine wp_bind.mpr (wp_quotaCredit fun _ => wp_whenever.mpr ⟨by simp, fun _ still => ?_⟩)
      have live := still.2.1
      simp [MemorySlot.vacant] at live
    all_goals exact fun _ => trivial
  · simp only [from']
    refine wp_ite.mpr ⟨fun _ => wp_pure.mpr fun _ => .refl, fun _ => ?_⟩
    rw [memoryGiveBack, if_neg apart.symm]
    refine wp_bind.mpr
      (ht.wp_return (k := t.memories.cap) (fun root => absurd root.1 (Nat.lt_irrefl _)) hk live from' apart.symm
      fun v l₀ l' edit kept pools _ inCap out => wp_bind.mpr (wp_modifyMemory.mpr fun _ => ?_))
    have emptied := pools.emptied inCap out
    obtain ⟨l, pool⟩ := ht.pools r root
    have ledger := (kept l pool.toFreeList).ledger
    refine wp_bind.mpr (wp_quotaCredit fun w => wp_whenever.mpr ⟨fun _ => ?_, by simp [apart.symm]⟩)
    have still : IsRoot v r := edit.isRoot.mpr root
    refine (hagain r _ ⟨emptied.processes, by simpa [IsRoot, apart.symm] using still, Or.inl rfl⟩).imp
      fun _ u last rooted => ?_
    obtain ⟨ledger', cap, other, -⟩ := last rooted
    refine ⟨ledger.trans ⟨by simpa [apart.symm] using ledger'.lost, by simpa [apart.symm] using ledger'.donated⟩,
      cap.trans edit.memories, fun j hj hjk => ?_, fun _ => Or.inr ?_⟩
    · have := other j hj hj
      simp only [Slab.set_slot, hjk, if_false] at this
      rw [this, edit.other j hj]
    · simpa using other k apart apart

end

/-! ### Trading with a pool -/

/-- `t` is where a run of `m` from `s` returned. -/
def Took {α : Type} (m : M α) (s t : K) : Prop := ∃ n a tr, m n s = .ok a t tr

/-- From `s` to `t` nothing was done to pool `r`. -/
structure Aside (s t : K) (r : Nat) : Prop where
  pooled : Pooled t
  root : IsRoot t r
  cap : t.memories.cap = s.memories.cap
  history : (t.memories.slot r).history = (s.memories.slot r).history
  pieces : ∀ j, ((t.memories.slot j).CutFrom j r ↔ (s.memories.slot j).CutFrom j r) ∧
    ((s.memories.slot j).CutFrom j r → (t.memories.slot j).span = (s.memories.slot j).span)

/-- From `s` on, the pool and the regions split off it since are split, those regions are given back, in any order, and
    whatever else happens has nothing to do with the pool: `out` are those that are not given back. -/
inductive Trades (r : Nat) (s : K) : List Nat → K → Prop
  | start : Trades r s [] s
  | split {out : List Nat} {t u : K} {p region len i : Nat} : Trades r s out t → region ∈ r :: out →
      Took (memorySplit p region len) t u → (t.memories.slot i).state = .free → (u.memories.slot i).state = .live →
      Trades r s (i :: out) u
  | release {out : List Nat} {t u : K} {i : Nat} : Trades r s out t → i ∈ out → Took (memoryReleaseIfIdle i) t u →
      (u.memories.slot i).state = .free → IsRoot u r → Trades r s (out.filter (· ≠ i)) u
  | aside {out : List Nat} {t u : K} : Trades r s out t → Aside t u r → Trades r s out u

instance : Decidable (IsRoot s r) := inferInstanceAs (Decidable (_ ∧ _))

theorem Aside.of_agree (same : Agree poolStateParts s t) (pooled : Pooled s) (root : IsRoot s r) : Aside s t r := by
  obtain ⟨cap, -, -, slots⟩ := agree_pools same
  refine ⟨Pools.agree same pooled, ?_, cap, by rw [slots r], fun j => ?_⟩
  · unfold IsRoot
    rw [cap, slots r]
    exact root
  · rw [slots j]
    exact ⟨Iff.rfl, fun _ => rfl⟩

/-- What belongs to the pool in `t` is what belonged to it in `s`, and the regions `out`. -/
structure Balance (r : Nat) (s : K) (out : List Nat) (t : K) : Prop extends Ledger s t r where
  pooled : Pooled t
  root : IsRoot t r
  cap : t.memories.cap = s.memories.cap
  new : ∀ i ∈ out, (t.memories.slot i).CutFrom i r ∧ ¬(s.memories.slot i).CutFrom i r
  old : ∀ i ∉ out, ((t.memories.slot i).CutFrom i r ↔ (s.memories.slot i).CutFrom i r) ∧
    ((s.memories.slot i).CutFrom i r → (t.memories.slot i).span = (s.memories.slot i).span)

section
variable {out : List Nat}

theorem cutFrom_self : ¬(s.memories.slot r).CutFrom r r := fun h => h.1 rfl

theorem Balance.split (h : Balance r s out t) {p : Nat} (own : region ∈ r :: out)
    (took : Took (memorySplit p region len) t u)
    (free : (t.memories.slot i).state = .free) (live : (u.memories.slot i).state = .live) :
      Balance r s (i :: out) u := by
  obtain ⟨n, a, tr, run⟩ := took
  have pooled : Pooled u := (Pooled.split Pooled.upkeep mortal_any t h.pooled).ok run
  rcases (Pooled.wp_split h.pooled).ok run with same | ⟨i', r', off⟩
  · rw [same, free] at live
    cases live
  have new : i = i' := by
    by_contra other
    have old : (t.memories.slot i).state = .live := by
      by_cases hr : i = region
      · exact hr ▸ off.live
      · by_cases hr' : i = r'
        · exact hr' ▸ off.root.2.1
        · rw [← off.rest i hr hr' other]
          exact live
    rw [old] at free
    cases free
  have pool : r' = r := by
    have from' := off.from'
    rcases List.mem_cons.mp own with rfl | own
    · rw [h.root.2.2, Option.some.injEq] at from'
      exact from'.symm
    · rw [(h.new region own).1.2.2, Option.some.injEq] at from'
      exact from'.symm
  subst new pool
  have fresh : i ∉ out := fun hi => by
    rw [(h.new i hi).1.2.1] at free
    cases free
  refine ⟨h.toLedger.trans (.of_history off.history), pooled, off.still, off.cap.trans h.cap,
    fun j hj => ?_, fun j hj => ?_⟩
  · rcases List.mem_cons.mp hj with rfl | hj
    · refine ⟨off.piece, fun was => ?_⟩
      have still := ((h.old j fresh).1.mpr was).2.1
      rw [free] at still
      cases still
    · obtain ⟨cut, was⟩ := h.new j hj
      refine ⟨?_, was⟩
      by_cases hr : j = region
      · subst hr
        exact ⟨cut.1, off.own⟩
      · have other : j ≠ i := fun same => fresh (same ▸ hj)
        rw [off.rest j hr cut.1 other]
        exact cut
  · obtain ⟨other, hj⟩ := not_or.mp (mt List.mem_cons.mpr hj)
    by_cases hr : j = r'
    · subst hr
      exact ⟨⟨fun cut => absurd cut cutFrom_self, fun cut => absurd cut cutFrom_self⟩, fun cut =>
        absurd cut cutFrom_self⟩
    · have hr' : j ≠ region := by
        rintro rfl
        exact (List.mem_cons.mp own).elim hr hj
      rw [off.rest j hr' hr other]
      exact h.old j hj

theorem Balance.release (h : Balance r s out t) (own : i ∈ out) (took : Took (memoryReleaseIfIdle i) t u)
    (free : (u.memories.slot i).state = .free) (root : IsRoot u r) : Balance r s (out.filter (· ≠ i)) u := by
  obtain ⟨n, a, tr, run⟩ := took
  obtain ⟨cut, was⟩ := h.new i own
  have pooled : Pooled u :=
    (Pooled.release (A := ⟨fun _ => True, fun _ => True⟩) (fun _ _ => trivial) t h.pooled).ok run
  have returned : Returned t u i r := (h.pooled.wp_release h.root (Or.inr cut)).ok run root
  have gone : u.memories.slot i = .vacant := (returned.own cut.1).resolve_left fun same => by
    rw [same, cut.2.1] at free
    cases free
  refine ⟨h.toLedger.trans returned.toLedger, pooled, root, returned.cap.trans h.cap, fun j hj => ?_, fun j hj => ?_⟩
  · simp only [List.mem_filter, decide_eq_true_eq] at hj
    obtain ⟨cut', was'⟩ := h.new j hj.1
    rw [returned.other j cut'.1 hj.2]
    exact ⟨cut', was'⟩
  · simp only [List.mem_filter, decide_eq_true_eq, not_and, not_not] at hj
    by_cases same : j = i
    · subst same
      refine ⟨⟨fun still => ?_, fun old => absurd old was⟩, fun old => absurd old was⟩
      have live := still.2.1
      simp [gone, MemorySlot.vacant] at live
    · by_cases hr : j = r
      · subst hr
        exact ⟨⟨fun cut => absurd cut cutFrom_self, fun cut => absurd cut cutFrom_self⟩, fun cut =>
          absurd cut cutFrom_self⟩
      · rw [returned.other j hr same]
        exact h.old j fun hj' => same (hj hj')

theorem Balance.aside (h : Balance r s out t) (aside : Aside t u r) : Balance r s out u := by
  refine ⟨h.toLedger.trans (.of_history aside.history), aside.pooled, aside.root, aside.cap.trans h.cap,
    fun i hi => ?_, fun i hi => ?_⟩
  · exact ⟨(aside.pieces i).1.mpr (h.new i hi).1, (h.new i hi).2⟩
  · obtain ⟨same, span⟩ := h.old i hi
    exact ⟨(aside.pieces i).1.trans same, fun cut => ((aside.pieces i).2 (same.mpr cut)).trans (span cut)⟩

theorem Trades.balance (hs : Pooled s) (root : IsRoot s r) (h : Trades r s out t) : Balance r s out t := by
  induction h with
  | start => exact ⟨.of_history rfl, hs, root, rfl, by simp, fun _ _ => ⟨Iff.rfl, fun _ => rfl⟩⟩
  | split _ own took free live ih => exact ih.split own took free live
  | release _ own took free root' ih => exact ih.release own took free root'
  | aside _ aside ih => exact ih.aside aside

/-- The cursor, the frontier and the free ranges of pool `r` are in `t` what they were in `s`. -/
structure Restored (s t : K) (r : Nat) : Prop where
  base : (t.memories.slot r).base = (s.memories.slot r).base
  len : (t.memories.slot r).len = (s.memories.slot r).len
  out : (t.memories.slot r).outBytes = (s.memories.slot r).outBytes
  free : ∃ l l', FreeList s r l ∧ FreeList t r l' ∧ t.freeSpans l' = s.freeSpans l

/-- With the same out, nothing lost and nothing donated, a pool has the same to give. -/
theorem Balance.restored (h : Balance r s [] t) (hs : Pooled s) (root : IsRoot s r)
    (none : (t.memories.slot r).dropped = (s.memories.slot r).dropped) : Restored s t r := by
  obtain ⟨l, pool⟩ := hs.pools r root
  obtain ⟨l', pool'⟩ := h.pooled.pools r h.root
  have pieces : t.pieces Option.none r = s.pieces Option.none r := pieces_congr h.cap fun j _ => h.old j (by simp)
  have lost : (t.memories.slot r).history.lost = (s.memories.slot r).history.lost := by
    obtain ⟨more, lost, some⟩ := h.lost
    have bytes := pool'.dropped
    rw [none, pool.dropped, lost, total_append] at bytes
    cases more with
    | nil => exact lost
    | cons x more =>
      have := some x List.mem_cons_self
      rw [total_cons] at bytes
      omega
  have whole : (t.memories.slot r).history.whole = (s.memories.slot r).history.whole := by
    have same := pool'.origin
    rw [pool.origin, Option.some.injEq] at same
    exact same.symm
  have same : ∀ a, (∃ z ∈ (s.memories.slot r).span :: s.freeSpans l, z.Has a) ↔
      ∃ z ∈ (t.memories.slot r).span :: t.freeSpans l', z.Has a := by
    intro a
    have before := pool.fills _ (additive_hits a)
    have after := pool'.fills _ (additive_hits a)
    rw [total_shares] at before after
    rw [pieces, lost, h.donated, whole] at after
    rw [← hits_pos_iff, ← hits_pos_iff, total_cons, total_cons]
    omega
  have top : (s.memories.slot r).span.top = (t.memories.slot r).span.top := by rw [pool.top, pool'.top, whole]
  obtain ⟨own, free⟩ := Ladder.unique_below (x := (s.memories.slot r).span) (y := (t.memories.slot r).span)
    pool.ladder pool'.ladder
    top same
  simp only [MemorySlot.span, Span.mk.injEq] at own
  refine ⟨own.1.symm, own.2.symm, ?_, l, l', pool.toFreeList, pool'.toFreeList, free.symm⟩
  rw [pool.out, pool'.out, pieces, h.donated]

end

/-! ### What trading comes to -/

/-- A range that came back was given up only if it touched neither a free range nor the frontier, and no node was
    free. -/
def FairLoss (s t : K) (r : Nat) (l : List Nat) (x : Span) : Prop :=
  (t.memories.slot r).dropped ≠ (s.memories.slot r).dropped →
    ¬Touches x (s.freeSpans l) ∧ x.top ≠ (s.memories.slot r).base ∧ s.NoNode

/-- The check says whether the cut succeeds, and what is cut lies in what the region had to give, which is without it
    then. -/
structure Agrees (s : K) (region len n : Nat) : Prop where
  served : ∃ b tr, poolCanServe region len n s = .ok b s tr ∧
    (b = true ↔ ∃ base t tr', poolCut region len n s = .ok base t tr')
  inside : ∀ base t tr, poolCut region len n s = .ok base t tr → ∃ y, Offers s region y ∧
    y.base ≤ base ∧ base + len ≤ y.top
  without : ∀ base t tr, 0 < len → poolCut region len n s = .ok base t tr → ∃ r, Pools none (inHand r ⟨base, len⟩) t

theorem Pooled.agrees (ends : BootRangesEnd) (hs : Pooled s) (hi : region < s.memories.cap)
    (word : (s.memories.slot region).base < wordModulus) (rounds : s.freeRanges.cap < n) : Agrees s region len n := by
  have inside : ∀ base t tr, poolCut region len n s = .ok base t tr →
      ∃ y, Offers s region y ∧ y.base ≤ base ∧ base + len ≤ y.top := fun base t tr run => hs.wp_cut_inside.ok run
  refine ⟨?_, inside, fun base t tr bytes run => ?_⟩
  · obtain ⟨b, t, tr, run, same, served⟩ := hs.lands_canServe hi rounds
    rw [same] at run
    refine ⟨b, tr, run, served.trans ⟨fun serves => ?_, ?_⟩⟩
    · obtain ⟨base, t, tr', cut, -⟩ := hs.lands_cut ends hi word rounds serves
      exact ⟨base, t, tr', cut⟩
    · rintro ⟨base, u, tr', cut⟩
      obtain ⟨y, offer, low, high⟩ := inside base u tr' cut
      refine ⟨y, offer, ?_⟩
      simp only [Span.top] at high
      omega
  · have cut : wp (fun _ => True) n (poolCut region len)
      (fun base t => ∃ r, Pools none (inHand r ⟨base, len⟩) t) Unasked s :=
      hs.wp_cut (fun _ _ => trivial) bytes fun base r t pools _ => ⟨r, pools⟩
    exact cut.ok run

/-- A range that comes back is given up wrongly only if it ends at the frontier. -/
theorem Pooled.fairLoss_iff {tr : List Ev} (hs : Pooled s) (root : IsRoot s r) (hi : i < s.memories.cap)
    (cut : (s.memories.slot i).CutFrom i r) (list : FreeList s r l)
    (run : poolReturn r (s.memories.slot i).base (s.memories.slot i).len n s = .ok () t tr) :
    FairLoss s t r l (s.memories.slot i).span ↔
      ¬(s.GivesUp l (s.memories.slot i).span ∧ (s.memories.slot i).span.top = (s.memories.slot r).base) := by
  have returns := hs.wp_return (G := fun _ => True) (A := ⟨fun _ => True, fun _ => True⟩) (n := n) (k := s.memories.cap)
    (fun root => absurd root.1 (Nat.lt_irrefl _)) hi cut.2.1 cut.2.2 cut.1.symm
    (Q := fun _ t => Kept s t r l (s.memories.slot i).span ∧ (t.memories.slot r).dropped = total Span.len
      (t.memories.slot r).history.lost)
    fun t _ _ edit kept pools _ _ _ => by
      obtain ⟨l', pool'⟩ := pools.pools r (edit.isRoot.mpr root)
      exact ⟨kept l list, pool'.dropped⟩
  obtain ⟨kept, after⟩ := returns.ok run
  obtain ⟨l', pool⟩ := hs.pools r root
  have before := pool.dropped
  by_cases gone : s.GivesUp l (s.memories.slot i).span
  · have more : (t.memories.slot r).dropped ≠ (s.memories.slot r).dropped := by
      have some := gone.1
      rw [after, before, kept.lost gone, total_cons]
      omega
    constructor
    · rintro fair ⟨-, reaches⟩
      exact (fair more).2.1 reaches
    · intro below _
      exact ⟨gone.2.2, fun reaches => below ⟨gone, reaches⟩, gone.2.1⟩
  · have same : (t.memories.slot r).dropped = (s.memories.slot r).dropped := by rw [after, before, kept.kept gone]
    exact ⟨fun _ both => gone both.1, fun _ other => absurd same other⟩

/-- Wherever trading with a pool leads from a reachable state: a pool that got everything back and gave nothing up has
    the same to give as before; of what comes back a range is given up wrongly exactly when it ends at the frontier,
    touches no free range and finds no node; and a region cuts off what the check says it can serve. -/
theorem pool_trades {out : List Nat} (ends : BootRangesEnd) (h : Reachable s) (root : IsRoot s r)
    (trades : Trades r s out t) :
    (out = [] → (t.memories.slot r).dropped = (s.memories.slot r).dropped → Restored s t r) ∧
    (∀ i l n u tr, i < t.memories.cap → (t.memories.slot i).CutFrom i r → FreeList t r l →
      poolReturn r (t.memories.slot i).base (t.memories.slot i).len n t = .ok () u tr →
      (FairLoss t u r l (t.memories.slot i).span ↔
        ¬(t.GivesUp l (t.memories.slot i).span ∧ (t.memories.slot i).span.top = (t.memories.slot r).base))) ∧
    ∀ region len n, region < t.memories.cap → (t.memories.slot region).base < wordModulus → t.freeRanges.cap < n →
      Agrees t region len n := by
  have hs := Pooled.reachable h
  have balance := trades.balance hs root
  refine ⟨?_, fun i l n u tr hi cut list run => ?_, fun region len n hi word rounds => ?_⟩
  · rintro rfl none
    exact balance.restored hs root none
  · exact balance.pooled.fairLoss_iff balance.root hi cut list run
  · exact balance.pooled.agrees ends hi word rounds

/-! ### Trades that are computed -/

/-- What is done in a trade: a region is split, or the last reference to one goes and it is given back. -/
inductive Deal where
  | split (region len : Nat)
  | release (i : Nat)

/-- The slot that is live in `u` and was not in `t`. -/
def newRegion (t u : K) : Option Nat :=
  (List.range t.memories.cap).find? fun i => (t.memories.slot i).state = .free ∧ (u.memories.slot i).state = .live

/-- What a deal leaves, and what is out of the pool then. -/
def Deal.make (r : Nat) : Deal → List Nat × K → Option (List Nat × K)
  | .split region len, (out, t) =>
    match memorySplit rootProcess region len 64 t with
    | .ok _ u _ => if region ∈ r :: out then (newRegion t u).map fun i => (i :: out, u) else none
    | _ => none
  | .release i, (out, t) =>
    match memories.modify i ({ · with refs := 0 }) 64 t with
    | .ok _ v _ =>
      match memoryReleaseIfIdle i 64 v with
      | .ok _ u _ => if i ∈ out ∧ (u.memories.slot i).state = .free ∧ IsRoot u r then
        some (out.filter (· ≠ i), u) else none
      | _ => none
    | _ => none

/-- A deal that is made is one more step of a trade. -/
theorem Trades.make {out out' : List Nat} {d : Deal} (hs : Pooled s) (root : IsRoot s r) (h : Trades r s out t)
    (made : d.make r (out, t) = some (out', u)) : Trades r s out' u := by
  cases d with
  | split region len =>
    simp only [Deal.make] at made
    split at made
    · split at made
      · obtain ⟨i, new, same⟩ := Option.map_eq_some_iff.mp made
        obtain ⟨rfl, rfl⟩ := Prod.mk.inj same
        have slot := List.find?_some new
        simp only [decide_eq_true_eq] at slot
        exact h.split ‹_› ⟨_, _, _, ‹_›⟩ slot.1 slot.2
      · cases made
    · cases made
  | release i =>
    simp only [Deal.make] at made
    split at made
    · split at made
      · split at made
        · rename_i v _ unheld _ _ _ _ released own
          obtain ⟨rfl, rfl⟩ := Prod.mk.inj (Option.some.inj made)
          have balance := h.balance hs root
          have spares : Spares poolStateParts (memories.modify i ({ · with refs := 0 })) :=
            spares_memories (by simp +decide)
          have same : Agree poolStateParts t v :=
            (spares.wp (A := ⟨fun _ => True, fun _ => True⟩) (fun _ _ => trivial) 64 t).ok unheld
          exact (h.aside (.of_agree same balance.pooled balance.root)).release own.1 ⟨_, _, _, released⟩ own.2.1 own.2.2
        · cases made
      · cases made
    · cases made

/-- What a list of deals leaves. -/
def Deal.makeAll (r : Nat) (ds : List Deal) (x : List Nat × K) : Option (List Nat × K) :=
    ds.foldlM (fun x d => d.make r x) x

theorem Trades.makeAll {ds : List Deal} (hs : Pooled s) (root : IsRoot s r) {out out' : List Nat} (h : Trades r s out t)
    (made : Deal.makeAll r ds (out, t) = some (out', u)) : Trades r s out' u := by
  induction ds generalizing out t with
  | nil =>
    cases made
    exact h
  | cons d ds ih =>
    obtain ⟨⟨mid, v⟩, first, rest⟩ := Option.bind_eq_some_iff.mp made
    exact ih (h.make hs root first) rest

end
end

section
attribute [local instance] pairBuild sampleTarget Riscv32.board

theorem bootRangesEnd_pair : BootRangesEnd := by
  rintro r whole here
  match r with
  | 0 | 1 =>
    cases here
    decide +kernel
  | r + 2 => cases here

/-- Two pages and one are split off the pool, and one of the two off those. -/
def splitPages : List Deal := [.split 1 8192, .split 2 4096, .split 1 4096]

/-- They come back: the one that was split off others, then what was left of those, and last the one at the frontier. -/
def givePages : List Deal := [.release 3, .release 2, .release 4]

/-- Slot 1 is a root that lends the pages and gets them back; a node is free for the range of slot 3. -/
def tradesPages (s : K) : Bool :=
  decide (IsRoot s 1) && (Deal.makeAll 1 splitPages ([], s)).any fun (out, t) =>
    decide (out = [4, 3, 2] ∧ 3 < t.memories.cap ∧ (t.memories.slot 3).CutFrom 3 1 ∧
      (t.memories.slot 3).base < wordModulus ∧
      0 < t.freeRanges.cap ∧ (t.freeRanges.slot 0).state = .free ∧
        (t.memories.slot 3).span.top ≠ (t.memories.slot 1).base) &&
    (match poolReturn 1 (t.memories.slot 3).base (t.memories.slot 3).len 64 t with
      | .ok _ _ _ => true
      | _ => false) &&
    (Deal.makeAll 1 givePages (out, t)).any fun (out', u) =>
      decide (out' = [] ∧ (u.memories.slot 1).dropped = (s.memories.slot 1).dropped)

/-- Pages are split off a pool, and a page off them; they come back, and the pool is as it was. While they are out,
    the range of one of them comes back without a loss, and what it serves is what the check says. -/
theorem pool_trades_page : ∃ s t u v : K, Reachable s ∧ Trades 1 s [4, 3, 2] t ∧ Trades 1 s [] u ∧ Restored s u 1 ∧
    Took (poolReturn 1 (t.memories.slot 3).base (t.memories.slot 3).len) t v ∧
    (v.memories.slot 1).dropped = (t.memories.slot 1).dropped ∧ ∀ n, t.freeRanges.cap < n → Agrees t 3 4096 n := by
  obtain ⟨s, reached, found⟩ := reachable_of_played (i := []) (G := fun _ => True) (c := tradesPages)
    (g := fun _ => true) (by decide +kernel) fun _ _ => trivial
  obtain ⟨root, found⟩ := Bool.and_eq_true_iff.mp found
  have root := of_decide_eq_true root
  have hs := Pooled.reachable reached
  obtain ⟨⟨out, t⟩, lent, found⟩ := (Option.any_eq_true _ _).mp found
  simp only [Bool.and_eq_true, decide_eq_true_eq] at found
  obtain ⟨⟨⟨rfl, inCap, cut, word, some', free, apart⟩, returns⟩, found⟩ := found
  obtain ⟨⟨out', u⟩, back, found⟩ := (Option.any_eq_true _ _).mp found
  obtain ⟨rfl, none⟩ := of_decide_eq_true found
  have trades : Trades 1 s [4, 3, 2] t := Trades.makeAll hs root .start lent
  have whole : Trades 1 s [] u := trades.makeAll hs root back
  have restored := (pool_trades bootRangesEnd_pair reached root whole).1 rfl none
  have laws := (pool_trades bootRangesEnd_pair reached root trades).2
  rcases run : poolReturn 1 (t.memories.slot 3).base (t.memories.slot 3).len 64 t with ⟨⟨⟩, v, tr⟩ | _ | _ | _
    <;> rw [run] at returns
  · obtain ⟨l, pool⟩ := (trades.balance hs root).pooled.pools 1 (trades.balance hs root).root
    have law := laws.1 3 l 64 v tr inCap cut pool.toFreeList run
    have fair : FairLoss t v 1 l (t.memories.slot 3).span := law.mpr fun both => apart both.2
    refine ⟨s, t, u, v, reached, trades, whole, restored, ⟨64, (), tr, run⟩, ?_, fun n rounds =>
      laws.2 3 4096 n inCap word rounds⟩
    by_contra lost
    have full := (fair lost).2.2 0 some'
    rw [free] at full
    cases full
  all_goals cases returns

end

section

/-- A build for riscv32 virt whose root has, as its handle 4, 384 KiB of memory. -/
@[reducible] def holeBuild : Build := smallBuild 1 0x20000000 [⟨0x80400000, 0x60000, 0⟩]

attribute [local instance] holeBuild sampleTarget Riscv32.board

/-- Two pages are split off, the first of them is split off again and comes back, and the second is kept. -/
def heldHoles (k : Nat) : List Stimulus := (List.range k).flatMap fun i =>
  [.call 4 0 8192 0 0, .call (if i = 0 then 5 else 261 + i) 0 4096 0 0, .call (6 + i) 0xFFFF 0 0 0]

/-- The same, but the second page is donated. -/
def givenHoles (k : Nat) : List Stimulus := (List.range k).flatMap fun j =>
  [.call 4 0 8192 0 0, .call (271 + 256 * j) 0 4096 0 0, .call (16 + 256 * j) 0xFFFF 0 0 0,
    .call 1 5 ([0, 1, 2, 3, 4, 6, 7, 10].getD (j / 3) 0) (271 + 256 * j) 0]

/-- Slot 11 is a region cut from pool 0 that ends at the frontier, and its release loses it. -/
def losesFrontier (s : K) : Bool :=
  decide ((s.memories.slot 11).CutFrom 11 0) && (s.memories.slot 11).span.top == (s.memories.slot 0).base &&
    (s.memories.slot 0).dropped == 0 &&
    match act (.call 5903 0xFFFF 0 0 0) 64 s with
    | .ok _ t _ => (t.memories.slot 0).dropped == (s.memories.slot 11).len
    | _ => false

/-- With every node in use, each for a hole in front of a page that is held or donated, two pages are split off. They
    end at the frontier, and yet they are lost when they come back. -/
theorem pool_trades_loses_frontier : ∃ (s t : K) (tr : List Ev), Reachable s ∧ machine.step s t tr ∧
    (s.memories.slot 11).CutFrom 11 0 ∧ (s.memories.slot 11).span.top = (s.memories.slot 0).base ∧
    (s.memories.slot 0).dropped = 0 ∧ (t.memories.slot 0).dropped = (s.memories.slot 11).len := by
  obtain ⟨s, reached, found⟩ := reachable_of_played (G := fun _ => True) (c := losesFrontier)
    (i := heldHoles 10 ++ givenHoles 22 ++ [.call 4 0 8192 0 0]) (g := fun _ => true)
    (by decide +kernel) fun _ _ => trivial
  simp only [losesFrontier, Bool.and_eq_true, beq_iff_eq, decide_eq_true_eq] at found
  obtain ⟨⟨⟨cut, top⟩, none⟩, lost⟩ := found
  rcases run : act (.call 5903 0xFFFF 0 0 0) 64 s with ⟨a, t, tr⟩ | ⟨t, tr⟩ | ⟨w, tr⟩ | tr <;> rw [run] at lost
  · exact ⟨s, t, tr, reached, ⟨_, _, Or.inl run⟩, cut, top, none, beq_iff_eq.mp lost⟩
  all_goals cases lost

end

end Sawos
