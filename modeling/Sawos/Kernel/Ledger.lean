import Sawos.Kernel.Extents
import Sawos.Kernel.Links
import Sawos.Kernel.Pooled

/-! # What the pools gave to the slabs

Memory that was donated came out of a pool, and the pool keeps account of it for as long as it is there. So no two
donations meet, and what was donated never comes back: no region, no free range and no pool has a byte of it again. -/

namespace Sawos
open Exec Spans

section
variable [Hal]

/-- No slot is a root that was none, and what a pool has donated stays so. -/
def Retains (s t : K) : Prop :=
  ∀ r, IsRoot t r → IsRoot s r ∧ (s.memories.slot r).history.donated <:+ (t.memories.slot r).history.donated

section
variable {s t u : K} {r i : Nat} {l l' : List Nat}

theorem Retains.refl (s : K) : Retains s s := fun _ root => ⟨root, List.suffix_refl _⟩

theorem Retains.trans (h : Retains s t) (h' : Retains t u) : Retains s u := fun r root =>
  have later := h' r root
  have before := h r later.1
  ⟨before.1, before.2.trans later.2⟩

theorem Retains.agree (same : Agree poolStateParts s t) : Retains s t := by
  obtain ⟨cap, -, -, slot⟩ := agree_pools same
  intro r root
  unfold IsRoot at root
  rw [cap, slot r] at root
  rw [slot r]
  exact ⟨root, List.suffix_refl _⟩

theorem PoolEdit.retains (edit : PoolEdit s t r l l')
    (donated : IsRoot s r → (t.memories.slot r).history.donated = (s.memories.slot r).history.donated) :
      Retains s t := by
  intro r' root
  have before := edit.isRoot.mp root
  refine ⟨before, ?_⟩
  by_cases own : r' = r
  · subst own
    exact donated before ▸ List.suffix_refl _
  · exact (edit.other r' own).symm ▸ List.suffix_refl _

theorem Retains.donated (d : Donated s t) : Retains s t := by
  rintro r ⟨inCap, live, own⟩
  have old : r < s.memories.cap := Classical.byContradiction fun out => by
    rw [d.memories.slot, if_pos ⟨Nat.le_of_not_lt out, inCap⟩] at live
    cases live
  rw [d.memories.old old] at live own ⊢
  exact ⟨⟨old, live, own⟩, List.suffix_refl _⟩

theorem CutOff.retains {region : Nat} (cut : CutOff s t region r) : Retains s t := by
  rintro r' ⟨inCap, live, own⟩
  by_cases root : r' = r
  · subst root
    rw [cut.history]
    exact ⟨cut.root, List.suffix_refl _⟩
  by_cases here : r' = region
  · subst here
    rw [cut.own.2, Option.some.injEq] at own
    exact absurd own.symm root
  · rw [cut.other r' here root] at live own ⊢
    exact ⟨⟨cut.cap ▸ inCap, live, own⟩, List.suffix_refl _⟩

/-- A slot that is no root afterwards. -/
theorem Retains.fill {v : MemorySlot} (foreign : v.root ≠ some i) :
    Retains s { s with memories := s.memories.set i v } := by
  rintro r ⟨inCap, live, own⟩
  by_cases same : r = i
  · simp only [same, Slab.set_slot, if_true] at own
    exact absurd own foreign
  · simp only [Slab.set_slot, if_neg same] at live own ⊢
    exact ⟨⟨inCap, live, own⟩, List.suffix_refl _⟩

theorem Retains.vacate : Retains s { s with memories := s.memories.set i .vacant } :=
  .fill (by simp [MemorySlot.vacant])

end

/-! ### Releases and retirements -/

section
variable {s₀ s t u : K} {r i : Nat} {G : Ev → Prop} {n : Nat} {A : Conduct K Ev}

/-- All pools are in order and retain what they had at `s₀`. -/
def Retaining (s₀ s : K) : Prop := Pooled s ∧ Retains s₀ s

theorem Retaining.agree (same : Agree poolStateParts s t) (h : Retaining s₀ s) : Retaining s₀ t :=
  ⟨Pools.agree same h.1, h.2.trans (.agree same)⟩

theorem Retaining.spares {α : Type} {m : M α} (quiet : ∀ e : Ev, e.quiet → A.emitted e) (hm : Spares poolStateParts m) :
    Keeps G n A (Retaining s₀) m := hm.keepsQuietly (fun _ _ => Retaining.agree) quiet

theorem Retaining.release (quiet : ∀ e : Ev, e.quiet → A.emitted e) :
    Keeps G n A (Retaining s₀) (memoryReleaseIfIdle r) := by
  refine .recur fun again hagain slot s hs => wp_bind.mpr (wp_readMemory.mpr fun hi => ?_)
  obtain ⟨pooled, retains⟩ := hs
  refine wp_ite.mpr ⟨fun _ => wp_pure.mpr ⟨pooled, retains⟩, fun busy => ?_⟩
  have live : (s.memories.slot slot).state = .live := by
    cases state : (s.memories.slot slot).state with
    | free => simp [state] at busy
    | live => rfl
  rcases from' : (s.memories.slot slot).root with _ | root
  · exact wp_halt.mpr trivial
  refine wp_ite.mpr ⟨fun _ => wp_pure.mpr ⟨pooled, retains⟩, fun idle => wp_bind.mpr ?_⟩
  by_cases own : root = slot
  · subst own
    have root' : IsRoot s root := ⟨hi, live, from'⟩
    have out : (s.memories.slot root).outBytes = 0 := by simpa using idle
    obtain ⟨l, pool⟩ := pooled.pools root root'
    rw [memoryGiveBack, if_pos rfl]
    refine wp_poolDropNodes pool.toFreeList fun t edit same => wp_bind.mpr (wp_modifyMemory.mpr fun _ => ?_)
    have dropped : Retaining s₀ { t with memories := t.memories.set root .vacant } :=
      ⟨pooled.dropRoot root' pool.toFreeList out edit rfl rfl rfl,
        (retains.trans (edit.retains fun _ => by rw [same])).trans .vacate⟩
    refine wp_bind.mpr ((Retaining.spares quiet (by simp +decide) _ dropped).imp fun _ u hu => ?_)
    simpa [whenever] using hu
  · rw [memoryGiveBack, if_neg own]
    -- A slot beyond the slab is no root.
    have beyond : Idle s.memories.cap s := fun root => absurd root.1 (Nat.lt_irrefl _)
    refine pooled.wp_return beyond hi live from' own fun t _ _ edit kept ht _ inCap out =>
      wp_bind.mpr (wp_modifyMemory.mpr fun _ => ?_)
    have back : Retains s t := edit.retains fun root' => by
      obtain ⟨l, pool⟩ := pooled.pools root root'
      exact (kept l pool.toFreeList).donated
    have emptied : Retaining s₀ { t with memories := t.memories.set slot .vacant } :=
      ⟨ht.emptied inCap out, (retains.trans back).trans .vacate⟩
    refine wp_bind.mpr ((Retaining.spares quiet (by simp +decide) _ emptied).imp fun _ u hu => ?_)
    exact wp_whenever.mpr ⟨fun _ => hagain root u hu, fun _ => hu⟩

theorem Retains.donate {x : Span} : Retains s { s with memories := s.memories.set i { s.memories.slot i with
    history := (s.memories.slot i).history.donate x } } := by
  rintro r ⟨inCap, live, own⟩
  by_cases same : r = i
  · subst same
    simp only [Slab.set_slot, if_true] at live own ⊢
    exact ⟨⟨inCap, live, own⟩, List.suffix_cons _ _⟩
  · simp only [Slab.set_slot, if_neg same] at live own ⊢
    exact ⟨⟨inCap, live, own⟩, List.suffix_refl _⟩

/-- The region of slot `r` is gone, and the pool `root` that it was of has it among what it donated. -/
structure GaveUp (s : K) (r root : Nat) (t : K) : Prop where
  retains : Retains s t
  given : IsRoot t root → (s.memories.slot r).span ∈ (t.memories.slot root).history.donated
  free : (t.memories.slot r).state = .free

theorem GaveUp.agree {root : Nat} (same : Agree poolStateParts t u) (h : GaveUp s r root t) : GaveUp s r root u := by
  have kept := Retains.agree same
  refine ⟨h.retains.trans kept, fun root' => (kept root root').2.subset (h.given (kept root root').1), ?_⟩
  rw [(agree_pools same).2.2.2 r]
  exact h.free

theorem gaveUp_retire {root : Nat} (quiet : ∀ e : Ev, e.quiet → A.emitted e) (hs : Pooled s) (hi : r < s.memories.cap)
    (live : (s.memories.slot r).state = .live) (from' : (s.memories.slot r).root = some root) :
    wp G n (memoryRetireDonated r) (fun _ => GaveUp s r root) (.leaving A) s := by
  have finish : ∀ u p, GaveUp s r root u → wp G n (quotaCredit p .memory) (fun _ => GaveUp s r root) (.leaving A) u :=
    fun u p hu =>
    (Spares.keepsQuietly (by simp +decide) (fun _ _ => GaveUp.agree) quiet u hu)
  refine wp_bind.mpr (wp_readMemory.mpr fun _ =>
    wp_bind.mpr (wp_whenever.mpr ⟨fun own => ?_, fun other => wp_bind.mpr ?_⟩))
  · obtain rfl : root = r := Option.some.inj (from'.symm.trans (of_decide_eq_true own))
    obtain ⟨l, pool⟩ := hs.pools root ⟨hi, live, from'⟩
    refine wp_poolDropNodes pool.toFreeList fun t edit same => wp_bind.mpr ?_
    rw [recordDonated, from']
    refine wp_modifyMemory.mpr fun _ =>
      wp_bind.mpr (wp_modifyMemory.mpr fun _ => finish _ _ ⟨?_, fun gone => ?_, by simp [MemorySlot.vacant]⟩)
    · exact ((edit.retains fun _ => by rw [same]).trans .donate).trans .vacate
    · have live := gone.2.1
      simp [MemorySlot.vacant] at live
  · have apart : root ≠ r := fun same => of_decide_eq_false other (same ▸ from')
    rw [recordDonated, from']
    refine wp_modifyMemory.mpr fun _ => wp_bind.mpr (wp_modifyMemory.mpr fun _ =>
      finish _ _ ⟨Retains.donate.trans .vacate, fun _ => ?_, by simp [MemorySlot.vacant]⟩)
    simp [apart, PoolHistory.donate, MemorySlot.span]

end

/-! ### Donations out of the pools -/

/-- The pools of the boot table have no byte in common. -/
def PoolsApart : Prop := ∀ r r' x x', r ≠ r' → bootRange r = some x → bootRange r' = some x' → x.Apart x'

/-- The region of a donation was of pool `r`, which has given it up. -/
def Donation.Of (d : Donation) (r : Nat) (s : K) : Prop :=
  (∃ whole, bootRange r = some whole ∧ ∀ a, d.region.Has a → whole.Has a) ∧
    (IsRoot s r → d.region ∈ (s.memories.slot r).history.donated)

/-- The slabs have grown by the donations `ds`, whose regions came out of the pools. -/
structure Banked (ds : List Donation) (s : K) : Prop where
  pooled : Pooled s
  grown : Grown ds s
  given : ∀ d ∈ ds, ∃ r, d.Of r s
  apart : PoolsApart → ds.Pairwise fun d d' => d.region.Apart d'.region

section
variable {s t : K} {r i : Nat} {d : Donation} {ds : List Donation} {G : Ev → Prop} {n : Nat} {A : Conduct K Ev}

theorem Donation.Of.retains (h : d.Of r s) (kept : Retains s t) : d.Of r t :=
  ⟨h.1, fun root => (kept r root).2.subset (h.2 (kept r root).1)⟩

theorem Banked.retains (h : Banked ds s) (pooled : Pooled t) (kept : Retains s t) (same : t.shape = s.shape) :
    Banked ds t :=
  ⟨pooled, h.grown.other same, fun d hd => (h.given d hd).imp fun _ of => of.retains kept, h.apart⟩

theorem Banked.agree (same : Agree poolStateParts s t) (h : Banked ds s) : Banked ds t :=
  h.retains (Pools.agree same h.pooled) (.agree same) (agree_shape same (by decide))

/-- The pool that a region with bytes is part of. -/
theorem Pooled.pool_of (h : Pooled s) (hi : i < s.memories.cap) (live : (s.memories.slot i).state = .live)
    (some : (s.memories.slot i).len ≠ 0) : ∃ r l, IsRoot s r ∧ Pool none [] s r l ∧
      (s.memories.slot i).span ∈ (s.memories.slot r).span :: s.pieces none r ∧ (s.memories.slot i).root = .some r := by
  obtain ⟨r, from', -, bytes⟩ := h.rooted i hi (by simp) live
  have root := bytes some
  obtain ⟨l, pool⟩ := h.pools r root
  refine ⟨r, l, root, pool, ?_, from'⟩
  by_cases own : i = r
  · subst own
    exact List.mem_cons_self
  · have cut : (s.memories.slot i).CutFrom i r ∧ .some i ≠ (none : Option Nat) := ⟨⟨own, live, from'⟩, by simp⟩
    exact List.mem_cons_of_mem _
      (List.mem_map.mpr ⟨i, List.mem_filter.mpr ⟨List.mem_range.mpr hi, decide_eq_true cut⟩, rfl⟩)

/-- A span that is among the free and lent ones of a pool is in its range and apart from what the pool has donated. -/
theorem Pool.given_apart {l : List Nat} {x : Span} (pool : Pool none [] s r l)
    (hx : x ∈ (s.memories.slot r).span :: (s.freeSpans l ++ s.pieces none r)) :
    (∀ a, x.Has a → (s.memories.slot r).history.whole.Has a) ∧
      ∀ y ∈ (s.memories.slot r).history.donated, x.Apart y := by
  have split : s.shares none [] r l = ((s.memories.slot r).span :: (s.freeSpans l ++ s.pieces none r)) ++
      ((s.memories.slot r).history.lost ++ (s.memories.slot r).history.donated) := by simp [K.shares]
  have fills := pool.fills
  rw [split] at fills
  refine ⟨fun a has => (fills.covers a).mp ⟨x, List.mem_append_left _ hx, has⟩, fun y hy => ?_⟩
  exact (List.pairwise_append.mp fills.apart).2.2 x hx y (List.mem_append_right _ hy)

/-- Nothing that a pool has, free or lent, has a byte of a donation. -/
theorem Donation.Of.apart {r' : Nat} {l : List Nat} {x : Span} (boots : PoolsApart) (of : d.Of r s) (root : IsRoot s r')
    (pool : Pool none [] s r' l) (hx : x ∈ (s.memories.slot r').span :: (s.freeSpans l ++ s.pieces none r')) :
    x.Apart d.region := by
  obtain ⟨inside, apart⟩ := pool.given_apart hx
  by_cases same : r' = r
  · subst same
    exact apart _ (of.2 root)
  · obtain ⟨whole, range, within⟩ := of.1
    rintro a ⟨first, second⟩
    exact boots r' r _ whole same pool.origin range a ⟨inside a first, within a second⟩

/-- No live region has a byte of a donation. -/
theorem Banked.live_apart (boots : PoolsApart) (h : Banked ds s) (hd : d ∈ ds) (hi : i < s.memories.cap)
    (live : (s.memories.slot i).state = .live) : (s.memories.slot i).span.Apart d.region := by
  by_cases empty : (s.memories.slot i).len = 0
  · rintro a ⟨⟨low, high⟩, -⟩
    simp only [MemorySlot.span, Span.top, empty] at low high
    omega
  obtain ⟨r, of⟩ := h.given d hd
  obtain ⟨r', l, root, pool, part, -⟩ := h.pooled.pool_of hi live empty
  refine of.apart boots root pool ?_
  rcases List.mem_cons.mp part with own | piece
  · exact own ▸ List.mem_cons_self
  · exact List.mem_cons_of_mem _ (List.mem_append_right _ piece)

end

/-! ### Every step -/

/-- After the donations `ds` there may have been more. -/
def Banks (ds : List Donation) (s : K) : Prop := ∃ more, Banked (ds ++ more) s

section
variable {s t : K} {p r i : Nat} {ds : List Donation} {G : Ev → Prop} {n : Nat} {A : K → Prop}

theorem Banks.agree (same : Agree poolStateParts s t) (h : Banks ds s) : Banks ds t := h.imp fun _ => Banked.agree same

theorem Banks.release : Keeps G n A (Banks ds) (memoryReleaseIfIdle r) := by
  rintro s ⟨more, h⟩
  have quiet : ∀ e : Ev, e.quiet → (⟨A, fun _ => True⟩ : Conduct K Ev).emitted e := fun _ _ => trivial
  have shape : Spares [.machine .slabs] (memoryReleaseIfIdle r) := by simp +decide
  refine ((Retaining.release quiet s ⟨h.pooled, .refl s⟩).and (shape.wp quiet n s)).mono
    (fun _ => id) (fun _ t ht => ?_) (fun _ => And.left) (fun _ _ => trivial) fun _ _ => trivial
  exact ⟨more, h.retains ht.1.1 ht.1.2 (agree_shape ht.2 (by simp))⟩

theorem Banks.pooling : Pooling G n (Banks ds) where
  about _ _ := Banks.agree
  release _ := Banks.release

theorem Banks.steady : Steady G n (Banks ds) := Banks.pooling.steady

theorem Banks.split {len : Nat} : Keeps G n (Banks ds) (Banks ds) (memorySplit p r len) := by
  refine Banks.steady.carve mortal_any fun i bytes s ⟨⟨more, hs⟩, unused⟩ => ?_
  refine hs.pooled.wp_fill (fun _ _ => trivial) bytes unused (fun _ _ => Banks.agree)
    fun base root t cut same filled => ?_
  have apart : root ≠ i := by
    rintro rfl
    cases cut.root.2.1.symm.trans unused.2
  exact ⟨more, hs.retains filled (cut.retains.trans (.fill (by simpa using apart))) same⟩

/-- The slot of a region is what it was, as long as it has not been retired. -/
theorem slot_stays {u v x : K} (hi : i < s.memories.cap) (zeroed : Agree poolStateParts s u) (donated : Donated u v)
    (unbound : Agree poolStateParts v x) : i < x.memories.cap ∧ (x.memories.slot i).state = (s.memories.slot i).state ∧
      (x.memories.slot i).root = (s.memories.slot i).root ∧ (x.memories.slot i).span = (s.memories.slot i).span := by
  obtain ⟨cap, -, -, first⟩ := agree_pools zeroed
  obtain ⟨cap', -, -, last⟩ := agree_pools unbound
  have hi : i < u.memories.cap := cap ▸ hi
  refine ⟨cap' ▸ Nat.lt_of_lt_of_le hi donated.memories.cap, ?_⟩
  rw [last i, donated.memories.old hi, first i]
  exact ⟨rfl, rfl, rfl⟩

/-- An accepted donation of a whole region, once it has been retired, is one more. -/
theorem Banked.give {u v x y : K} {d : Donation} {tr : List Ev} {m : Nat} (hs : Banked ds s) (hi : i < s.memories.cap)
    (live : (s.memories.slot i).state = .live) (region : d.region = (s.memories.slot i).span)
    (zeroed : Agree poolStateParts s u)
    (accepted : d.Accepted u) (installs : slabInstall d.kind d.start d.units m u = .ok true v tr)
    (donated : Donated u v)
    (unbound : Agree poolStateParts v x) (pool : (s.memories.slot i).root = some r) (retired : GaveUp x i r y)
    (pooled : Pooled y)
    (same : y.shape = x.shape) : Banked (ds ++ [d]) y := by
  have kept : Retains s y :=
    (((Retains.agree zeroed).trans (.donated donated)).trans (.agree unbound)).trans retired.retains
  have bytes : (s.memories.slot i).len ≠ 0 := by
    have := accepted.pad
    rw [region] at this
    exact Nat.ne_of_gt (Nat.zero_lt_of_lt this)
  -- The slot is what it was until it is retired.
  have slot : (x.memories.slot i).span = (s.memories.slot i).span := (slot_stays hi zeroed donated unbound).2.2.2
  have grown : Grown (ds ++ [d]) y :=
    (((hs.grown.other (agree_shape zeroed (by decide))).donate accepted installs).other
      (agree_shape unbound (by decide))).other same
  have new : d.Of r y := by
    obtain ⟨r', l, root, pool', part, from'⟩ := hs.pooled.pool_of hi live bytes
    obtain rfl : r' = r := Option.some.inj (from'.symm.trans pool)
    refine ⟨⟨_, pool'.origin, fun a has => ?_⟩, fun root => ?_⟩
    · refine (pool'.given_apart ?_).1 a (region ▸ has)
      rcases List.mem_cons.mp part with own | piece
      · exact own ▸ List.mem_cons_self
      · exact List.mem_cons_of_mem _ (List.mem_append_right _ piece)
    · rw [region, ← slot]
      exact retired.given root
  refine ⟨pooled, grown, fun e he => ?_, fun boots => ?_⟩
  · rcases List.mem_append.mp he with old | last
    · exact (hs.given e old).imp fun _ of => of.retains kept
    · obtain rfl := List.mem_singleton.mp last
      exact ⟨r, new⟩
  · refine List.pairwise_append.mpr ⟨hs.apart boots, List.pairwise_singleton _ _, fun e he e' he' => ?_⟩
    obtain rfl := List.mem_singleton.mp he'
    rw [region]
    exact (hs.live_apart boots he hi live).symm

/-- Interrupts leave regions alone, and the slabs have grown out of the pools. -/
def Lodged (ds : List Donation) (s : K) : Prop := Backed s ∧ Banks ds s

theorem Lodged.steady : Steady G n (Lodged ds) := Backed.steady.and Banks.steady

/-- From `s` to `t` the region of `slot` was donated to `kind`. -/
structure Gives (ds : List Donation) (kind : SlabKind) (slot : Nat) (s t : K) : Prop where
  backed : Backed t
  banked : Banked ds s
  more : Banked (ds ++ [⟨kind, (s.memories.slot slot).span⟩]) t
  free : (t.memories.slot slot).state = .free

/-- A donation that is refused changes nothing, and one that is taken is one more. -/
theorem Lodged.wp_donate {k h : Nat} (hs : Lodged ds s) : wp G n (slabDonate p k h)
    (fun a t => (a = opStatus .noResource ∧ t = s) ∨ ∃ kind more, SlabKind.ofRaw k = some kind ∧
      Gives (ds ++ more) kind ((s.processes.slot p).lookup h).target s t)
        (.leaving (⟨Lodged ds, fun _ => True⟩ : Conduct K Ev)) s := by
  have w : Steady G n (Lodged ds) := Lodged.steady
  have quiet : ∀ e : Ev, e.quiet → (⟨Lodged ds, fun _ => True⟩ : Conduct K Ev).emitted e := fun _ _ => trivial
  unfold Sawos.slabDonate
  cases SlabKind.ofRaw k with
  | none => exact (w.faultProcess_ends mortal_any).never hs
  | some kind =>
    refine wp_bind.mpr (w.wp_memoryArg mortal_any hs fun _ _ => ?_)
    generalize ((s.processes.slot p).lookup h).target = slot
    refine wp_bind.mpr (wp_readMemory.mpr fun inCap => ?_)
    refine wp_bind.mpr (w.wp_check mortal_any hs fun _ => wp_bind.mpr (w.wp_check mortal_any hs fun _ => ?_))
    refine wp_bind.mpr (w.wp_check mortal_any hs fun lent => ?_)
    rw [slabGeometry_eq]
    refine wp_bind.mpr
      (wp_reads.mpr
        (wp_ite.mpr
          ⟨fun _ => wp_pure.mpr (Or.inl ⟨rfl, rfl⟩), fun fits => wp_bind.mpr (wp_addWord.mpr fun start => ?_)⟩))
    refine wp_ite.mpr ⟨fun _ => wp_pure.mpr (Or.inl ⟨rfl, rfl⟩), fun takes => wp_bind.mpr ?_⟩
    obtain ⟨backed, more, banked⟩ := hs
    have idle : Idle slot s := fun root => by simpa [root.2.2] using lent
    let d : Donation := ⟨kind, (s.memories.slot slot).span⟩
    have accepted : d.Accepted s := by
      simp only [Bool.or_eq_true, decide_eq_true_eq, not_or, Nat.not_lt] at takes
      exact ⟨Nat.lt_of_not_le fits, start, takes.1.1, takes.1.2, takes.2⟩
    have live : (s.memories.slot slot).state = .live := by
      cases state : (s.memories.slot slot).state with
      | live => rfl
      | free =>
        have := (banked.pooled.vacant slot inCap state).1
        omega
    obtain ⟨r, from', -, -⟩ := banked.pooled.rooted slot inCap (by simp) live
    refine (Sheltered.longZero misses_nowhere (fun _ none => none.elim) s (.refl backed)).imp fun _ u hu => ?_
    have zeroed : Agree poolStateParts s u := hu.2.parts.mono (by decide)
    have accepted' : d.Accepted u := accepted.other (agree_shape zeroed (by decide))
    refine wp_bind.mpr ((wp_slabInstall fun _ _ => id).run.imp fun took v hv => ?_)
    obtain ⟨donated, tr, run⟩ := hv
    refine wp_bind.mpr (wp_whenever.mpr ⟨fun _ => wp_fatalKernel.mpr trivial, fun yes => wp_bind.mpr ?_⟩)
    obtain rfl : took = true := by simpa using yes
    have clear : Spares (backedParts ++ poolStateParts) (unbindHandle p (handleWordIndex h)) := by simp +decide
    refine wp_sparesQuietly quiet clear fun _ x same => wp_bind.mpr ?_
    have unbound : Agree poolStateParts v x := same.mono (by decide)
    have idle : IdlePooled slot x := (IdlePooled.agree zeroed ⟨banked.pooled, idle⟩).donated donated |>.agree unbound
    obtain ⟨inCap', state, root, -⟩ := slot_stays inCap zeroed donated unbound
    have retire : Spares (.machine .slabs :: backedParts) (memoryRetireDonated slot) := by simp +decide
    have gave := gaveUp_retire (G := G) (n := n) quiet idle.1 inCap' (state.trans live) (root.trans from')
    refine (((IdlePooled.retire quiet x idle).and gave).and (retire.wp quiet n x)).mono (fun _ => id) (fun _ y hy => ?_)
      (fun _ => And.left ∘ And.left) (fun _ _ => trivial) fun _ _ => trivial
    obtain ⟨⟨pooled, retired⟩, kept⟩ := hy
    refine wp_pure.mpr (Or.inr ⟨kind, more, rfl, ?_, banked, ?_, retired.free⟩)
    · exact ((hu.1.donated donated).agree (same.mono (by decide))).agree (kept.mono (by decide))
    · exact banked.give inCap live rfl zeroed accepted' run donated unbound from' retired pooled
        (agree_shape kept (by simp))

theorem Lodged.donate {k h : Nat} : Keeps G n (Lodged ds) (Lodged ds) (slabDonate p k h) := fun s hs =>
  hs.wp_donate.imp fun _ t ht => by
    rcases ht with ⟨-, rfl⟩ | ⟨kind, more, -, gives⟩
    · exact hs
    · exact ⟨gives.backed, _, List.append_assoc _ _ _ ▸ gives.more⟩

theorem Lodged.grounded : SteadyGrounded G n (Lodged ds) where
  toUpkeep := Lodged.steady
  split p r len hp := (Backed.grounded.split p r len hp).and Banks.split
  map p r i t a hp := (Backed.grounded.map p r i t a hp).and (Banks.steady.map (fun _ _ => Banks.agree) (by decide) hp)
  mapDevice p i t hp := (Backed.grounded.mapDevice p i t hp).and
    (Banks.steady.mapDevice (fun _ _ => Banks.agree) (by decide) hp)
  mapStats p d c hp := ((Backed.grounded.mapStats p d c hp).and
    (Banks.steady.mapStats (fun _ _ => Banks.agree) (by decide) hp).leads).imp
    (fun _ hs => ⟨⟨hs.1.1, hs.2⟩, hs.1.2⟩) fun _ => id
  unmap p i hp := (Backed.grounded.unmap p i hp).and Banks.pooling.unmap
  donate _ _ _ _ := Lodged.donate
  processCreate p i m hp := (Backed.grounded.processCreate p i m hp).and
    (Banks.steady.processCreate (fun _ _ _ _ s hs => Banks.pooling.fillProcess s hs.1) hp)
  start p c f t hp := (Backed.grounded.start p c f t hp).and
    (Banks.steady.start (fun _ _ => Banks.agree) (by decide) hp)
  threadCreate q e sp a := ((Backed.grounded.threadCreate q e sp a).and
    (Banks.steady.threadCreate (fun _ _ => Banks.agree) (by decide))).imp
    (fun _ hs => ⟨⟨hs.1.1, hs.2⟩, hs.1.2, hs.2⟩) fun _ => id
  devices := Backed.grounded.devices.and (Banks.steady.devices fun _ _ same => Banks.agree (same.mono (by decide)))

theorem Lodged.boot : Leads G n A K.Fresh (Lodged []) loadRootAndEnter := by
  intro s hs
  have backed : Leads G n A Backed Backed loadRootAndEnter :=
    Backed.serviced.bootDevices fun _ _ same hs => hs.agree (same.mono (by decide))
  have shape : Leads G n A (fun t => t.shape = s.shape) (fun t => t.shape = s.shape) loadRootAndEnter :=
    bedrock_shape.serviced.bootDevices fun _ _ same h => (agree_shape same (by decide)).trans h
  refine ((backed s (.fresh hs)).and ((shape s rfl).and (Pooled.boot (A := A) s hs))).mono
    (fun _ => id) (fun _ t ht => ?_) (fun _ => And.left) (fun _ _ => trivial) fun _ _ => trivial
  exact ⟨ht.1, [], ht.2.2, (Grown.fresh hs).other ht.2.1, by simp, fun _ => .nil⟩

theorem Lodged.reachable (h : Reachable s) : Lodged [] s :=
  Grounded.reachable (fun _ => Lodged.grounded) (fun _ => Lodged.boot) h

/-- What there was of donations there is in every later state. -/
theorem Lodged.later {s' : K} (h : Lodged ds s) (later : machine.Later s s') : Lodged ds s' :=
  later.ofPrograms h fun _ _ => Lodged.grounded.act fun _ => mortal_any

/-- The slabs that grew out of the pools are transparent: every slot is at one place, apart from all others, and stays
    there. -/
theorem slab_growth_is_transparent (laid : Build.Regular) (boots : PoolsApart) :
    (∀ ds s, Grown ds s → Transparent ds s) ∧
      ∀ s, Reachable s → ∃ ds, Grown ds s ∧ ds.Pairwise fun d d' => d.region.Apart d'.region := by
  refine ⟨fun _ _ grown => grown.transparent laid, fun s h => ?_⟩
  obtain ⟨-, more, banked⟩ := Lodged.reachable h
  exact ⟨more, banked.grown, banked.apart boots⟩

/-- No region has a byte of a donation, no pool has one to cut off, and the pool that it came from counts it as lent. -/
structure Gone (d : Donation) (s : K) : Prop where
  regions : ∀ i < s.memories.cap, (s.memories.slot i).state = .live → (s.memories.slot i).span.Apart d.region
  ranges : ∀ r l, IsRoot s r → FreeList s r l → ∀ x ∈ s.freeSpans l, x.Apart d.region
  lent : ∃ r whole, bootRange r = some whole ∧ (∀ a, d.region.Has a → whole.Has a) ∧
    (IsRoot s r → d.region.len ≤ (s.memories.slot r).outBytes)

theorem Banked.gone {d : Donation} (boots : PoolsApart) (h : Banked ds s) (hd : d ∈ ds) : Gone d s := by
  obtain ⟨r, of⟩ := h.given d hd
  obtain ⟨whole, range, inside⟩ := of.1
  refine ⟨fun i => h.live_apart boots hd, fun r' l root list x hx => ?_, r, whole, range, inside, fun root => ?_⟩
  · obtain ⟨l', pool⟩ := h.pooled.pools r' root
    obtain rfl := list.unique pool.toFreeList
    exact of.apart boots root pool (List.mem_cons_of_mem _ (List.mem_append_left _ hx))
  · obtain ⟨l, pool⟩ := h.pooled.pools r root
    have := pool.out
    have few : Span.len d.region ≤ total Span.len (s.memories.slot r).history.donated := Spans.le_total (of.2 root)
    omega

/-- A trap's operation begins in `s` when the trap is taken in `s₀`. -/
def Entered (s₀ s : K) : Prop := ∃ polls lapse rows, s = { s₀ with polls := polls, lapse := lapse, stats := rows }

/-- The trap that was taken in `s`, whose operation came to `t` and answers `a`, ends in `u`. -/
def Finishes (s : K) (a : SyscallResult) (t u : K) : Prop :=
  ∃ n tr, finishTrap s.currentThread a n t = .ok () u tr ∨ finishTrap s.currentThread a n t = .away u tr

theorem Entered.lodged {s₀ : K} (h : Lodged ds s₀) (entered : Entered s₀ s) : Lodged ds s := by
  obtain ⟨polls, lapse, rows, rfl⟩ := entered
  exact (Lodged.grounded (G := fun _ => True) (n := 0)).ground.about s₀ _ (agree_around (by decide) (by decide)) h

theorem Finishes.lodged {a : SyscallResult} {u : K} (h : Lodged ds t) (finishes : Finishes s a t u) : Lodged ds u := by
  obtain ⟨n, tr, run⟩ := finishes
  have kept := Lodged.grounded.finishTrap (n := n) (G := fun _ => True) (t := s.currentThread) (r := a) t h
  rcases run with run | run <;> rw [wp, run] at kept <;> exact kept.2 fun _ _ => trivial

/-- A donation that is refused changes nothing. What one that is taken donates is gone at once, and it and what was
    donated before and after it are gone in every state from the end of its trap on. -/
theorem donated_memory_is_gone (boots : PoolsApart) {s₀ : K} (h : Reachable s₀) (entered : Entered s₀ s) :
    ∀ n p k x a t tr, slabDonate p k x n s = .ok a t tr → (a = opStatus .noResource ∧ t = s) ∨
      ∃ ds d slot, Grown ds s ∧ Grown (ds ++ [d]) t ∧ SlabKind.ofRaw k = some d.kind ∧
        slot = ((s.processes.slot p).lookup x).target ∧ d.region = (s.memories.slot slot).span ∧
        (t.memories.slot slot).state = .free ∧ Gone d t ∧
        ∀ u s', Finishes s a t u → machine.Later u s' → ∃ more, Grown (ds ++ [d] ++ more) s' ∧
          ((ds ++ [d] ++ more).Pairwise fun d d' => d.region.Apart d'.region) ∧
            ∀ d' ∈ ds ++ [d] ++ more, Gone d' s' := by
  intro n p k x a t tr run
  have lodged : Lodged [] s := entered.lodged (Lodged.reachable h)
  have donates := lodged.wp_donate (p := p) (k := k) (h := x) (G := fun _ => True) (n := n)
  refine (donates.ok run).imp id ?_
  rintro ⟨kind, ds, known, backed, banked, given, free⟩
  refine ⟨_, _, _, banked.grown, given.grown, known, rfl, rfl, free, given.gone boots (by simp),
    fun u s' finishes later => ?_⟩
  have taken : Lodged ([] ++ ds ++ [⟨kind, (s.memories.slot ((s.processes.slot p).lookup x).target).span⟩]) t :=
    ⟨backed, [], by simpa using given⟩
  obtain ⟨-, more, banked'⟩ := (finishes.lodged taken).later later
  exact ⟨more, banked'.grown, banked'.apart boots, fun d' hd => banked'.gone boots hd⟩

end

end

section

attribute [local instance] sampleBuild sampleTarget Riscv32.board

theorem regular_sample : Build.Regular where
  slots _ := (by decide : 8 ∣ 64)
  exchanges := by decide
  frames := by decide
  rings := rfl

/-- There is one pool. -/
theorem poolsApart_sample : PoolsApart := by
  have one : ∀ r x, bootRange r = some x → r = 0 := by
    intro r x h
    obtain ⟨row, here, -⟩ := Option.map_eq_some_iff.mp h
    have := (List.getElem?_eq_some_iff.mp here).1
    have : r < 1 := this
    omega
  intro r r' x x' ne h h'
  exact absurd ((one r x h).trans (one r' x' h').symm) ne

/-- The root donates a page to the pipes, which gives room for three. -/
theorem slab_growth_is_transparent_pipes : ∃ s : K, Reachable s ∧ s.pipes.cap = maxPipes + 3 ∧
    s.exchanges.cap = s.pipes.cap * pipeInflight ∧
    ∃ ds : List Donation, Transparent ds s ∧ ds.Pairwise fun d d' => d.region.Apart d'.region := by
  obtain ⟨s, reached, found⟩ := reachable_of_played (i := [.call 4 0 4096 0 0, .call 1 5 10 6 0]) (G := fun _ => True)
    (c := fun s => decide (s.pipes.cap = maxPipes + 3)) (g := fun _ => true) (by decide +kernel) fun _ _ => trivial
  obtain ⟨grown, runs⟩ := slab_growth_is_transparent regular_sample poolsApart_sample
  obtain ⟨ds, hs, apart⟩ := runs s reached
  exact ⟨s, reached, of_decide_eq_true found, (grown ds s hs).ringed, ds, grown ds s hs, apart⟩

/-- The root splits three pages off its memory. -/
def threePages : List Stimulus := [.call 4 0 4096 0 0, .call 4 0 4096 0 0, .call 4 0 4096 0 0]

/-- It gives back the first and the last of them, and splits three pages off again, and one. -/
def around : List Stimulus := [.call 6 0xFFFF 0 0 0, .call 8 0xFFFF 0 0 0, .call 4 0 12288 0 0, .call 4 0 4096 0 0]

/-- The page between is donated to the pipes, and what was on both of its sides is split off anew. -/
def tradedAround (s : K) : Bool :=
  match slabDonate rootProcess 10 7 64 s with
  | .ok a t _ =>
    match finishTrap s.currentThread a 64 t with
    | .ok _ u _ => (Machine.goOn act 64 around u).any fun (s', _) =>
      decide (t.pipes.cap = s.pipes.cap + 3 ∧ u.pieces none 0 = [⟨0x80400000, 4096⟩, ⟨0x80402000, 4096⟩] ∧
        (s.memories.slot ((s.processes.slot rootProcess).lookup 7).target).span = ⟨0x80401000, 4096⟩ ∧
        s'.pieces none 0 = [⟨0x80402000, 12288⟩, ⟨0x80400000, 4096⟩])
    | _ => false
  | _ => false

/-- Of three pages the one between is donated to the pipes, and is gone after the others were given back and traded
    again. -/
theorem donated_memory_is_gone_page : ∃ (s t u s' : K) (a : SyscallResult) (d : Donation) (tr : List Ev), Reachable s ∧
    slabDonate rootProcess 10 7 64 s = .ok a t tr ∧ t.pipes.cap = s.pipes.cap + 3 ∧ Finishes s a t u ∧
      machine.Later u s' ∧
    d.region = ⟨0x80401000, 4096⟩ ∧ u.pieces none 0 = [⟨0x80400000, 4096⟩, ⟨0x80402000, 4096⟩] ∧
    s'.pieces none 0 = [⟨0x80402000, 12288⟩, ⟨0x80400000, 4096⟩] ∧ Gone d t ∧ Gone d s' := by
  obtain ⟨s, reached, found⟩ := reachable_of_played (i := threePages) (G := fun _ => True) (c := tradedAround)
    (g := fun _ => true) (by decide +kernel) fun _ _ => trivial
  unfold tradedAround at found
  rcases donates : slabDonate rootProcess 10 7 64 s with ⟨a, t, tr⟩ | _ | _ | _ <;> rw [donates] at found
  · rcases ends : finishTrap s.currentThread a 64 t with ⟨⟨⟩, u, tr'⟩ | _ | _ | _ <;> simp only [ends] at found
    · obtain ⟨⟨s', h⟩, goes, found⟩ := (Option.any_eq_true _ _).mp found
      simp only [decide_eq_true_eq] at found
      obtain ⟨grew, left, page, traded⟩ := found
      rcases donated_memory_is_gone poolsApart_sample reached ⟨_, _, _, rfl⟩ 64 rootProcess 10 7 a t tr
        donates with ⟨-, rfl⟩ | taken
      · simp at grew
      · obtain ⟨ds, d, slot, -, -, -, rfl, region, -, gone, later⟩ := taken
        have finishes : Finishes s a t u := ⟨64, tr', Or.inl ends⟩
        have goesOn : machine.Later u s' := (Machine.Ahead.goOn .here goes).later
        obtain ⟨more, -, -, all⟩ := later u s' finishes goesOn
        exact ⟨s, t, u, s', a, d, tr, reached, donates, grew, finishes, goesOn, region.trans page, left,
          traded, gone, all d (by simp)⟩
    all_goals cases found
  all_goals cases found

deriving instance DecidableEq for Extent, GrantRow

/-- The root maps its memory, splits a page off it and donates the page to the pipes. The pool lends nothing, and
    still counts a page as lent; the last bytes of the page are in no extent; and the row that the root had mapped has
    the page still, for writing. -/
theorem donated_page_is_lent_and_mapped : ∃ s : K, Reachable s ∧ s.pieces none 0 = [] ∧
    (s.memories.slot 0).outBytes = 4096 ∧
    s.pipes.extents = [⟨0x80400000, 3, 0⟩] ∧ s.exchanges.extents = [⟨0x804000C0, 48, 0⟩] ∧
      0x804000C0 + 48 * 64 < 0x80400000 + 4096 ∧
    2 < (s.processes.slot rootProcess).grantCount ∧
    (s.processes.slot rootProcess).grants 2 = ⟨0x80400000, 0x80410000, 0x80400000, segRead ||| segWrite,
      false, some 0⟩ := by
  obtain ⟨s, reached, found⟩ := reachable_of_played
    (i := [.call 4 1 2 3 0, .call 4 0 4096 0 0, .call 1 5 10 7 0]) (G := fun _ => True)
    (c := fun s => decide (s.pieces none 0 = [] ∧ (s.memories.slot 0).outBytes = 4096 ∧
      s.pipes.extents = [⟨0x80400000, 3, 0⟩] ∧ s.exchanges.extents = [⟨0x804000C0, 48, 0⟩] ∧
      0x804000C0 + 48 * 64 < 0x80400000 + 4096 ∧ 2 < (s.processes.slot rootProcess).grantCount ∧
      (s.processes.slot rootProcess).grants
        2 = ⟨0x80400000, 0x80410000, 0x80400000, segRead ||| segWrite, false, some 0⟩))
    (g := fun _ => true) (by decide +kernel) fun _ _ => trivial
  exact ⟨s, reached, of_decide_eq_true found⟩

end

end Sawos
