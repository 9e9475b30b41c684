import Sawos.Kernel.FreeRange
import Sawos.Kernel.Grants

/-! # Memory that is used again

What a record opens stays its region's while the region is whole. A Split takes bytes off the front of a region that
rows may still name, and those rows stay behind. -/

namespace Sawos
open Exec Spans

section
variable [Hal]

/-- The physical bytes that a row opens. -/
def GrantRow.bytes (row : GrantRow) : Span := ⟨row.pa, row.top - row.base⟩

/-- A row of the page of statistics. -/
def GrantRow.IsStats (row : GrantRow) : Prop :=
  row.region = .none ∧ row.pa = Build.statsRegionBase ∧ row.top - row.base = Build.statsRegionLen

/-- What the root is loaded into. -/
def rootSpan : Span := ⟨rootRegion.base, rootRegion.top - rootRegion.base⟩

/-- The pools of the boot table have no byte of what the root is loaded into. -/
def PoolsBeside : Prop := ∀ r x, bootRange r = some x → x.Apart rootSpan

/-- Where the bytes of a row belong: in the region that it was installed for, or in what the root is loaded into. -/
def K.home (s : K) (row : GrantRow) : Span :=
  match row.region with
  | some r => (s.memories.slot r).span
  | none => rootSpan

/-- The bytes of a row are at home, but for the rest of the last granule, and nobody else has them: no other live
    region, no free range of a pool, and no donation of `ds`. -/
structure Homed (ds : List Donation) (s : K) (row : GrantRow) : Prop where
  live : ∀ r, row.region = some r → r < s.memories.cap ∧ (s.memories.slot r).state = .live
  inside : ∀ a, row.bytes.Has a → (s.home row).base ≤ a ∧ a < alignUp (s.home row).top Hal.protGrain
  regions : ∀ j < s.memories.cap, row.region ≠ some j → (s.memories.slot j).state = .live →
    ∀ a, row.bytes.Has a → (s.home row).Has a → ¬(s.memories.slot j).span.Has a
  ranges : ∀ k l, IsRoot s k → FreeList s k l → ∀ x ∈ s.freeSpans l, ∀ a, row.bytes.Has a →
    (s.home row).Has a → ¬x.Has a
  donations : ∀ d ∈ ds, ∀ a, row.bytes.Has a → (s.home row).Has a → ¬d.region.Has a

section
variable {ds : List Donation} {s : K} {row : GrantRow}

/-- The bytes of a row of a region are at home. -/
theorem Homed.of_region {r : Nat} (named : row.region = some r) (entitled : Entitled s row) (sole : Sole ds s r) :
    Homed ds s row := by
  have home : s.home row = (s.memories.slot r).span := by rw [K.home, named]
  rw [Entitled, named] at entitled
  obtain ⟨inCap, live, low, high⟩ := entitled
  refine ⟨fun r' named' => ?_, fun a has => ?_, fun j hj other live' a _ own has => ?_,
    fun k l root list x hx a _ own has => ?_, fun d hd a _ own has => ?_⟩
  · cases named.symm.trans named'
    exact ⟨inCap, live⟩
  · rw [home]
    exact ⟨Nat.le_trans low has.1, Nat.lt_of_lt_of_le has.2 high⟩
  all_goals rw [home] at own
  · exact sole.regions j hj (fun same => other (same ▸ named)) live' a ⟨has, own⟩
  · exact sole.ranges k l root list x hx a ⟨has, own⟩
  · exact sole.donations d hd a ⟨has, own⟩

/-- What the pools have is apart from what the root is loaded into. -/
theorem Banked.beside (beside : PoolsBeside) (h : Banked ds s) :
    (∀ j < s.memories.cap, (s.memories.slot j).state = .live → (s.memories.slot j).span.Apart rootSpan) ∧
    (∀ k l, IsRoot s k → FreeList s k l → ∀ x ∈ s.freeSpans l, x.Apart rootSpan) ∧ ∀ d ∈ ds,
      d.region.Apart rootSpan := by
  refine ⟨fun j hj live => ?_, fun k l root list x hx a both => ?_, fun d hd a both => ?_⟩
  · by_cases empty : (s.memories.slot j).len = 0
    · exact Span.apart_of_empty empty
    obtain ⟨k, l, root, pool, part, -⟩ := h.pooled.pool_of hj live empty
    exact fun a both => beside k _ pool.origin a ⟨(pool.given_apart (Pool.part part)).1 a both.1, both.2⟩
  · obtain ⟨m, pool⟩ := h.pooled.pools k root
    obtain rfl := list.unique pool.toFreeList
    have part := List.mem_cons_of_mem (s.memories.slot k).span (List.mem_append_left (s.pieces none k) hx)
    exact beside k _ pool.origin a ⟨(pool.given_apart part).1 a both.1, both.2⟩
  · obtain ⟨r, ⟨whole, range, within⟩, -⟩ := h.given d hd
    exact beside r whole range a ⟨within a both.1, both.2⟩

/-- The bytes of a row of the root's image are at home. -/
theorem Homed.of_root (none : row.region = none) (low : rootRegion.base ≤ row.pa)
    (high : row.pa + (row.top - row.base) ≤ rootRegion.top) (beside : PoolsBeside) (h : Banked ds s) :
      Homed ds s row := by
  have home : s.home row = rootSpan := by rw [K.home, none]
  obtain ⟨regions, ranges, donations⟩ := h.beside beside
  refine ⟨fun r named => ?_, fun a has => ?_, fun j hj _ live a _ own has => ?_,
    fun k l root list x hx a _ own has => ?_, fun d hd a _ own has => ?_⟩
  · rw [none] at named
    cases named
  · rw [home]
    have top : rootSpan.top ≤ alignUp rootSpan.top Hal.protGrain := le_alignUp _ _
    have := has.2
    simp only [GrantRow.bytes, Span.top, rootSpan] at this top ⊢
    exact ⟨Nat.le_trans low has.1, by omega⟩
  all_goals rw [home] at own
  · exact regions j hj live a ⟨has, own⟩
  · exact ranges k l root list x hx a ⟨has, own⟩
  · exact donations d hd a ⟨has, own⟩

end

end

/-- The rows that there can be fit the record, and a granule the stack of the root. -/
theorem Supported.rows [h : Hal] (supported : Supported h) :
    Hal.maxRootSegments + 1 ≤ Hal.grantRowBudget ∧ Hal.protGrain ≤ Hal.rootStackLen := by
  cases supported <;> exact ⟨Nat.le_of_ble_eq_true rfl, Nat.le_of_ble_eq_true rfl⟩

section

attribute [local instance] sampleBuild sampleTarget Riscv32.board

theorem poolsBeside_sample : PoolsBeside := by
  intro r x h a both
  obtain ⟨row, here, rfl⟩ := Option.map_eq_some_iff.mp h
  have first : row = ⟨0x80400000, 0x10000, 0⟩ := by
    cases r with
    | zero => exact (Option.some.inj here).symm
    | succ r => cases here
  subst first
  have low : 0x80400000 ≤ a := both.1.1
  have high : a < 0x80200000 + (0x80240000 - 0x80200000) := both.2.2
  omega

/-- Row 2 of the root opens a byte of region 2, which is live, and was installed for region 1. -/
def strays (s : K) : Bool :=
  let row := (s.processes.slot rootProcess).grants 2
  decide (2 < (s.processes.slot rootProcess).grantCount) && !row.device && row.region == some 1 &&
    decide (2 < s.memories.cap) && decide ((s.memories.slot 2).state = .live) &&
    decide (row.bytes.Has (s.memories.slot 2).base) && decide ((s.memories.slot 2).span.Has (s.memories.slot 2).base) &&
    decide ((s.memories.slot 2).base < (s.memories.slot 1).base)

end

end Sawos
