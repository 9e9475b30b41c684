import Sawos.Kernel.Placement
import Sawos.Lib.Blocks

/-! # Slabs that grow

A slab is its array in the image and the extents that it was given after that, and an index goes through them in turn.
Donated memory is cut into the arrays of its kind: slots alone, frames and then the slots of their threads, or pipes and
then the exchanges of each. -/

namespace Sawos
open Exec Spans

/-! ### Where a slot is -/

namespace Slab
variable {α : Type}

/-- The walk of `locate`, from extent `e` on and for what is left of the index. The source panics past the end. -/
def locateFrom (e rest : Nat) : List Extent → Option (Nat × Nat)
  | [] => none
  | x :: l => if rest < x.slots then some (e, rest) else locateFrom (e + 1) (rest - x.slots) l

/-- The extent that slot `i` is in and its place there, for a slot behind the `floor` slots of the image. -/
def locate (s : Slab α) (floor i : Nat) : Option (Nat × Nat) := locateFrom 0 (i - floor) s.extents

/-- The physical address of slot `i` of `bytes` bytes, behind those of the image. -/
def extentAddr (s : Slab α) (floor bytes i : Nat) : Option Nat := do
  let at' ← s.locate floor i
  let x ← s.extents[at'.1]?
  return x.base + at'.2 * bytes

end Slab

/-- A slot in the image's array, or at an address in donated memory. -/
inductive Place where
  | image (i : Nat)
  | donated (addr : Nat)
  deriving DecidableEq

/-- The place that an index names; the source panics where there is none. -/
def Slab.place {α : Type} (s : Slab α) (floor bytes i : Nat) : Option Place :=
  if s.cap ≤ i then none
  else if i < floor then some (.image i)
  else (s.extentAddr floor bytes i).map .donated

/-- The physical address of the frame of a thread, with the frames of the image from `arena` on. -/
def frameSlot (s : Slab ThreadSlot) (arena index : Nat) : Option Nat :=
  if index < maxThreads then some (alignUp arena threadFrameStride + index * threadFrameStride)
  else do
    let at' ← s.locate maxThreads index
    let x ← s.extents[at'.1]?
    return x.side + at'.2 * threadFrameStride

theorem Slab.locateFrom_eq {l : List Extent} {e i : Nat} :
    locateFrom e i l = (Blocks.locate Extent.slots l i).map fun x => (e + x.1, x.2) := by
  induction l generalizing e i with
  | nil => rfl
  | cons x l ih =>
    rw [locateFrom, Blocks.locate, ih]
    by_cases here : i < x.slots
    · rw [if_pos here, if_pos here]
      rfl
    · rw [if_neg here, if_neg here, Option.map_map]
      refine congrArg (Option.map · _) (funext fun y => ?_)
      simp only [Function.comp, Prod.mk.injEq, and_true]
      omega

theorem Slab.locate_eq {α : Type} {s : Slab α} {floor i : Nat} :
    s.locate floor i = Blocks.locate Extent.slots s.extents (i - floor) := by
  rw [locate, locateFrom_eq]
  simp

/-! ### The arrays -/

/-- How many slots of a kind the image has. -/
def floorOf : SlabKind → Nat
  | .events => maxEvents
  | .waiters => maxWaiters
  | .interrupts => maxInterrupts
  | .attachments => maxAttachments
  | .timers => maxTimers
  | .memories => maxMemories
  | .ioMemories => maxIoMemories
  | .mappings => maxMappings
  | .freeRanges => maxFreeRanges
  | .threads => maxThreads
  | .pipes => maxPipes
  | .processes => maxProcesses

/-- What donated memory is cut into: the slots of a kind, the frames of threads and the exchanges of pipes. -/
inductive Cells where
  | slots (kind : SlabKind)
  | frames
  | exchanges
  deriving DecidableEq

/-- The kind whose donations have these. -/
def Cells.kind : Cells → SlabKind
  | .slots k => k
  | .frames => .threads
  | .exchanges => .pipes

def Cells.floor : Cells → Nat
  | .slots k => floorOf k
  | .frames => maxThreads
  | .exchanges => pipeExchanges

/-- Where the cells of an extent start. -/
def Cells.start : Cells → Extent → Nat
  | .frames, x => x.side
  | _, x => x.base

section
variable [Build]

def Cells.bytes : Cells → Nat
  | .slots k => Build.slotBytes k
  | .frames => threadFrameStride
  | .exchanges => Build.exchangeSlotBytes

def Cells.align : Cells → Nat
  | .slots k => Build.slotAlign k
  | .frames => threadFrameStride
  | .exchanges => Build.exchangeSlotAlign

/-- What one unit of a kind takes of a donation. -/
def strideOf : SlabKind → Nat
  | .threads => Build.slotBytes .threads + threadFrameStride
  | .pipes => Build.slotBytes .pipes + pipeInflight * Build.exchangeSlotBytes
  | k => Build.slotBytes k

def alignOf : SlabKind → Nat
  | .threads => threadFrameStride
  | .pipes => max (Build.slotAlign .pipes) Build.exchangeSlotAlign
  | k => Build.slotAlign k

/-- What the layout of the kernel's slots promises: a slot's size is a multiple of its alignment, the stride of the
    frames is one of a thread slot's, and a pipe and an exchange are aligned alike. -/
structure Build.Regular : Prop where
  slots : ∀ k, Build.slotAlign k ∣ Build.slotBytes k
  exchanges : Build.exchangeSlotAlign ∣ Build.exchangeSlotBytes
  frames : Build.slotAlign .threads ∣ threadFrameStride
  rings : Build.exchangeSlotAlign = Build.slotAlign .pipes

end

section
variable [Hal]

/-- A slab, but for what its slots hold. -/
def Slab.bare {α : Type} (x : Slab α) : Slab Unit := ⟨x.cap, fun _ => (), x.extents⟩

def K.slab (s : K) : SlabKind → Slab Unit
  | .events => s.events.bare
  | .waiters => s.waiters.bare
  | .interrupts => s.interrupts.bare
  | .attachments => s.attachments.bare
  | .timers => s.timers.bare
  | .memories => s.memories.bare
  | .ioMemories => s.ioMemories.bare
  | .mappings => s.mappings.bare
  | .freeRanges => s.freeRanges.bare
  | .threads => s.threads.bare
  | .pipes => s.pipes.bare
  | .processes => s.processes.bare

/-- The slab whose extents the cells are in. -/
def K.chain (s : K) : Cells → Slab Unit
  | .slots k => s.slab k
  | .frames => s.slab .threads
  | .exchanges => s.exchanges.bare

def K.locate (s : K) (c : Cells) (i : Nat) : Option (Nat × Nat) := (s.chain c).locate c.floor i

/-- The physical address of a donated cell. -/
def K.cellAddr (s : K) (c : Cells) (i : Nat) : Option Nat := do
  let at' ← s.locate c i
  let x ← (s.chain c).extents[at'.1]?
  return c.start x + at'.2 * c.bytes

theorem frameSlot_donated {s : K} {arena i : Nat} (hi : maxThreads ≤ i) :
    frameSlot s.threads arena i = s.cellAddr .frames i :=
  if_neg (by omega)

/-! ### Donations -/

end

/-- Memory for slots of a kind. -/
structure Donation where
  kind : SlabKind
  region : Span

namespace Donation

section
variable [Build] (d : Donation)

def pad : Nat := padTo d.region.base (alignOf d.kind)

def start : Nat := d.region.base + d.pad

def units : Nat := (d.region.len - d.pad) / strideOf d.kind

/-- Where the cells of a donation are. -/
def base : Cells → Nat
  | .slots .threads => d.start + d.units * threadFrameStride
  | .exchanges => d.start + d.units * Build.slotBytes .pipes
  | _ => d.start

def count : Cells → Nat
  | .exchanges => d.units * pipeInflight
  | _ => d.units

/-- What the slab is given. -/
def extent : Cells → Extent
  | .slots .threads | .frames => ⟨d.start + d.units * threadFrameStride, d.units, d.start⟩
  | .exchanges => ⟨d.start + d.units * Build.slotBytes .pipes, d.units * pipeInflight, 0⟩
  | .slots _ => ⟨d.start, d.units, 0⟩

/-- A slab with the cells of a donation behind its own, if they are of its kind. -/
def into (c : Cells) (x : Slab Unit) : Slab Unit :=
  if c.kind = d.kind then ⟨x.cap + d.count c, fun _ => (), x.extents ++ [d.extent c]⟩ else x

end

theorem extent_start [Build] {d : Donation} {c : Cells} (h : c.kind = d.kind) : c.start (d.extent c) = d.base c := by
  cases c with
  | slots k => cases k <;> rfl
  | _ => rfl

theorem extent_slots [Build] {d : Donation} {c : Cells} : (d.extent c).slots = d.count c := by
  cases c with
  | slots k => cases k <;> rfl
  | _ => rfl

end Donation

section
variable [Build] {d : Donation} {c c' : Cells} {o o' a : Nat}

omit [Build] in
theorem padTo_dvd {b k : Nat} (hk : 0 < k) : k ∣ b + padTo b k := by
  unfold padTo
  split
  · exact Nat.dvd_of_mod_eq_zero ‹_›
  · have rest := Nat.mod_lt b hk
    have parts := Nat.div_add_mod b k
    refine ⟨b / k + 1, ?_⟩
    rw [Nat.mul_succ]
    omega

namespace Donation

theorem units_le (fits : d.pad ≤ d.region.len) : d.start + d.units * strideOf d.kind ≤ d.region.top := by
  have := Nat.div_mul_le_self (d.region.len - d.pad) (strideOf d.kind)
  unfold start units Span.top
  omega

/-- The arrays of a donation lie in its region. -/
theorem array_inside (h : c.kind = d.kind) (fits : d.pad ≤ d.region.len) :
    d.region.base ≤ d.base c ∧ d.base c + d.count c * c.bytes ≤ d.region.top := by
  have whole := d.units_le fits
  have front : d.region.base ≤ d.start := Nat.le_add_right _ _
  rw [← h] at whole
  cases c with
  | slots k =>
    cases k <;> simp only [base, count, Cells.bytes, Cells.kind, strideOf, Nat.mul_add] at whole ⊢ <;> omega
  | frames =>
    simp only [base, count, Cells.bytes, Cells.kind, strideOf, Nat.mul_add] at whole ⊢
    omega
  | exchanges =>
    simp only [base, count, Cells.bytes, Cells.kind, strideOf, Nat.mul_add, Nat.mul_assoc] at whole ⊢
    omega

/-- Its two arrays lie one behind the other. -/
theorem arrays_apart (h : c.kind = d.kind) (h' : c'.kind = d.kind) (ne : c ≠ c') :
    d.base c + d.count c * c.bytes ≤ d.base c' ∨ d.base c' + d.count c' * c'.bytes ≤ d.base c := by
  have same : c.kind = c'.kind := h.trans h'.symm
  cases c with
  | slots k =>
    cases c' with
    | slots k' => exact absurd (congrArg Cells.slots same) ne
    | frames =>
      obtain rfl : k = .threads := same
      exact Or.inr (Nat.le_refl _)
    | exchanges =>
      obtain rfl : k = .pipes := same
      exact Or.inl (Nat.le_refl _)
  | frames =>
    cases c' with
    | slots k =>
      obtain rfl : .threads = k := same
      exact Or.inl (Nat.le_refl _)
    | frames => exact absurd rfl ne
    | exchanges => cases same
  | exchanges =>
    cases c' with
    | slots k =>
      obtain rfl : .pipes = k := same
      exact Or.inr (Nat.le_refl _)
    | frames => cases same
    | exchanges => exact absurd rfl ne

theorem cell_inside (h : c.kind = d.kind) (fits : d.pad ≤ d.region.len) (ho : o < d.count c) :
    d.region.base ≤ d.base c + o * c.bytes ∧ d.base c + o * c.bytes + c.bytes ≤ d.region.top := by
  obtain ⟨front, back⟩ := array_inside h fits
  have := Nat.mul_le_mul_right c.bytes (Nat.succ_le_of_lt ho)
  rw [Nat.succ_mul] at this
  omega

theorem cells_apart (h : c.kind = d.kind) (h' : c'.kind = d.kind) (ho : o < d.count c) (ho' : o' < d.count c')
    (ne : (c, o) ≠ (c', o')) :
    (Span.mk (d.base c + o * c.bytes) c.bytes).Apart ⟨d.base c' + o' * c'.bytes, c'.bytes⟩ := by
  by_cases same : c = c'
  · subst same
    exact Blocks.cell_apart fun h => ne (h ▸ rfl)
  · have := Nat.mul_le_mul_right c.bytes (Nat.succ_le_of_lt ho)
    have := Nat.mul_le_mul_right c'.bytes (Nat.succ_le_of_lt ho')
    rw [Nat.succ_mul] at *
    rintro b ⟨first, second⟩
    unfold Span.Has Span.top at first second
    dsimp only at first second
    rcases arrays_apart h h' same with before | behind <;> omega

/-- Its cells are aligned. -/
theorem cell_aligned (laid : Build.Regular) (h : c.kind = d.kind) : c.align ∣ d.base c + o * c.bytes := by
  have start : alignOf c.kind ∣ d.start := by
    rw [h]
    refine padTo_dvd ?_
    cases d.kind with
    | threads => exact (by decide : 0 < threadFrameStride)
    | pipes => exact Nat.lt_of_lt_of_le (Build.slotAlign_pos _) (Nat.le_max_left _ _)
    | _ => exact Build.slotAlign_pos _
  have pipes : alignOf .pipes = Build.slotAlign .pipes := by simp [alignOf, laid.rings]
  have bytes : c.align ∣ c.bytes := by
    cases c with
    | slots k => exact laid.slots k
    | frames => exact Nat.dvd_refl _
    | exchanges => exact laid.exchanges
  have base : c.align ∣ d.base c := by
    cases c with
    | slots k =>
      cases k with
      | threads => exact Nat.dvd_add (Nat.dvd_trans laid.frames start) (Nat.dvd_mul_left_of_dvd laid.frames _)
      | pipes =>
        show Build.slotAlign .pipes ∣ _
        exact pipes ▸ start
      | _ => exact start
    | frames => exact start
    | exchanges =>
      show Build.exchangeSlotAlign ∣ _
      rw [laid.rings]
      exact Nat.dvd_add (pipes ▸ start) (Nat.dvd_mul_left_of_dvd (laid.slots .pipes) _)
  exact Nat.dvd_add base (Nat.dvd_mul_left_of_dvd bytes o)

end Donation

end

section
variable [Hal]

/-- How many extents a kind may still be given, and how many units. -/
def K.room (s : K) : SlabKind → Nat
  | .pipes => min s.pipes.extentsLeft s.exchanges.extentsLeft
  | k => (s.slab k).extentsLeft

def K.headroom (s : K) : SlabKind → Nat
  | .pipes => min (maxSlabCapacity - s.pipes.cap) ((maxSlabCapacity - s.exchanges.cap) / pipeInflight)
  | k => maxSlabCapacity - (s.slab k).cap

theorem slabGeometry_eq (k : SlabKind) :
    slabGeometry k = reads fun s => (strideOf k, alignOf k, s.room k, s.headroom k) := by
  cases k <;> rfl

/-- The geometry check accepts a donation. -/
structure Donation.Accepted (d : Donation) (s : K) : Prop where
  pad : d.pad < d.region.len
  start : d.start < wordModulus
  some : d.units ≠ 0
  room : s.room d.kind ≠ 0
  headroom : d.units ≤ s.headroom d.kind

section
variable {n : Nat} {s t : K} {d : Donation}

theorem lands_donatePaired {α : Type} {c : Column α} {zero : α} {base slots side : Nat} {Q : Bool → K → Prop}
    (some : slots ≠ 0) (room : (c.get s).extentsLeft ≠ 0) (fits : slots ≤ maxSlabCapacity - (c.get s).cap)
    (h : ∀ slab, slab.bare = ⟨(c.get s).cap + slots, fun _ => (), (c.get s).extents ++ [⟨base, slots, side⟩]⟩ →
      Q true (c.put s slab)) : Lands n (donatePaired c zero base slots side) Q s := by
  have few : ¬maxSlabExtents ≤ (c.get s).extents.length := by
    unfold Slab.extentsLeft at room
    omega
  refine lands_bind (lands_reads ?_)
  rw [Slab.donatePaired, if_neg some, if_neg few, if_neg (Nat.not_lt.mpr fits)]
  exact lands_bind (lands_modifies (lands_pure (h _ rfl)))

/-- What was accepted is installed: the slabs of its kind have its cells behind their own, and no other slab changes. -/
theorem Donation.Accepted.installs (accepted : d.Accepted s) :
    Lands n (slabInstall d.kind d.start d.units)
      (fun took t => took = true ∧ ∀ c, t.chain c = d.into c (s.chain c)) s := by
  obtain ⟨kind, region⟩ := d
  obtain ⟨-, -, some, room, headroom⟩ := accepted
  cases kind with
  | pipes =>
    have left : s.pipes.extentsLeft ≠ 0 ∧ s.exchanges.extentsLeft ≠ 0 := by
      simp only [K.room] at room
      omega
    simp only [K.headroom, Nat.le_min] at headroom
    have rings : (Donation.mk .pipes region).units * pipeInflight ≤ maxSlabCapacity - s.exchanges.cap :=
      (Nat.le_div_iff_mul_le (by decide)).mp headroom.2
    refine lands_bind (lands_donatePaired some left.1 headroom.1 fun slab same => lands_bind ?_)
    refine lands_donatePaired (Nat.mul_ne_zero some (by decide)) left.2 rings fun slab' same' => ?_
    refine lands_bind (lands_pure (lands_pure ⟨rfl, fun c => ?_⟩))
    cases c with
    | slots k => cases k <;> first | rfl | exact same
    | frames => rfl
    | exchanges => exact same'
  | threads =>
    refine lands_donatePaired some room headroom fun slab same => ⟨rfl, fun c => ?_⟩
    cases c with
    | slots k => cases k <;> first | rfl | exact same
    | frames => exact same
    | exchanges => rfl
  | _ =>
    refine lands_donatePaired some room headroom fun slab same => ⟨rfl, fun c => ?_⟩
    cases c with
    | slots k => cases k <;> first | rfl | exact same
    | _ => rfl

end

/-- The state's slabs have grown by the donations `ds`, one after the other, each of which the geometry check
    accepted. -/
inductive Grown : List Donation → K → Prop
  | fresh {s : K} : s.Fresh → Grown [] s
  | other {ds : List Donation} {s t : K} : Grown ds s → t.shape = s.shape → Grown ds t
  | donate {ds : List Donation} {s t : K} {d : Donation} {n : Nat} {tr : List Ev} : Grown ds s → d.Accepted s →
    slabInstall d.kind d.start d.units n s = .ok true t tr → Grown (ds ++ [d]) t

/-- The donations with cells of a sort. -/
def withCells (ds : List Donation) (c : Cells) : List Donation := ds.filter fun d => c.kind = d.kind

/-- The slabs are where the donations leave them. -/
structure Chained (ds : List Donation) (s : K) : Prop where
  chain : ∀ c, s.chain c =
    ⟨c.floor + Blocks.count (·.count c) (withCells ds c), fun _ => (), (withCells ds c).map (·.extent c)⟩
  fits : ∀ d ∈ ds, d.pad < d.region.len

section
variable {n : Nat} {s t : K} {d : Donation} {ds : List Donation} {c c' : Cells} {i j a a' : Nat}

theorem chain_congr (h : t.shape = s.shape) : t.chain = s.chain := by
  simp only [K.shape, List.cons.injEq, Prod.mk.injEq] at h
  funext c
  cases c with
  | slots k => cases k <;> simp [K.chain, K.slab, Slab.bare, h]
  | _ => simp [K.chain, K.slab, Slab.bare, h]

theorem K.Fresh.chain (h : s.Fresh) : s.chain c = ⟨c.floor, fun _ => (), []⟩ := by
  cases c with
  | slots k =>
    cases k <;> simp only [K.chain, K.slab, h.events, h.waiters, h.interrupts, h.attachments, h.timers, h.memories,
      h.ioMemories, h.mappings, h.freeRanges, h.threads, h.pipes, h.processes] <;> rfl
  | frames =>
    simp only [K.chain, K.slab, h.threads]
    rfl
  | exchanges =>
    simp only [K.chain, h.exchanges]
    rfl

theorem Chained.donate (chained : Chained ds s) (fits : d.pad < d.region.len)
    (chain : ∀ c, t.chain c = d.into c (s.chain c)) :
    Chained (ds ++ [d]) t := by
  refine ⟨fun c => ?_, fun e he => ?_⟩
  · rw [chain c, chained.chain c, Donation.into]
    by_cases kind : c.kind = d.kind
    · simp [withCells, kind, Nat.add_assoc]
    · simp [withCells, kind]
  · rcases List.mem_append.mp he with old | new
    · exact chained.fits e old
    · obtain rfl := List.mem_singleton.mp new
      exact fits

theorem Grown.chained (h : Grown ds s) : Chained ds s := by
  induction h with
  | fresh fresh => exact ⟨fun c => fresh.chain, by simp⟩
  | other _ same ih => exact ⟨fun c => by rw [chain_congr same, ih.chain c], ih.fits⟩
  | @donate ds s t d n tr _ accepted run ih =>
    obtain ⟨took, u, tr', run', -, chain⟩ := accepted.installs (n := n)
    rw [run] at run'
    cases run'
    exact ih.donate accepted.pad chain

namespace Chained
variable (chained : Chained ds s)
include chained

theorem locate_eq : s.locate c i = Blocks.locate (·.count c) (withCells ds c) (i - c.floor) := by
  rw [K.locate, Slab.locate_eq, chained.chain c]
  refine Blocks.locate_congr ?_
  rw [List.map_map]
  exact List.map_congr_left fun d _ => Donation.extent_slots

theorem cap_eq : (s.chain c).cap = c.floor + Blocks.count (·.count c) (withCells ds c) := by rw [chained.chain c]

theorem isSome_iff (hi : c.floor ≤ i) : (s.locate c i).isSome ↔ i < (s.chain c).cap := by
  rw [chained.locate_eq, Blocks.locate_isSome, chained.cap_eq]
  omega

/-- The address of a cell, from the donation it is in. -/
theorem cell (h : s.cellAddr c i = some a) : ∃ e o d, Blocks.locate (·.count c) (withCells ds c)
    (i - c.floor) = some (e, o) ∧ (withCells ds c)[e]? = some d ∧ o < d.count c ∧ a = d.base c + o * c.bytes := by
  simp only [K.cellAddr, chained.locate_eq, chained.chain c, Option.bind_eq_bind, Option.bind_eq_some_iff,
    List.getElem?_map] at h
  obtain ⟨⟨e, o⟩, found, x, at', same⟩ := h
  obtain ⟨d, here, rfl⟩ := Option.map_eq_some_iff.mp at'
  obtain ⟨d', here', inside, -⟩ := Blocks.locate_eq_some.mp found
  obtain rfl : d' = d := Option.some.inj (here'.symm.trans here)
  have kind : c.kind = d'.kind := of_decide_eq_true (List.mem_filter.mp (List.mem_of_getElem? here)).2
  refine ⟨e, o, d', found, here, inside, ?_⟩
  rw [← Donation.extent_start kind]
  exact (Option.some.inj same).symm

omit [Hal] chained in
theorem mem_withCells (h : (withCells ds c)[i]? = some d) : d ∈ ds ∧ c.kind = d.kind := by
  obtain ⟨mem, kind⟩ := List.mem_filter.mp (List.mem_of_getElem? h)
  exact ⟨mem, of_decide_eq_true kind⟩

theorem inside (h : s.cellAddr c i = some a) :
    ∃ d ∈ ds, d.kind = c.kind ∧ d.region.base ≤ a ∧ a + c.bytes ≤ d.region.top := by
  obtain ⟨e, o, d, -, here, ho, rfl⟩ := chained.cell h
  obtain ⟨mem, kind⟩ := mem_withCells here
  exact ⟨d, mem, kind.symm, Donation.cell_inside kind (Nat.le_of_lt (chained.fits d mem)) ho⟩

theorem aligned (laid : Build.Regular) (h : s.cellAddr c i = some a) : c.align ∣ a := by
  obtain ⟨e, o, d, -, here, -, rfl⟩ := chained.cell h
  exact Donation.cell_aligned laid (mem_withCells here).2

/-- Different cells are apart where the donated regions are. -/
theorem apart (regions : ds.Pairwise fun d d' => d.region.Apart d'.region) (hi : c.floor ≤ i) (hj : c'.floor ≤ j)
    (h : s.cellAddr c i = some a) (h' : s.cellAddr c' j = some a') (ne : (c, i) ≠ (c', j)) :
    (Span.mk a c.bytes).Apart ⟨a', c'.bytes⟩ := by
  obtain ⟨e, o, d, found, here, ho, rfl⟩ := chained.cell h
  obtain ⟨e', o', d', found', here', ho', rfl⟩ := chained.cell h'
  obtain ⟨mem, kind⟩ := mem_withCells here
  obtain ⟨mem', kind'⟩ := mem_withCells here'
  -- Two donations, or two cells of one.
  have elsewhere : d.region.Apart d'.region → (Span.mk (d.base c + o * c.bytes) c.bytes).Apart
    ⟨d'.base c' + o' * c'.bytes, c'.bytes⟩ := by
    rintro apart b ⟨first, second⟩
    have inside := Donation.cell_inside kind (Nat.le_of_lt (chained.fits d mem)) ho
    have inside' := Donation.cell_inside kind' (Nat.le_of_lt (chained.fits d' mem')) ho'
    refine apart b ⟨?_, ?_⟩ <;> unfold Span.Has Span.top at * <;> dsimp only at * <;> omega
  by_cases same : c.kind = c'.kind
  · have lists : withCells ds c' = withCells ds c := by
      unfold withCells
      rw [same]
    rw [lists] at here'
    by_cases at' : e = e'
    · subst at'
      obtain rfl : d' = d := Option.some.inj (here'.symm.trans here)
      refine Donation.cells_apart kind kind' ho ho' ?_
      rintro ⟨⟩
      have equal := Blocks.locate_inj found found'
      exact ne (congrArg (Prod.mk c) (by omega))
    · obtain ⟨he, rfl⟩ := List.getElem?_eq_some_iff.mp here
      obtain ⟨he', rfl⟩ := List.getElem?_eq_some_iff.mp here'
      have pairs := List.pairwise_iff_getElem.mp (regions.filter fun d => c.kind = d.kind)
      rcases Nat.lt_or_gt_of_ne at' with less | more
      · exact elsewhere (pairs e e' he he' less)
      · exact elsewhere fun b both => pairs e' e he' he more b both.symm
  · have other : d ≠ d' := by
      rintro rfl
      exact same (kind.trans kind'.symm)
    have : Std.Symm fun x y : Donation => x.region.Apart y.region := ⟨fun _ _ apart b both => apart b both.symm⟩
    exact elsewhere (regions.forall mem mem' other)

/-- The exchanges of a pipe are where it is among the pipes. -/
theorem rings {e o : Nat} (hi : maxPipes ≤ i) (h : s.locate (.slots .pipes) i = some (e, o)) (hj : j < pipeInflight) :
    s.locate .exchanges (pipeExchangeAt i j) = some (e, o * pipeInflight + j) := by
  rw [chained.locate_eq] at h ⊢
  have index : pipeExchangeAt i j - Cells.exchanges.floor = (i - maxPipes) * pipeInflight + j := by
    have : maxPipes * pipeInflight ≤ i * pipeInflight := Nat.mul_le_mul_right _ hi
    rw [Nat.sub_mul]
    simp only [pipeExchangeAt, Cells.floor, pipeExchanges]
    omega
  rw [index]
  exact Blocks.locate_mul rfl hj h

theorem rings_cap : s.exchanges.cap = s.pipes.cap * pipeInflight := by
  have pipes : s.pipes.cap = _ := chained.cap_eq (c := .slots .pipes)
  have exchanges : s.exchanges.cap = _ := chained.cap_eq (c := .exchanges)
  rw [pipes, exchanges, Nat.add_mul]
  exact congrArg (pipeExchanges + ·) Blocks.count_mul

end Chained

/-- An address that a slab had stays what it was. -/
theorem Chained.cellAddr_donate (chained : Chained ds s) (chain : ∀ c, t.chain c = d.into c (s.chain c))
    (hi : c.floor ≤ i) (old : i < (s.chain c).cap) : t.cellAddr c i = s.cellAddr c i := by
  have located : t.locate c i = s.locate c i := by
    rw [K.locate, K.locate, Slab.locate_eq, Slab.locate_eq, chain c, Donation.into]
    split
    · refine Blocks.locate_append ?_
      have := chained.isSome_iff hi |>.mpr old
      rw [K.locate, Slab.locate_eq] at this
      exact Blocks.locate_isSome.mp this
    · rfl
  unfold K.cellAddr
  rw [located]
  cases found : s.locate c i with
  | none => rfl
  | some at' =>
    obtain ⟨e, o⟩ := at'
    rw [K.locate, Slab.locate_eq] at found
    obtain ⟨x, here, -⟩ := Blocks.locate_eq_some.mp found
    have below : e < (s.chain c).extents.length := (List.getElem?_eq_some_iff.mp here).1
    have same : (t.chain c).extents[e]? = (s.chain c).extents[e]? := by
      rw [chain c, Donation.into]
      split
      · exact List.getElem?_append_left below
      · rfl
    simp [same]

/-- A frame of its own, aligned, for every thread. -/
theorem Chained.framed (chained : Chained ds s) (laid : Build.Regular) {arena : Nat} (hi : i < s.threads.cap) :
    ∃ a, frameSlot s.threads arena i = some a ∧ threadFrameStride ∣ a := by
  by_cases image : i < maxThreads
  · refine ⟨_, if_pos image, Nat.dvd_add ?_ (Nat.dvd_mul_left _ _)⟩
    exact Nat.dvd_of_mod_eq_zero (alignUp_mod arena 9)
  · rw [frameSlot_donated (Nat.le_of_not_lt image)]
    have located := (chained.isSome_iff (c := .frames) (Nat.le_of_not_lt image)).mpr hi
    obtain ⟨⟨e, o⟩, found⟩ := Option.isSome_iff_exists.mp located
    rw [K.locate, Slab.locate_eq] at found
    obtain ⟨x, here, -⟩ := Blocks.locate_eq_some.mp found
    have addr : s.cellAddr .frames i = some (x.side + o * threadFrameStride) := by
      rw [← Slab.locate_eq, ← K.locate] at found
      simp [K.cellAddr, found, here, Cells.start, Cells.bytes]
    exact ⟨_, addr, chained.aligned laid addr⟩

theorem agree_shape {S : List Part} (h : Agree S s t) (about : .machine .slabs ∈ S) : t.shape = s.shape :=
  (show s.shape = t.shape from h _ about).symm

/-- Nothing but an installation changes the shape of the slabs. -/
theorem bedrock_shape {G : Ev → Prop} {A : K → Prop} : Bedrock G n A fun t => t.shape = s.shape := by
  have spares : ∀ {α : Type} {m : M α}, Spares [.machine .slabs] m →
    Keeps G n A (fun t => t.shape = s.shape) m := fun hm =>
    hm.keeps fun _ _ same h => (agree_shape same (by simp)).trans h
  exact
    { quiet := fun _ _ => trivial
      about := fun _ _ same h => (agree_shape same (by decide)).trans h
      release := fun _ => spares (by simp +decide)
      unmapped := fun _ => spares (spares_mappings (by simp +decide))
      reclaim := fun _ => spares (spares_processes (by simp +decide)) }

end

/-- What the donations `ds` made of the slabs: an index below the capacity, and no other, is at one place of one
    extent; its cell is aligned and inside the memory of its donation, and apart from every other cell when the
    donated regions are; every thread has a frame and every pipe its ring of exchanges, where it is itself. What is
    accepted next is installed, after its memory has been zeroed, and leaves all that was there where it was. -/
structure Transparent (ds : List Donation) (s : K) : Prop where
  located : ∀ c i, c.floor ≤ i → ((s.locate c i).isSome ↔ i < (s.chain c).cap)
  placed : ∀ c i e o, c.floor ≤ i → (s.locate c i = some (e, o) ↔ ∃ x, (s.chain c).extents[e]? = some x ∧ o < x.slots ∧
    i = c.floor + Blocks.before Extent.slots (s.chain c).extents e + o)
  inside : ∀ c i a, s.cellAddr c i = some a → ∃ d ∈ ds, d.kind = c.kind ∧ d.region.base ≤ a ∧ a + c.bytes ≤ d.region.top
  aligned : ∀ c i a, s.cellAddr c i = some a → c.align ∣ a
  apart : (ds.Pairwise fun d d' => d.region.Apart d'.region) → ∀ c c' i j a a', c.floor ≤ i → c'.floor ≤ j →
    s.cellAddr c i = some a → s.cellAddr c' j = some a' → (c, i) ≠ (c', j) → (Span.mk a c.bytes).Apart ⟨a', c'.bytes⟩
  framed : ∀ arena i, i < s.threads.cap → ∃ a, frameSlot s.threads arena i = some a ∧ threadFrameStride ∣ a
  frames : ∀ i, s.locate .frames i = s.locate (.slots .threads) i
  rings : ∀ i e o j, maxPipes ≤ i → s.locate (.slots .pipes) i = some (e, o) → j < pipeInflight →
    s.locate .exchanges (pipeExchangeAt i j) = some (e, o * pipeInflight + j)
  ringed : s.exchanges.cap = s.pipes.cap * pipeInflight
  zeroed : ∀ (d : Donation) n u tr, d.Accepted s → longZero d.start (d.units * strideOf d.kind) n s = .ok () u tr →
    d.Accepted u ∧ Grown ds u
  installs : ∀ (d : Donation) n, d.Accepted s → ∃ t tr, slabInstall d.kind d.start d.units n s = .ok true t tr ∧
    Grown (ds ++ [d]) t ∧ Donated s t ∧ ∀ c i, c.floor ≤ i → i < (s.chain c).cap → t.cellAddr c i = s.cellAddr c i

section
variable {s t : K} {d : Donation} {ds : List Donation}

theorem room_congr (h : t.shape = s.shape) : t.room = s.room := by
  simp only [K.shape, List.cons.injEq, Prod.mk.injEq] at h
  funext k
  cases k <;> simp [K.room, K.slab, Slab.bare, Slab.extentsLeft, h]

theorem headroom_congr (h : t.shape = s.shape) : t.headroom = s.headroom := by
  simp only [K.shape, List.cons.injEq, Prod.mk.injEq] at h
  funext k
  cases k <;> simp [K.headroom, K.slab, Slab.bare, h]

theorem Donation.Accepted.other (h : d.Accepted s) (same : t.shape = s.shape) : d.Accepted t where
  pad := h.pad
  start := h.start
  some := h.some
  room := room_congr same ▸ h.room
  headroom := headroom_congr same ▸ h.headroom

theorem Grown.transparent (laid : Build.Regular) (h : Grown ds s) : Transparent ds s where
  located _ _ hi := h.chained.isSome_iff hi
  placed c i e o hi := by
    rw [K.locate, Slab.locate_eq, Blocks.locate_eq_some]
    constructor
    · rintro ⟨x, here, ho, number⟩
      exact ⟨x, here, ho, by omega⟩
    · rintro ⟨x, here, ho, number⟩
      exact ⟨x, here, ho, by omega⟩
  inside _ _ _ := h.chained.inside
  aligned _ _ _ := h.chained.aligned laid
  apart regions _ _ _ _ _ _ := h.chained.apart regions
  framed _ _ := h.chained.framed laid
  frames _ := rfl
  rings _ _ _ _ := h.chained.rings
  ringed := h.chained.rings_cap
  zeroed d n u tr accepted run := by
    have kept : Keeps (fun _ => True) n Conduct.stays (fun t => t.shape = s.shape)
      (longZero d.start (d.units * strideOf d.kind)) :=
      bedrock_shape.serviced.longZero
    have same : u.shape = s.shape := (kept s rfl).ok run
    exact ⟨accepted.other same, h.other same⟩
  installs d n accepted := by
    obtain ⟨took, t, tr, run, rfl, chain⟩ := accepted.installs (n := n)
    have grows : wp (fun _ => True) n (slabInstall d.kind d.start d.units) (fun _ => Donated s)
      (.leaving Conduct.stays) s :=
      wp_slabInstall fun _ _ => id
    have donated : Donated s t := grows.ok run
    exact ⟨t, tr, run, h.donate accepted run, donated, fun c i hi old => h.chained.cellAddr_donate chain hi old⟩

end

end

end Sawos
