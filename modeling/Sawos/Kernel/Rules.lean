import Sawos.Kernel.Ground

/-! # Rules for the primitives of the kernel

What has to hold before each for a postcondition to hold after it, where stopping the machine is no failure. -/

namespace Sawos
open Exec

variable [Hal]

section
variable {G : Ev → Prop} {n : Nat} {A : Conduct K Ev} {s : K} {α : Type}

theorem wp_readProcess {i : Nat} {Q : ProcessSlot → K → Prop} :
    wp G n (processes.read i) Q (.leaving A) s ↔ (i < s.processes.cap → Q (s.processes.slot i) s) := wp_read

theorem wp_modifyProcess {i : Nat} {f : ProcessSlot → ProcessSlot} {Q : Unit → K → Prop} :
    wp G n (processes.modify i f) Q (.leaving A) s ↔
      (i < s.processes.cap → Q () { s with processes := s.processes.set i (f (s.processes.slot i)) }) := wp_modify

theorem wp_readThread {i : Nat} {Q : ThreadSlot → K → Prop} :
    wp G n (threads.read i) Q (.leaving A) s ↔ (i < s.threads.cap → Q (s.threads.slot i) s) := wp_read

theorem wp_modifyThread {i : Nat} {f : ThreadSlot → ThreadSlot} {Q : Unit → K → Prop} :
    wp G n (threads.modify i f) Q (.leaving A) s ↔
      (i < s.threads.cap → Q () { s with threads := s.threads.set i (f (s.threads.slot i)) }) := wp_modify

theorem wp_readMemory {i : Nat} {Q : MemorySlot → K → Prop} :
    wp G n (memories.read i) Q (.leaving A) s ↔ (i < s.memories.cap → Q (s.memories.slot i) s) := wp_read

theorem wp_modifyMemory {i : Nat} {f : MemorySlot → MemorySlot} {Q : Unit → K → Prop} :
    wp G n (memories.modify i f) Q (.leaving A) s ↔
      (i < s.memories.cap → Q () { s with memories := s.memories.set i (f (s.memories.slot i)) }) := wp_modify

theorem wp_readFreeRange {i : Nat} {Q : FreeRange → K → Prop} :
    wp G n (freeRanges.read i) Q (.leaving A) s ↔ (i < s.freeRanges.cap → Q (s.freeRanges.slot i) s) := wp_read

theorem wp_modifyFreeRange {i : Nat} {f : FreeRange → FreeRange} {Q : Unit → K → Prop} :
    wp G n (freeRanges.modify i f) Q (.leaving A) s ↔
      (i < s.freeRanges.cap → Q () { s with freeRanges := s.freeRanges.set i (f (s.freeRanges.slot i)) }) := wp_modify

theorem wp_readIoMemory {i : Nat} {Q : IoMemorySlot → K → Prop} :
    wp G n (ioMemories.read i) Q (.leaving A) s ↔ (i < s.ioMemories.cap → Q (s.ioMemories.slot i) s) := wp_read

theorem wp_readMapping {i : Nat} {Q : MappingSlot → K → Prop} :
    wp G n (mappings.read i) Q (.leaving A) s ↔ (i < s.mappings.cap → Q (s.mappings.slot i) s) := wp_read

theorem wp_modifyMapping {i : Nat} {f : MappingSlot → MappingSlot} {Q : Unit → K → Prop} :
    wp G n (mappings.modify i f) Q (.leaving A) s ↔
      (i < s.mappings.cap → Q () { s with mappings := s.mappings.set i (f (s.mappings.slot i)) }) := wp_modify

theorem wp_capacity {c : Column α} {Q : Nat → K → Prop} :
    wp G n c.capacity Q (.leaving A) s ↔ Q (c.get s).cap s := by
  simp [Column.capacity]

theorem wp_addWord {a b : Nat} {Q : Nat → K → Prop} :
    wp G n (addWord a b) Q (.leaving A) s ↔ (a + b < wordModulus → Q (a + b) s) := by
  simp [addWord, wp_ite]

theorem wp_subWord {a b : Nat} {Q : Nat → K → Prop} :
    wp G n (subWord a b) Q (.leaving A) s ↔ (b ≤ a → Q (a - b) s) := by
  simp [subWord, wp_ite]

theorem wp_alignUpWord {v a : Nat} {Q : Nat → K → Prop} :
    wp G n (alignUpWord v a) Q (.leaving A) s ↔ (alignUp v a < wordModulus → Q (alignUp v a) s) := by
  simp [alignUpWord, wp_ite]

theorem wp_bump {a : Nat} {Q : Nat → K → Prop} :
    wp G n (bump a) Q (.leaving A) s ↔ (a < 0xFFFF → Q (a + 1) s) := by
  simp [bump, wp_ite]

theorem wp_mark {A : K → Prop} {p : Point} {Q : Unit → K → Prop} :
    wp G n (mark p) Q (.leaving A) s ↔ (G (.mark p s) → Q () s) := by
  simp [mark]

theorem wp_fatalKernel {Q : α → K → Prop} : wp G n (fatalKernel : M α) Q (.leaving A) s ↔ True := by
  simp [fatalKernel]

theorem wp_prot {f : Hal.Prot → Hal.Prot} {Q : Unit → K → Prop} :
    wp G n (prot f) Q (.leaving A) s ↔ Q () { s with prot := f s.prot } := by
  simp [prot]

theorem wp_protTry {f : Hal.Prot → Option Hal.Prot} {Q : Unit → K → Prop} :
    wp G n (protTry f) Q (.leaving A) s ↔ (∀ u, f s.prot = some u → Q () { s with prot := u }) := by
  simp only [protTry, wp_bind, wp_reads]
  cases f s.prot <;> simp

theorem wp_allocMapping {Q : Option Nat → K → Prop} :
    wp G n allocMapping Q (.leaving A) s ↔ Q (s.mappings.find (·.state = .free)) s := by
  simp [allocMapping, alloc, mappings]

theorem wp_allocMemory {Q : Option Nat → K → Prop} :
    wp G n allocMemory Q (.leaving A) s ↔ Q (s.memories.find (·.state = .free)) s := by
  simp [allocMemory, alloc, memories]

theorem wp_allocThread {Q : Option Nat → K → Prop} :
    wp G n allocThread Q (.leaving A) s ↔ Q (s.threads.find (·.state = .free)) s := by
  simp [allocThread, alloc, threads]

theorem wp_allocFreeRange {Q : Option Nat → K → Prop} :
    wp G n (alloc freeRanges (·.state = .free)) Q (.leaving A) s ↔ Q (s.freeRanges.find (·.state = .free)) s := by
  simp [alloc, freeRanges]

theorem wp_markQuietly {p : Point} (quiet : ∀ e : Ev, e.quiet → A.emitted e) (runs : p ≠ .idle) (lives : p ≠ .stuck)
    {Q : Unit → K → Prop} (hQ : Q () s) : wp G n (mark p) Q (.leaving A) s :=
  wp_emits.mpr ⟨quiet _ ⟨runs, lives⟩, fun _ => hQ⟩

omit [Hal] in
/-- What a search finds is in the slab, and is what was sought. -/
theorem Slab.find_some {t : Slab α} {p : α → Bool} {i : Nat} (h : t.find p = some i) :
    i < t.cap ∧ p (t.slot i) = true := by
  have found := List.find?_some h
  have mem := List.mem_of_find?_eq_some h
  exact ⟨List.mem_range.mp mem, found⟩

theorem wp_sparesQuietly {S : List Part} {m : M α} {Q : α → K → Prop} (quiet : ∀ e : Ev, e.quiet → A.emitted e)
    (h : Spares S m) (hQ : ∀ a t, Agree S s t → Q a t) : wp G n m Q (.leaving A) s :=
  (h.wp quiet n s).imp hQ

theorem wp_spares {A : K → Prop} {S : List Part} {m : M α} {Q : α → K → Prop} (h : Spares S m)
    (hQ : ∀ a t, Agree S s t → Q a t) : wp G n m Q (.leaving A) s :=
  wp_sparesQuietly (fun _ _ => trivial) h hQ

end

/-! ### Primitives that return -/

section
variable {s : K} {n i : Nat}

theorem read_then {α β : Type} {c : Column α} {i : Nat} {f : α → M β} (hi : i < (c.get s).cap) :
    (c.read i >>= f) n s = f ((c.get s).slot i) n s := by
  unfold Column.read
  rw [bind_assoc, reads_then, if_pos hi, reads_then]

theorem lands_read {α : Type} {c : Column α} {i : Nat} {Q : α → K → Prop} (hi : i < (c.get s).cap)
    (h : Q ((c.get s).slot i) s) :
    Lands n (c.read i) Q s := by
  refine lands_bind (lands_reads ?_)
  rw [if_pos hi]
  exact lands_reads h

theorem lands_modify {α : Type} {c : Column α} {f : α → α} {Q : Unit → K → Prop} (hi : i < (c.get s).cap)
    (h : Q () (c.put s ((c.get s).set i (f ((c.get s).slot i))))) : Lands n (c.modify i f) Q s := by
  refine lands_bind (lands_reads ?_)
  rw [if_pos hi]
  exact lands_modifies h

theorem lands_addWord {a b : Nat} {Q : Nat → K → Prop} (fits : a + b < wordModulus) (h : Q (a + b) s) :
    Lands n (addWord a b) Q s := by
  unfold addWord
  rw [if_pos fits]
  exact lands_pure h

theorem lands_subWord {a b : Nat} {Q : Nat → K → Prop} (le : b ≤ a) (h : Q (a - b) s) : Lands n (subWord a b) Q s := by
  unfold subWord
  rw [if_pos le]
  exact lands_pure h

theorem lands_alignUpWord {v align : Nat} {Q : Nat → K → Prop} (fits : alignUp v align < wordModulus)
    (h : Q (alignUp v align) s) :
    Lands n (alignUpWord v align) Q s := by
  unfold alignUpWord
  rw [if_pos fits]
  exact lands_pure h

end

/-! ### The ready queue -/

/-- The state after the head `t` of the queue was taken off. -/
def K.popped (s : K) (t : Nat) : K :=
  let next := (s.threads.slot t).link
  { s with
    readyHead := next
    readyTail := if next.isNone then none else s.readyTail
    threads := s.threads.set t { s.threads.slot t with link := none } }

theorem agree_popped {S : List Part} {s : K} {t : Nat} (queue : Part.machine .ready ∉ S)
    (link : Part.thread .link ∉ S) :
    Agree S s (s.popped t) := fun x hx => by
  cases x with
  | thread x =>
    intro j
    cases x with
    | link => exact absurd hx link
    | _ => by_cases hj : j = t <;> simp [K.popped, hj]
  | machine x =>
    cases x with
    | ready => exact absurd hx queue
    | _ => simp [Parts.same, Part.same, K.shape, K.popped]
  | _ x => intro j; cases x <;> simp [K.popped]

section
variable {G : Ev → Prop} {n : Nat} {A : Conduct K Ev} {s : K}

theorem wp_readyPop_empty {Q : Option Nat → K → Prop} (empty : s.readyHead = none) (hQ : Q none s) :
    wp G n readyPop Q (.leaving A) s := by
  refine wp_bind.mpr (wp_reads.mpr ?_)
  rw [empty]
  exact wp_pure.mpr hQ

theorem wp_readyPop {t : Nat} {Q : Option Nat → K → Prop} (head : s.readyHead = some t)
    (hQ : t < s.threads.cap → Q (some t) (s.popped t)) : wp G n readyPop Q (.leaving A) s := by
  refine wp_bind.mpr (wp_reads.mpr ?_)
  rw [head]
  refine wp_bind.mpr (wp_readThread.mpr fun ht => wp_bind.mpr (wp_modifies.mpr ?_))
  have popped := hQ ht
  unfold K.popped at popped
  cases next : (s.threads.slot t).link with
  | none =>
    rw [next] at popped
    refine wp_bind.mpr (wp_whenever.mpr ⟨fun _ => wp_modifies.mpr ?_, nofun⟩)
    exact wp_bind.mpr (wp_modifyThread.mpr fun _ => wp_pure.mpr popped)
  | some q =>
    rw [next] at popped
    refine wp_bind.mpr (wp_whenever.mpr ⟨nofun, fun _ => ?_⟩)
    exact wp_bind.mpr (wp_modifyThread.mpr fun _ => wp_pure.mpr popped)

end

/-! ### Donated slots -/

/-- A slab that may have got more slots, each of them `zero`. -/
structure Slab.Grows {α : Type} (zero : α) (s t : Slab α) : Prop where
  cap : s.cap ≤ t.cap
  slot : ∀ i, t.slot i = if s.cap ≤ i ∧ i < t.cap then zero else s.slot i

omit [Hal] in
theorem Slab.Grows.refl {α : Type} {zero : α} (s : Slab α) : s.Grows zero s :=
  ⟨Nat.le_refl _, fun i => (if_neg (by omega)).symm⟩

omit [Hal] in
theorem Slab.Grows.trans {α : Type} {zero : α} {s t u : Slab α} (h : s.Grows zero t) (h' : t.Grows zero u) :
    s.Grows zero u := by
  have capH := h.cap
  have capH' := h'.cap
  refine ⟨by omega, fun i => ?_⟩
  rw [h'.slot, h.slot]
  split <;> split <;> first | rfl | (split <;> first | rfl | omega) | omega

omit [Hal] in
theorem Slab.Grows.old {α : Type} {zero : α} {s t : Slab α} (h : s.Grows zero t) {i : Nat} (hi : i < s.cap) :
    t.slot i = s.slot i := by
  rw [h.slot, if_neg (by omega)]

omit [Hal] in
theorem Slab.donatePaired_grows {α : Type} {zero : α} {s t : Slab α} {base slots side : Nat}
    (h : s.donatePaired zero base slots side = some t) : s.Grows zero t := by
  unfold Slab.donatePaired at h
  split at h
  · cases h
  split at h
  · cases h
  split at h
  · cases h
  cases h
  exact ⟨Nat.le_add_right _ _, fun i => rfl⟩

/-- The slabs of the second state are those of the first, some with more slots, and the rest is the same. -/
structure Donated (s t : K) : Prop where
  processes : s.processes.Grows .vacant t.processes
  threads : s.threads.Grows .vacant t.threads
  events : s.events.Grows .vacant t.events
  waiters : s.waiters.Grows .vacant t.waiters
  interrupts : s.interrupts.Grows .vacant t.interrupts
  timers : s.timers.Grows .vacant t.timers
  attachments : s.attachments.Grows .vacant t.attachments
  memories : s.memories.Grows .vacant t.memories
  freeRanges : s.freeRanges.Grows .vacant t.freeRanges
  ioMemories : s.ioMemories.Grows .vacant t.ioMemories
  mappings : s.mappings.Grows .vacant t.mappings
  pipes : s.pipes.Grows .vacant t.pipes
  exchanges : s.exchanges.Grows .vacant t.exchanges
  rest : ∀ x, x ≠ MachinePart.slabs → x ≠ .beyond → x.same s t

theorem Donated.refl (s : K) : Donated s s where
  processes := .refl _
  threads := .refl _
  events := .refl _
  waiters := .refl _
  interrupts := .refl _
  timers := .refl _
  attachments := .refl _
  memories := .refl _
  freeRanges := .refl _
  ioMemories := .refl _
  mappings := .refl _
  pipes := .refl _
  exchanges := .refl _
  rest x _ _ := (Part.machine x).same_refl s

theorem Donated.trans {s t u : K} (h : Donated s t) (h' : Donated t u) : Donated s u where
  processes := h.processes.trans h'.processes
  threads := h.threads.trans h'.threads
  events := h.events.trans h'.events
  waiters := h.waiters.trans h'.waiters
  interrupts := h.interrupts.trans h'.interrupts
  timers := h.timers.trans h'.timers
  attachments := h.attachments.trans h'.attachments
  memories := h.memories.trans h'.memories
  freeRanges := h.freeRanges.trans h'.freeRanges
  ioMemories := h.ioMemories.trans h'.ioMemories
  mappings := h.mappings.trans h'.mappings
  pipes := h.pipes.trans h'.pipes
  exchanges := h.exchanges.trans h'.exchanges
  rest x hx hb := (Part.machine x).same_trans (h.rest x hx hb) (h'.rest x hx hb)

section
variable {G : Ev → Prop} {n : Nat} {A : Conduct K Ev} {s : K}

theorem wp_donatePaired {α : Type} {c : Column α} {zero : α} {base slots side : Nat} {Q : Bool → K → Prop}
    (no : Q false s) (yes : ∀ slab, (c.get s).Grows zero slab → Q true (c.put s slab)) :
    wp G n (donatePaired c zero base slots side) Q (.leaving A) s := by
  refine wp_bind.mpr (wp_reads.mpr ?_)
  cases h : (c.get s).donatePaired zero base slots side with
  | none => exact wp_pure.mpr no
  | some slab => exact wp_bind.mpr (wp_modifies.mpr (wp_pure.mpr (yes slab (Slab.donatePaired_grows h))))

theorem wp_slabInstall {kind : SlabKind} {base slots : Nat} {Q : Bool → K → Prop} (hQ : ∀ b t, Donated s t → Q b t) :
    wp G n (slabInstall kind base slots) Q (.leaving A) s := by
  have no := fun b => hQ b s (.refl s)
  cases kind with
  | pipes =>
    refine wp_bind.mpr (wp_donatePaired (wp_pure.mpr (no false)) fun v hv => ?_)
    have grown : Donated s (pipes.put s v) :=
      { Donated.refl s with pipes := hv, rest := fun x hx _ => by cases x <;> simp_all [pipes] }
    refine wp_bind.mpr (wp_donatePaired ?_ fun u hu => ?_)
    · exact wp_bind.mpr (wp_fatalKernel.mpr trivial)
    · exact wp_bind.mpr (wp_pure.mpr (wp_pure.mpr (hQ _ _ (grown.trans
        { Donated.refl _ with exchanges := hu, rest := fun x hx _ => by cases x <;> simp_all [exchanges] }))))
  | events =>
    exact wp_donatePaired (no _) fun v hv => hQ _ _
      { Donated.refl s with events := hv, rest := fun x hx _ => by cases x <;> simp_all [events] }
  | waiters =>
    exact wp_donatePaired (no _) fun v hv => hQ _ _
      { Donated.refl s with waiters := hv, rest := fun x hx _ => by cases x <;> simp_all [waiters] }
  | interrupts =>
    exact wp_donatePaired (no _) fun v hv => hQ _ _
      { Donated.refl s with interrupts := hv, rest := fun x hx _ => by cases x <;> simp_all [interrupts] }
  | attachments =>
    exact wp_donatePaired (no _) fun v hv => hQ _ _
      { Donated.refl s with attachments := hv, rest := fun x hx _ => by cases x <;> simp_all [attachments] }
  | timers =>
    exact wp_donatePaired (no _) fun v hv => hQ _ _
      { Donated.refl s with timers := hv, rest := fun x hx _ => by cases x <;> simp_all [timers] }
  | memories =>
    exact wp_donatePaired (no _) fun v hv => hQ _ _
      { Donated.refl s with memories := hv, rest := fun x hx _ => by cases x <;> simp_all [memories] }
  | ioMemories =>
    exact wp_donatePaired (no _) fun v hv => hQ _ _
      { Donated.refl s with ioMemories := hv, rest := fun x hx _ => by cases x <;> simp_all [ioMemories] }
  | mappings =>
    exact wp_donatePaired (no _) fun v hv => hQ _ _
      { Donated.refl s with mappings := hv, rest := fun x hx _ => by cases x <;> simp_all [mappings] }
  | freeRanges =>
    exact wp_donatePaired (no _) fun v hv => hQ _ _
      { Donated.refl s with freeRanges := hv, rest := fun x hx _ => by cases x <;> simp_all [freeRanges] }
  | processes =>
    exact wp_donatePaired (no _) fun v hv => hQ _ _
      { Donated.refl s with processes := hv, rest := fun x hx hb => by cases x <;> simp_all [processes] }
  | threads =>
    exact wp_donatePaired (no _) fun v hv => hQ _ _
      { Donated.refl s with threads := hv, rest := fun x hx _ => by cases x <;> simp_all [threads] }

end

theorem spares_sweep {S : List Part} {α : Type} {c : Column α} {owned : α → Bool} {free : α → M Unit} {vacant : α}
    (hf : ∀ v, Spares S (free v)) (hw : ∀ i, Spares S (c.write i vacant)) : Spares S (sweep c owned free vacant) :=
  .bind spares_capacity fun _ => .countUp fun _ => .bind spares_read fun _ =>
    .whenever (.bind (hf _) fun _ => hw _)

theorem spares_sweepThreads {S : List Part} {p : Nat} (others : ∀ x, .thread x ∉ S) (queue : .machine .ready ∉ S) :
    Spares S (do
      readyRemoveProcess p
      sweep threads (fun t => t.process = p && t.state ≠ .free) (fun _ => pure ()) .vacant) :=
  .bind (spares_readyRemoveProcess (others .link) queue) fun _ =>
    spares_sweep (fun _ => spares_pure) fun _ => spares_threads fun x => .inr (others x)

theorem Linked.and {G : Ev → Prop} {n : Nat} {A A' I I' : K → Prop} (h : Linked G n A I) (h' : Linked G n A' I') :
    Linked G n (fun s => A s ∧ A' s : K → Prop) fun s => I s ∧ I' s where
  attach a v live := ((h.attach a v live).and (h'.attach a v live)).imp
    (fun _ hs => ⟨⟨hs.1.1, hs.2⟩, hs.1.2, hs.2⟩) fun _ => id
  detach w a := (h.detach w a).and (h'.detach w a)
  drop a v := ((h.drop a v).and (h'.drop a v)).imp (fun _ hs => ⟨⟨hs.1.1, hs.2⟩, hs.1.2, hs.2⟩) fun _ => id

theorem Ground.and {G : Ev → Prop} {n : Nat} {A A' I I' : K → Prop} (h : Ground G n A I) (h' : Ground G n A' I') :
    Ground G n (fun s => A s ∧ A' s : K → Prop) fun s => I s ∧ I' s where
  quiet _ _ := trivial
  about s t same hs := ⟨h.about s t same hs.1, h'.about s t same hs.2⟩
  release r := (h.release r).and (h'.release r)
  unmapped r := (h.unmapped r).and (h'.unmapped r)
  reclaim p := (h.reclaim p).and (h'.reclaim p)
  consume k i := (h.consume k i).and (h'.consume k i)
  freeInterrupt u i := (h.freeInterrupt u i).and (h'.freeInterrupt u i)
  freeTimer u i := (h.freeTimer u i).and (h'.freeTimer u i)
  ready t := (h.ready t).and (h'.ready t)
  take w := (h.take w).and (h'.take w)
  tie t x d := (h.tie t x d).and (h'.tie t x d)
  links := h.links.and h'.links

theorem Serviced.and {G : Ev → Prop} {n : Nat} {A A' I I' : K → Prop} (h : Serviced G n A I) (h' : Serviced G n A' I') :
    Serviced G n (fun s => A s ∧ A' s : K → Prop) fun s => I s ∧ I' s where
  toGround := h.toGround.and h'.toGround
  timerInterrupt := h.timerInterrupt.and h'.timerInterrupt
  externalIrq line := (h.externalIrq line).and (h'.externalIrq line)

/-- Placing an image keeps what recording its rows keeps. -/
theorem Serviced.placeImage {G : Ev → Prop} {n p img : Nat} {A : Conduct K Ev} {I : K → Prop} {dest : LoadRegion}
    {region : Option Nat} (h : Serviced G n A I) (hr : ∀ b t a k d r, Keeps G n A I (recordGrant p b t a k d r)) :
    Keeps G n A I (placeImage p img dest region) := by
  unfold Sawos.placeImage
  refine .bind (h.spares (by simp)) fun _ => .bind (h.spares (by simp)) fun _ => .bind (.loop fun _ => ?_) fun _ => ?_
  · refine .ite (.bind (h.spares (by simp)) fun _ => .bind (h.spares (by simp)) fun _ => ?_) keeps_pure
    refine .bind ?_ fun _ => keeps_pure
    refine .ite (.bind (h.spares (by simp)) fun _ => .bind (hr _ _ _ _ _ _) fun _ => keeps_pure) ?_
    refine .bind (h.spares ?_) fun _ => .bind (h.spares (by simp)) fun _ => .bind h.longCopy fun _ => ?_
    · exact .bind (by simp) fun _ => by simp
    refine .bind (h.spares (by simp)) fun _ => .bind (h.spares (by simp)) fun _ => .bind h.longZero fun _ => ?_
    refine .bind (h.spares (by simp)) fun _ => .bind (h.spares (by simp)) fun _ => ?_
    exact .bind (hr _ _ _ _ _ _) fun _ => keeps_pure
  · exact .bind (hr _ _ _ _ _ _) fun _ => keeps_pure

theorem spares_idle {S : List Part} (h : .machine .current ∉ S) :
    Spares S (modifies ({ · with currentThread := none }) : M Unit) :=
  spares_machine (fun _ => rfl) (by simp [h, K.shape])

/-- How `I` gives way to `I'` at the end of process `p`, while `J`, `L`, `M'`, `L'` and `N` hold in turn: before its
    threads go, before no thread runs, before its Mappings go, before its record goes, and before its quota goes. -/
structure Dismantles (G : Ev → Prop) (n : Nat) (A : Conduct K Ev) (p : Nat) (I I' J L M' L' N : K → Prop) : Prop where
  enter : ∀ k c, Leads G n A I J (processes.modify p ({ · with state := .gone, exitKind := k, exitCode := c }))
  before : Ground G n A J
  threads : Leads G n A J L (do
    readyRemoveProcess p
    sweep threads (fun t => t.process = p && t.state ≠ .free) (fun _ => pure ()) .vacant)
  idle : Leads G n A L M' (modifies ({ · with currentThread := none }) : M Unit)
  lines : Keeps G n A M'
    (sweep interrupts (fun q => q.process = p && q.state = .live) (fun q => irqMask q.line) .vacant)
  after : Ground G n A M'
  timers : Keeps G n A M' (do
    sweep timers (fun t => t.process = p && t.state = .live) (fun _ => pure ()) .vacant
    reprogramTimer)
  rows : Leads G n A M' L' (sweepMappings p)
  record : Leads G n A L' N (clearDomain p)
  boot : Leads G n A N N (clearBootHandles p)
  quota : Leads G n A N I' (quotaClear p)
  reclaim : Keeps G n A I' (reclaimProcessSlot p)

/-- The end of a process, from a state in which that it is to end says `I`. -/
theorem Dismantles.teardownFrom {G : Ev → Prop} {n p : Nat} {A : Conduct K Ev} {I₀ I I' J L M' L' N : K → Prop}
    (d : Dismantles G n A p I I' J L M' L' N) (start : ∀ s, I₀ s → G (.mark (.ends p) s) → I s)
    {k : ProcessStatusKind} {c : Nat}
    (told : A.emitted (.ending p k c)) : Leads G n A I₀ I' (teardown p k c) := by
  have h := d.before
  have h' := d.after
  unfold Sawos.teardown
  refine Leads.bind (J := I) (fun s hs => wp_emits.mpr ⟨h.quiet _ (by simp), start s hs⟩) fun _ => ?_
  refine (keeps_emits fun _ => told).leads.bind fun _ => ?_
  refine (d.enter k c).bind fun _ => ?_
  refine h.notify.leads.bind fun _ => ?_
  refine h.releasePendingCalls.leads.bind fun _ => ?_
  refine h.closeHandles.leads.bind fun _ => ?_
  rw [← bind_assoc]
  refine d.threads.bind fun _ => ?_
  refine d.idle.bind fun _ => ?_
  refine d.lines.leads.bind fun _ => ?_
  refine h'.sweepAttachments.leads.bind fun _ => ?_
  refine (h'.spares (spares_sweep ?_ ?_)).leads.bind fun _ => ?_
  · exact fun _ => spares_pure
  · exact fun _ => spares_events (by simp +decide)
  refine (h'.spares (spares_sweep ?_ ?_)).leads.bind fun _ => ?_
  · exact fun _ => spares_pure
  · exact fun _ => spares_waiters (by simp +decide)
  rw [← bind_assoc]
  refine d.timers.leads.bind fun _ => ?_
  refine h'.reapUnreferenced.leads.bind fun _ => ?_
  refine d.rows.bind fun _ => ?_
  refine d.record.bind fun _ => ?_
  refine d.boot.bind fun _ => ?_
  refine d.quota.bind fun _ => ?_
  exact d.reclaim.leads

theorem Dismantles.teardown {G : Ev → Prop} {n p : Nat} {A : Conduct K Ev} {I I' J L M' L' N : K → Prop}
    (d : Dismantles G n A p I I' J L M' L' N) {k : ProcessStatusKind} {c : Nat} (told : A.emitted (.ending p k c)) :
    Leads G n A I I' (Sawos.teardown p k c) := d.teardownFrom (fun _ hs _ => hs) told

/-! The sweeps over the devices of a process, for an invariant that has nothing to do with them. -/

theorem Bedrock.sweepLines {G : Ev → Prop} {n p : Nat} {A : Conduct K Ev} {I : K → Prop} (h : Bedrock G n A I) :
    Keeps G n A I (sweep interrupts (fun q => q.process = p && q.state = .live) (fun q => irqMask q.line) .vacant) :=
  h.spares (spares_sweep (fun _ => by simp +decide) fun _ => spares_interrupts (by simp +decide))

theorem Bedrock.sweepTimers {G : Ev → Prop} {n p : Nat} {A : Conduct K Ev} {I : K → Prop} (h : Bedrock G n A I) :
    Keeps G n A I (do
      sweep timers (fun t => t.process = p && t.state = .live) (fun _ => pure ()) .vacant
      reprogramTimer) := by
  refine .bind (h.spares (spares_sweep (fun _ => spares_pure) fun _ => spares_timers ?_)) fun _ => ?_
  · simp +decide
  · exact h.spares (by simp +decide)

/-- What spares nothing in particular keeps what says nothing. -/
theorem keeps_true {G : Ev → Prop} {n : Nat} {A : Conduct K Ev} {α : Type} {m : M α}
    (quiet : ∀ e : Ev, e.quiet → A.emitted e) (hm : Spares [] m) : Keeps G n A (fun _ => True) m :=
  hm.keepsQuietly (fun _ _ _ => id) quiet

theorem Bedrock.true {G : Ev → Prop} {n : Nat} {A : Conduct K Ev} (quiet : ∀ e : Ev, e.quiet → A.emitted e) :
    Bedrock G n A fun _ => True where
  quiet := quiet
  about _ _ _ := id
  release _ := keeps_true quiet (spares_memoryReleaseIfIdle (by simp))
  unmapped _ := keeps_true quiet (spares_mappings fun _ => .inr (by simp))
  reclaim _ := keeps_true quiet (spares_processes fun _ => .inr (by simp))

/-- The end of a process never leaves. -/
theorem teardown_returns {G : Ev → Prop} {n p : Nat} {A : Conduct K Ev} {k : ProcessStatusKind} {c : Nat}
    (quiet : ∀ e : Ev, e.quiet → A.emitted e) (told : A.emitted (.ending p k c)) :
    Leads G n A (fun _ => True) (fun _ => True) (teardown p k c) := by
  have all : Dismantles G n A p (fun _ => True) (fun _ => True) (fun _ => True) (fun _ => True) (fun _ => True)
      (fun _ => True) fun _ => True :=
    { enter := fun _ _ => keeps_true quiet (spares_processes fun _ => .inr (by simp))
      before := (Bedrock.true quiet).ground
      lines := (Bedrock.true quiet).sweepLines
      timers := (Bedrock.true quiet).sweepTimers
      threads := keeps_true quiet (spares_sweepThreads (by simp) (by simp))
      idle := fun _ _ => wp_modifies.mpr trivial
      after := (Bedrock.true quiet).ground
      rows := keeps_true quiet (by simp)
      record := keeps_true quiet (by simp)
      boot := keeps_true quiet (by simp)
      quota := keeps_true quiet (by simp)
      reclaim := (Bedrock.true quiet).reclaim p }
  exact all.teardown told

end Sawos
