import Sawos.Kernel.State
import Sawos.Lib.Effect

/-! # The parts of the kernel's state

Fields that change together for one purpose are one part. A lemma on what a function spares then serves every
invariant about that. -/

namespace Sawos
open Exec

inductive ProcessPart where
  | handles | table | quota | ration | limits | grants | state | refs | attachment | boot | image | exit
  deriving DecidableEq

@[simp] theorem ProcessPart.forall {P : ProcessPart → Prop} :
    (∀ x, P x) ↔ P .handles ∧ P .table ∧ P .quota ∧ P .ration ∧ P .limits ∧ P .grants ∧ P .state ∧ P .refs ∧
      P .attachment ∧ P .boot ∧ P .image ∧ P .exit :=
  ⟨fun h => ⟨h _, h _, h _, h _, h _, h _, h _, h _, h _, h _, h _, h _⟩, fun h x => by cases x <;> simp only [h]⟩

/-- The handles of a process as a table of names with generations. -/
@[simp] def ProcessSlot.table (slot : ProcessSlot) : Generations.Table :=
  ⟨fun h => (slot.handles h).gen, fun h => (slot.handles h).objType != .unbound, slot.history⟩

@[simp] def ProcessPart.same : ProcessPart → ProcessSlot → ProcessSlot → Prop
  | .handles, a, b => a.handles = b.handles
  | .table, a, b => Generations.Evolves handleGenerationModulus a.table b.table
  | .quota, a, b => a.quotaUsed = b.quotaUsed
  | .ration, a, b => a.quotaUsed .mapping = b.quotaUsed .mapping
  | .limits, a, b => a.quotaLimit = b.quotaLimit
  | .grants, a, b => a.grantCount = b.grantCount ∧ a.grants = b.grants ∧ a.imageRows = b.imageRows
  | .state, a, b => a.state = b.state
  | .refs, a, b => a.refs = b.refs
  | .attachment, a, b => a.attachment = b.attachment
  | .boot, a, b => a.bootHandles = b.bootHandles ∧ a.bootNext = b.bootNext ∧ a.bootLog = b.bootLog
  | .image, a, b => a.entry = b.entry ∧ a.stackTop = b.stackTop ∧ a.regionBase = b.regionBase ∧
      a.regionTop = b.regionTop ∧ a.rwBase = b.rwBase ∧ a.rwTop = b.rwTop
  | .exit, a, b => a.exitKind = b.exitKind ∧ a.exitCode = b.exitCode

inductive ThreadPart where
  | state | process | exitCode | joiners | link | waitBuf | callPipe | callClaim | callArgs
  deriving DecidableEq

@[simp] theorem ThreadPart.forall {P : ThreadPart → Prop} :
    (∀ x, P x) ↔ P .state ∧ P .process ∧ P .exitCode ∧ P .joiners ∧ P .link ∧ P .waitBuf ∧ P .callPipe ∧
      P .callClaim ∧ P .callArgs :=
  ⟨fun h => ⟨h _, h _, h _, h _, h _, h _, h _, h _, h _⟩, fun h x => by cases x <;> simp only [h]⟩

@[simp] def ThreadPart.same : ThreadPart → ThreadSlot → ThreadSlot → Prop
  | .state, a, b => a.state = b.state
  -- A free slot is not taken from another.
  | .process, a, b => a.process = b.process ∧ (b.state = .free → a.state = .free)
  | .exitCode, a, b => a.exitCode = b.exitCode
  | .joiners, a, b => a.joiners = b.joiners
  | .link, a, b => a.link = b.link
  | .waitBuf, a, b => a.waitBuf = b.waitBuf
  | .callPipe, a, b => a.callPipe = b.callPipe
  | .callClaim, a, b => a.callClaim = b.callClaim
  | .callArgs, a, b => a.callSrc = b.callSrc ∧ a.callLen = b.callLen

inductive EventPart where
  | state | word | attachment | refs
  deriving DecidableEq

@[simp] theorem EventPart.forall {P : EventPart → Prop} :
    (∀ x, P x) ↔ P .state ∧ P .word ∧ P .attachment ∧ P .refs :=
  ⟨fun h => ⟨h _, h _, h _, h _⟩, fun h x => by cases x <;> simp only [h]⟩

@[simp] def EventPart.same : EventPart → EventSlot → EventSlot → Prop
  | .state, a, b => a.state = b.state ∧ a.process = b.process ∧ a.mode = b.mode
  | .word, a, b => a.word = b.word
  | .attachment, a, b => a.attachment = b.attachment
  | .refs, a, b => a.refs = b.refs

inductive WaiterPart where
  | state | attached | blocked | refs
  deriving DecidableEq

@[simp] theorem WaiterPart.forall {P : WaiterPart → Prop} :
    (∀ x, P x) ↔ P .state ∧ P .attached ∧ P .blocked ∧ P .refs :=
  ⟨fun h => ⟨h _, h _, h _, h _⟩, fun h x => by cases x <;> simp only [h]⟩

@[simp] def WaiterPart.same : WaiterPart → WaiterSlot → WaiterSlot → Prop
  | .state, a, b => a.state = b.state ∧ a.process = b.process
  | .attached, a, b => a.attached = b.attached
  | .blocked, a, b => a.blocked = b.blocked
  | .refs, a, b => a.refs = b.refs

inductive InterruptPart where
  | state | pending | attachment | refs
  deriving DecidableEq

@[simp] theorem InterruptPart.forall {P : InterruptPart → Prop} :
    (∀ x, P x) ↔ P .state ∧ P .pending ∧ P .attachment ∧ P .refs :=
  ⟨fun h => ⟨h _, h _, h _, h _⟩, fun h x => by cases x <;> simp only [h]⟩

@[simp] def InterruptPart.same : InterruptPart → InterruptSlot → InterruptSlot → Prop
  | .state, a, b => a.state = b.state ∧ a.process = b.process ∧ a.line = b.line
  | .pending, a, b => a.pending = b.pending ∧ a.fires = b.fires
  | .attachment, a, b => a.attachment = b.attachment
  | .refs, a, b => a.refs = b.refs

inductive TimerPart where
  | state | time | attachment | refs
  deriving DecidableEq

@[simp] theorem TimerPart.forall {P : TimerPart → Prop} :
    (∀ x, P x) ↔ P .state ∧ P .time ∧ P .attachment ∧ P .refs :=
  ⟨fun h => ⟨h _, h _, h _, h _⟩, fun h x => by cases x <;> simp only [h]⟩

@[simp] def TimerPart.same : TimerPart → TimerSlot → TimerSlot → Prop
  | .state, a, b => a.state = b.state ∧ a.process = b.process ∧ a.clock = b.clock
  | .time, a, b => a.armed = b.armed ∧ a.deadlineNs = b.deadlineNs ∧ a.intervalNs = b.intervalNs ∧
      a.fires = b.fires ∧ a.history = b.history
  | .attachment, a, b => a.attachment = b.attachment
  | .refs, a, b => a.refs = b.refs

inductive AttachmentPart where
  | state | how | link
  deriving DecidableEq

@[simp] theorem AttachmentPart.forall {P : AttachmentPart → Prop} : (∀ x, P x) ↔ P .state ∧ P .how ∧ P .link :=
  ⟨fun h => ⟨h _, h _, h _⟩, fun h x => by cases x <;> simp only [h]⟩

@[simp] def AttachmentPart.same : AttachmentPart → Attachment → Attachment → Prop
  | .state, a, b => a.state = b.state ∧ a.kind = b.kind ∧ a.target = b.target ∧ a.waiter = b.waiter
  | .how, a, b => a.key = b.key ∧ a.oneshot = b.oneshot ∧ a.owns = b.owns
  | .link, a, b => a.link = b.link

inductive MemoryPart where
  | region | pool | maps | refs | owner
  deriving DecidableEq

@[simp] theorem MemoryPart.forall {P : MemoryPart → Prop} :
    (∀ x, P x) ↔ P .region ∧ P .pool ∧ P .maps ∧ P .refs ∧ P .owner :=
  ⟨fun h => ⟨h _, h _, h _, h _, h _⟩, fun h x => by cases x <;> simp only [h]⟩

@[simp] def MemoryPart.same : MemoryPart → MemorySlot → MemorySlot → Prop
  | .region, a, b => a.state = b.state ∧ a.base = b.base ∧ a.len = b.len ∧ a.root = b.root
  | .pool, a, b => a.freeHead = b.freeHead ∧ a.outBytes = b.outBytes ∧ a.dropped = b.dropped ∧ a.history = b.history
  | .maps, a, b => a.maps = b.maps
  | .refs, a, b => a.refs = b.refs
  | .owner, a, b => a.process = b.process

inductive FreeRangePart where
  | range | next
  deriving DecidableEq

@[simp] theorem FreeRangePart.forall {P : FreeRangePart → Prop} : (∀ x, P x) ↔ P .range ∧ P .next :=
  ⟨fun h => ⟨h _, h _⟩, fun h x => by cases x <;> simp only [h]⟩

@[simp] def FreeRangePart.same : FreeRangePart → FreeRange → FreeRange → Prop
  | .range, a, b => a.state = b.state ∧ a.base = b.base ∧ a.len = b.len
  | .next, a, b => a.next = b.next

inductive IoMemoryPart where
  | region | refs | owner
  deriving DecidableEq

@[simp] theorem IoMemoryPart.forall {P : IoMemoryPart → Prop} : (∀ x, P x) ↔ P .region ∧ P .refs ∧ P .owner :=
  ⟨fun h => ⟨h _, h _, h _⟩, fun h x => by cases x <;> simp only [h]⟩

@[simp] def IoMemoryPart.same : IoMemoryPart → IoMemorySlot → IoMemorySlot → Prop
  | .region, a, b => a.state = b.state ∧ a.base = b.base ∧ a.len = b.len
  | .refs, a, b => a.refs = b.refs
  | .owner, a, b => a.process = b.process

inductive MappingPart where
  | row | refs | owner
  deriving DecidableEq

@[simp] theorem MappingPart.forall {P : MappingPart → Prop} : (∀ x, P x) ↔ P .row ∧ P .refs ∧ P .owner :=
  ⟨fun h => ⟨h _, h _, h _⟩, fun h x => by cases x <;> simp only [h]⟩

@[simp] def MappingPart.same : MappingPart → MappingSlot → MappingSlot → Prop
  | .row, a, b => a.state = b.state ∧ a.target = b.target ∧ a.row = b.row ∧ a.installed = b.installed
  | .refs, a, b => a.refs = b.refs
  | .owner, a, b => a.process = b.process

inductive PipePart where
  | state | staged | inletAttachment | outletAttachment | inletRefs | outletRefs
  deriving DecidableEq

@[simp] theorem PipePart.forall {P : PipePart → Prop} :
    (∀ x, P x) ↔ P .state ∧ P .staged ∧ P .inletAttachment ∧ P .outletAttachment ∧ P .inletRefs ∧
      P .outletRefs :=
  ⟨fun h => ⟨h _, h _, h _, h _, h _, h _⟩, fun h x => by cases x <;> simp only [h]⟩

@[simp] def PipePart.same : PipePart → PipeSlot → PipeSlot → Prop
  | .state, a, b => a.state = b.state ∧ a.process = b.process
  | .staged, a, b => a.staged = b.staged
  | .inletAttachment, a, b => a.inletAttachment = b.inletAttachment
  | .outletAttachment, a, b => a.outletAttachment = b.outletAttachment
  | .inletRefs, a, b => a.inletRefs = b.inletRefs
  | .outletRefs, a, b => a.outletRefs = b.outletRefs

inductive ExchangePart where
  | state | data | replyRefs | requestRefs | replyAttach | requestAttach | caller | next | held
  deriving DecidableEq

@[simp] theorem ExchangePart.forall {P : ExchangePart → Prop} :
    (∀ x, P x) ↔ P .state ∧ P .data ∧ P .replyRefs ∧ P .requestRefs ∧ P .replyAttach ∧ P .requestAttach ∧
      P .caller ∧ P .next ∧ P .held :=
  ⟨fun h => ⟨h _, h _, h _, h _, h _, h _, h _, h _, h _⟩, fun h x => by cases x <;> simp only [h]⟩

@[simp] def ExchangePart.same : ExchangePart → Exchange → Exchange → Prop
  | .state, a, b => a.state = b.state
  | .data, a, b => a.len = b.len ∧ a.body = b.body
  | .replyRefs, a, b => a.replyRefs = b.replyRefs
  | .requestRefs, a, b => a.requestRefs = b.requestRefs
  | .replyAttach, a, b => a.replyAttach = b.replyAttach
  | .requestAttach, a, b => a.requestAttach = b.requestAttach
  | .caller, a, b => a.caller = b.caller
  | .next, a, b => a.next = b.next
  | .held, a, b => a.held = b.held

inductive MachinePart where
  | frames | current | ready | resched | protProcess | tick | delivery | stats | mem | prot | comparator
  | masks | clock | environment | slabs | beyond
  deriving DecidableEq

@[simp] theorem MachinePart.forall {P : MachinePart → Prop} :
    (∀ x, P x) ↔ P .frames ∧ P .current ∧ P .ready ∧ P .resched ∧ P .protProcess ∧ P .tick ∧ P .delivery ∧
      P .stats ∧ P .mem ∧ P .prot ∧ P .comparator ∧ P .masks ∧ P .clock ∧ P .environment ∧ P .slabs ∧
      P .beyond :=
  ⟨fun h => ⟨h _, h _, h _, h _, h _, h _, h _, h _, h _, h _, h _, h _, h _, h _, h _, h _⟩, fun h x =>
    by cases x <;> simp only [h]⟩

inductive Part where
  | process (x : ProcessPart)
  | thread (x : ThreadPart)
  | event (x : EventPart)
  | waiter (x : WaiterPart)
  | interrupt (x : InterruptPart)
  | timer (x : TimerPart)
  | attachment (x : AttachmentPart)
  | memory (x : MemoryPart)
  | freeRange (x : FreeRangePart)
  | ioMemory (x : IoMemoryPart)
  | mapping (x : MappingPart)
  | pipe (x : PipePart)
  | exchange (x : ExchangePart)
  | machine (x : MachinePart)
  deriving DecidableEq

section
variable [Hal]

/-- The capacities of the slabs, and the memory that they were given. -/
def K.shape (s : K) : List (Nat × List Extent) :=
  [(s.processes.cap, s.processes.extents), (s.threads.cap, s.threads.extents),
    (s.events.cap, s.events.extents), (s.waiters.cap, s.waiters.extents),
    (s.interrupts.cap, s.interrupts.extents), (s.timers.cap, s.timers.extents),
    (s.attachments.cap, s.attachments.extents), (s.memories.cap, s.memories.extents),
    (s.freeRanges.cap, s.freeRanges.extents), (s.ioMemories.cap, s.ioMemories.extents),
    (s.mappings.cap, s.mappings.extents), (s.pipes.cap, s.pipes.extents),
    (s.exchanges.cap, s.exchanges.extents)]

@[simp] def MachinePart.same : MachinePart → K → K → Prop
  | .frames, s, t => s.frames = t.frames
  | .current, s, t => s.currentThread = t.currentThread
  | .ready, s, t => s.readyHead = t.readyHead ∧ s.readyTail = t.readyTail
  | .resched, s, t => s.needResched = t.needResched ∧ s.sliceLeft = t.sliceLeft
  | .protProcess, s, t => s.lastProtProcess = t.lastProtProcess
  | .tick, s, t => s.tickPeriodNs = t.tickPeriodNs ∧ s.nextTickNs = t.nextTickNs
  | .delivery, s, t => s.inDelivery = t.inDelivery
  | .stats, s, t => s.stats = t.stats
  | .mem, s, t => s.mem = t.mem
  | .prot, s, t => s.prot = t.prot
  | .comparator, s, t => s.comparator = t.comparator
  | .masks, s, t => s.masks = t.masks
  | .clock, s, t => s.now = t.now
  | .environment, s, t => s.polls = t.polls ∧ s.lapse = t.lapse
  | .slabs, s, t => s.shape = t.shape
  -- No process is in a slot that is not there yet.
  | .beyond, s, t => s.processes.cap = t.processes.cap ∧
      ∀ i, s.processes.cap ≤ i → s.processes.slot i = t.processes.slot i

def Part.same : Part → K → K → Prop
  | .process x, s, t => ∀ i, x.same (s.processes.slot i) (t.processes.slot i)
  | .thread x, s, t => ∀ i, x.same (s.threads.slot i) (t.threads.slot i)
  | .event x, s, t => ∀ i, x.same (s.events.slot i) (t.events.slot i)
  | .waiter x, s, t => ∀ i, x.same (s.waiters.slot i) (t.waiters.slot i)
  | .interrupt x, s, t => ∀ i, x.same (s.interrupts.slot i) (t.interrupts.slot i)
  | .timer x, s, t => ∀ i, x.same (s.timers.slot i) (t.timers.slot i)
  | .attachment x, s, t => ∀ i, x.same (s.attachments.slot i) (t.attachments.slot i)
  | .memory x, s, t => ∀ i, x.same (s.memories.slot i) (t.memories.slot i)
  | .freeRange x, s, t => ∀ i, x.same (s.freeRanges.slot i) (t.freeRanges.slot i)
  | .ioMemory x, s, t => ∀ i, x.same (s.ioMemories.slot i) (t.ioMemories.slot i)
  | .mapping x, s, t => ∀ i, x.same (s.mappings.slot i) (t.mappings.slot i)
  | .pipe x, s, t => ∀ i, x.same (s.pipes.slot i) (t.pipes.slot i)
  | .exchange x, s, t => ∀ i, x.same (s.exchanges.slot i) (t.exchanges.slot i)
  | .machine x, s, t => x.same s t

theorem Part.same_refl (x : Part) (s : K) : x.same s s := by
  cases x with
  | machine x => cases x <;> simp [Part.same]
  | _ x => intro i; cases x <;> simp

theorem Part.same_trans {x : Part} {s t u : K} (h : x.same s t) (h' : x.same t u) : x.same s u := by
  cases x with
  | machine x => cases x <;> simp_all [Part.same]
  | process x =>
    intro i
    have step := h i
    have step' := h' i
    cases x with
    | table => exact Generations.Evolves.trans step step'
    | _ => simp_all
  | _ x =>
    intro i
    have step := h i
    have step' := h' i
    cases x <;> simp_all

/-- Everything but the end of a process, and that nothing runs. -/
@[simp] def Ev.quiet : Ev → Prop
  | .ending _ _ _ => False
  | .mark p _ => p ≠ .idle ∧ p ≠ .stuck
  | .answered _ _ _ | .console _ | .irqMask _ | .irqUnmask _ | .irqComplete _ => True

instance : Parts K Part Ev where
  quiet := Ev.quiet
  same := Part.same
  refl := Part.same_refl
  trans _ _ _ _ := Part.same_trans

/-! ### Slots -/

section
variable {S : List Part} {α : Type} {c : Column α} {i : Nat}

@[simp] theorem spares_read : Spares S (c.read i) :=
  .bind spares_reads fun _ => .ite spares_reads spares_halt

@[simp] theorem spares_capacity : Spares S c.capacity := spares_reads

@[simp] theorem quiet_iff {e : Ev} : Parts.quiet K e ↔ e.quiet := Iff.rfl

@[simp] theorem spares_mark {p : Point} (runs : p ≠ .idle) (lives : p ≠ .stuck) : Spares S (mark p) :=
  spares_emits fun _ => ⟨runs, lives⟩

theorem spares_modify {f : α → α}
    (h : ∀ s, i < (c.get s).cap → Agree S s (c.put s ((c.get s).set i (f ((c.get s).slot i))))) :
    Spares S (c.modify i f) := fun n s => by
  refine wp_bind.mpr (wp_reads.mpr (wp_ite.mpr ⟨fun hi => wp_modifies.mpr (h s ?_), fun _ => wp_halt.mpr trivial⟩))
  simpa using hi

theorem spares_processes {f : ProcessSlot → ProcessSlot} (h : ∀ x, (∀ v, x.same v (f v)) ∨ .process x ∉ S) :
    Spares S (processes.modify i f) := spares_modify fun s hi x hx => by
  cases x with
  | process x =>
    intro j
    by_cases hj : j = i
    · simpa [processes, hj] using (h x).resolve_right (not_not.mpr hx) _
    · simpa [processes, hj] using (Part.process x).same_refl s j
  | machine x =>
    cases x with
    | beyond =>
      refine ⟨rfl, fun j hj => ?_⟩
      have other : j ≠ i := fun h => absurd hi (Nat.not_lt.mpr (h ▸ hj))
      simp [processes, other]
    | _ => simp [Parts.same, Part.same, K.shape, processes]
  | _ x => intro j; cases x <;> simp [processes]

theorem spares_threads {f : ThreadSlot → ThreadSlot} (h : ∀ x, (∀ v, x.same v (f v)) ∨ .thread x ∉ S) :
    Spares S (threads.modify i f) := spares_modify fun s _ x hx => by
  cases x with
  | thread x =>
    intro j
    by_cases hj : j = i
    · simpa [threads, hj] using (h x).resolve_right (not_not.mpr hx) _
    · simpa [threads, hj] using (Part.thread x).same_refl s j
  | machine x => cases x <;> simp [Parts.same, Part.same, K.shape, threads]
  | _ x => intro j; cases x <;> simp [threads]

theorem spares_events {f : EventSlot → EventSlot} (h : ∀ x, (∀ v, x.same v (f v)) ∨ .event x ∉ S) :
    Spares S (events.modify i f) := spares_modify fun s _ x hx => by
  cases x with
  | event x =>
    intro j
    by_cases hj : j = i
    · simpa [events, hj] using (h x).resolve_right (not_not.mpr hx) _
    · simpa [events, hj] using (Part.event x).same_refl s j
  | machine x => cases x <;> simp [Parts.same, Part.same, K.shape, events]
  | _ x => intro j; cases x <;> simp [events]

theorem spares_waiters {f : WaiterSlot → WaiterSlot} (h : ∀ x, (∀ v, x.same v (f v)) ∨ .waiter x ∉ S) :
    Spares S (waiters.modify i f) := spares_modify fun s _ x hx => by
  cases x with
  | waiter x =>
    intro j
    by_cases hj : j = i
    · simpa [waiters, hj] using (h x).resolve_right (not_not.mpr hx) _
    · simpa [waiters, hj] using (Part.waiter x).same_refl s j
  | machine x => cases x <;> simp [Parts.same, Part.same, K.shape, waiters]
  | _ x => intro j; cases x <;> simp [waiters]

theorem spares_interrupts {f : InterruptSlot → InterruptSlot} (h : ∀ x, (∀ v, x.same v (f v)) ∨ .interrupt x ∉ S) :
    Spares S (interrupts.modify i f) := spares_modify fun s _ x hx => by
  cases x with
  | interrupt x =>
    intro j
    by_cases hj : j = i
    · simpa [interrupts, hj] using (h x).resolve_right (not_not.mpr hx) _
    · simpa [interrupts, hj] using (Part.interrupt x).same_refl s j
  | machine x => cases x <;> simp [Parts.same, Part.same, K.shape, interrupts]
  | _ x => intro j; cases x <;> simp [interrupts]

theorem spares_timers {f : TimerSlot → TimerSlot} (h : ∀ x, (∀ v, x.same v (f v)) ∨ .timer x ∉ S) :
    Spares S (timers.modify i f) := spares_modify fun s _ x hx => by
  cases x with
  | timer x =>
    intro j
    by_cases hj : j = i
    · simpa [timers, hj] using (h x).resolve_right (not_not.mpr hx) _
    · simpa [timers, hj] using (Part.timer x).same_refl s j
  | machine x => cases x <;> simp [Parts.same, Part.same, K.shape, timers]
  | _ x => intro j; cases x <;> simp [timers]

theorem spares_attachments {f : Attachment → Attachment} (h : ∀ x, (∀ v, x.same v (f v)) ∨ .attachment x ∉ S) :
    Spares S (attachments.modify i f) := spares_modify fun s _ x hx => by
  cases x with
  | attachment x =>
    intro j
    by_cases hj : j = i
    · simpa [attachments, hj] using (h x).resolve_right (not_not.mpr hx) _
    · simpa [attachments, hj] using (Part.attachment x).same_refl s j
  | machine x => cases x <;> simp [Parts.same, Part.same, K.shape, attachments]
  | _ x => intro j; cases x <;> simp [attachments]

theorem spares_memories {f : MemorySlot → MemorySlot} (h : ∀ x, (∀ v, x.same v (f v)) ∨ .memory x ∉ S) :
    Spares S (memories.modify i f) := spares_modify fun s _ x hx => by
  cases x with
  | memory x =>
    intro j
    by_cases hj : j = i
    · simpa [memories, hj] using (h x).resolve_right (not_not.mpr hx) _
    · simpa [memories, hj] using (Part.memory x).same_refl s j
  | machine x => cases x <;> simp [Parts.same, Part.same, K.shape, memories]
  | _ x => intro j; cases x <;> simp [memories]

theorem spares_freeRanges {f : FreeRange → FreeRange} (h : ∀ x, (∀ v, x.same v (f v)) ∨ .freeRange x ∉ S) :
    Spares S (freeRanges.modify i f) := spares_modify fun s _ x hx => by
  cases x with
  | freeRange x =>
    intro j
    by_cases hj : j = i
    · simpa [freeRanges, hj] using (h x).resolve_right (not_not.mpr hx) _
    · simpa [freeRanges, hj] using (Part.freeRange x).same_refl s j
  | machine x => cases x <;> simp [Parts.same, Part.same, K.shape, freeRanges]
  | _ x => intro j; cases x <;> simp [freeRanges]

theorem spares_ioMemories {f : IoMemorySlot → IoMemorySlot} (h : ∀ x, (∀ v, x.same v (f v)) ∨ .ioMemory x ∉ S) :
    Spares S (ioMemories.modify i f) := spares_modify fun s _ x hx => by
  cases x with
  | ioMemory x =>
    intro j
    by_cases hj : j = i
    · simpa [ioMemories, hj] using (h x).resolve_right (not_not.mpr hx) _
    · simpa [ioMemories, hj] using (Part.ioMemory x).same_refl s j
  | machine x => cases x <;> simp [Parts.same, Part.same, K.shape, ioMemories]
  | _ x => intro j; cases x <;> simp [ioMemories]

theorem spares_mappings {f : MappingSlot → MappingSlot} (h : ∀ x, (∀ v, x.same v (f v)) ∨ .mapping x ∉ S) :
    Spares S (mappings.modify i f) := spares_modify fun s _ x hx => by
  cases x with
  | mapping x =>
    intro j
    by_cases hj : j = i
    · simpa [mappings, hj] using (h x).resolve_right (not_not.mpr hx) _
    · simpa [mappings, hj] using (Part.mapping x).same_refl s j
  | machine x => cases x <;> simp [Parts.same, Part.same, K.shape, mappings]
  | _ x => intro j; cases x <;> simp [mappings]

theorem spares_pipes {f : PipeSlot → PipeSlot} (h : ∀ x, (∀ v, x.same v (f v)) ∨ .pipe x ∉ S) :
    Spares S (pipes.modify i f) := spares_modify fun s _ x hx => by
  cases x with
  | pipe x =>
    intro j
    by_cases hj : j = i
    · simpa [pipes, hj] using (h x).resolve_right (not_not.mpr hx) _
    · simpa [pipes, hj] using (Part.pipe x).same_refl s j
  | machine x => cases x <;> simp [Parts.same, Part.same, K.shape, pipes]
  | _ x => intro j; cases x <;> simp [pipes]

theorem spares_exchanges {f : Exchange → Exchange} (h : ∀ x, (∀ v, x.same v (f v)) ∨ .exchange x ∉ S) :
    Spares S (exchanges.modify i f) := spares_modify fun s _ x hx => by
  cases x with
  | exchange x =>
    intro j
    by_cases hj : j = i
    · simpa [exchanges, hj] using (h x).resolve_right (not_not.mpr hx) _
    · simpa [exchanges, hj] using (Part.exchange x).same_refl s j
  | machine x => cases x <;> simp [Parts.same, Part.same, K.shape, exchanges]
  | _ x => intro j; cases x <;> simp [exchanges]

/-! ### What is not in a slab -/

def K.tables (s : K) := (s.processes, s.threads, s.events, s.waiters, s.interrupts, s.timers, s.attachments, s.memories,
  s.freeRanges, s.ioMemories, s.mappings, s.pipes, s.exchanges)

theorem agree_machine {s t : K} (tables : t.tables = s.tables) (h : ∀ x, x.same s t ∨ .machine x ∉ S) :
    Agree S s t := fun x hx => by
  cases x with
  | machine x => exact (h x).resolve_right (not_not.mpr hx)
  | _ x =>
    simp only [K.tables, Prod.mk.injEq] at tables
    intro j
    cases x <;> simp [tables]

theorem spares_machine {f : K → K} (hf : ∀ s, (f s).tables = s.tables)
    (h : ∀ x, (∀ s, x.same s (f s)) ∨ .machine x ∉ S) : Spares S (modifies f : M Unit) :=
  .modifies fun s => agree_machine (hf s) fun x => (h x).imp_left fun same => same s

/-- Another thread runs from here on, or none. -/
@[simp] theorem spares_current {t : Option Nat} (h : .machine .current ∉ S) :
    Spares S (modifies ({ · with currentThread := t }) : M Unit) :=
  spares_machine (fun _ => rfl) (by simp [K.shape, h])

@[simp] theorem spares_dispatch {t : Option Nat} {ticks : Nat} (h : .machine .current ∉ S)
    (h' : .machine .resched ∉ S) :
    Spares S (modifies ({ · with currentThread := t, sliceLeft := ticks }) : M Unit) :=
  spares_machine (fun _ => rfl) (by simp [K.shape, h, h'])

@[simp] theorem spares_sliceLeft {ticks : Nat} (h : .machine .resched ∉ S) :
    Spares S (modifies ({ · with sliceLeft := ticks }) : M Unit) :=
  spares_machine (fun _ => rfl) (by simp [K.shape, h])

/-- The protection hardware holds another record, or none. -/
@[simp] theorem spares_lastProtProcess {p : Option Nat} (h : .machine .protProcess ∉ S) :
    Spares S (modifies ({ · with lastProtProcess := p }) : M Unit) :=
  spares_machine (fun _ => rfl) (by simp [K.shape, h])

/-- Other bytes in memory. -/
theorem agree_mem {s : K} {m : Nat → UInt8} (h : .machine .mem ∉ S) : Agree S s { s with mem := m } :=
  agree_machine rfl (by simp [K.shape, h])

/-- Other work of the environment, and other statistics. -/
theorem agree_around {s : K} {l l' : List Nat} {rows : Nat → StatsRow} (h : .machine .environment ∉ S)
    (h' : .machine .stats ∉ S) :
    Agree S s { s with polls := l, lapse := l', stats := rows } :=
  agree_machine rfl (by simp [K.shape, h, h'])

end

end

end Sawos
