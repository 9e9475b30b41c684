import Sawos.Kernel.Effects

/-! # Invariants about memory, grants and devices

The ground is the memory pool, the records and what the protection unit holds, with the boot sets of processes, the
lines and the timers. Most of the kernel leaves it alone; what a cascade does to it, it does through a few routines. -/

namespace Sawos
open Exec

variable [Hal]

section
variable {G : Ev → Prop} {n : Nat} {A : Conduct K Ev} {s : K} {α : Type}

theorem wp_read {c : Column α} {i : Nat} {Q : α → K → Prop} :
    wp G n (c.read i) Q (.leaving A) s ↔ (i < (c.get s).cap → Q ((c.get s).slot i) s) := by
  simp [Column.read, wp_ite]

theorem wp_modify {c : Column α} {i : Nat} {f : α → α} {Q : Unit → K → Prop} :
    wp G n (c.modify i f) Q (.leaving A) s ↔
      (i < (c.get s).cap → Q () (c.put s ((c.get s).set i (f ((c.get s).slot i))))) := by
  simp [Column.modify, wp_ite]

end

def standingParts : List Part := [.process .grants, .process .image, .process .state, .memory .region, .memory .pool,
  .memory .maps, .freeRange .range, .freeRange .next, .mapping .row, .machine .prot, .machine .slabs, .process .limits,
  .thread .process, .process .table, .machine .beyond, .process .ration]

/-- Which thread runs, too, is not for a cascade to change. -/
def bedrockParts : List Part := .machine .current :: standingParts

/-- What an attachment is for, and by which a line or a timer is waited for. -/
def linkParts : List Part := [.attachment .state, .interrupt .attachment, .timer .attachment]

/-- How a process starts and ends, and what the devices and the clock are asked for. -/
def watchParts : List Part := [.process .boot, .process .exit, .interrupt .state, .interrupt .pending, .timer .state,
  .timer .time, .machine .masks, .machine .comparator, .machine .tick, .machine .clock] ++ linkParts

/-- Which threads are ready, and in which order. -/
def queueParts : List Part := [.thread .state, .thread .link, .machine .ready]

def groundParts : List Part := bedrockParts ++ watchParts ++ queueParts

/-- Those that only the making and the end of processes and threads change. -/
def lifeParts : List Part := [.process .state, .process .limits, .process .table, .thread .process, .machine .current,
  .machine .slabs, .machine .beyond]

/-- An invariant that comes through the making and the end of an attachment. -/
structure Linked (G : Ev → Prop) (n : Nat) (A : Conduct K Ev) (I : K → Prop) : Prop where
  attach : ∀ a v, v.state = .live → Leads G n A (fun s => I s ∧ (s.attachments.slot a).state = .free) I (do
    attachments.write a v
    waiters.modify v.waiter ({ · with attached := some a })
    setWaitableAttachment v.kind v.target (some a))
  detach : ∀ w a, Keeps G n A I (detachAttachment w a)
  drop : ∀ a v, Leads G n A (fun s => I s ∧ s.attachments.slot a = v) I (do
    attachments.write a .vacant
    setWaitableAttachment v.kind v.target none)

/-- An invariant that has nothing to do with them. -/
theorem Linked.plain {G : Ev → Prop} {n : Nat} {A : Conduct K Ev} {I : K → Prop} {S : List Part}
    (quiet : ∀ e : Ev, e.quiet → A.emitted e) (about : ∀ s t, Agree S s t → I s → I t)
    (clear : ∀ x ∈ attachmentParts, x ∉ S) : Linked G n A I := by
  have spares : ∀ {α : Type} {m : M α}, Spares S m → Keeps G n A I m := fun hm => hm.keepsQuietly about quiet
  have back : ∀ x ∈ attachParts, x ∉ S := fun x hx => clear x (List.mem_append_right _ hx)
  have write : ∀ a v, Spares S (attachments.write a v) := fun a v =>
    spares_attachments fun x => .inr (clear _ (by cases x <;> decide))
  refine ⟨fun a v _ s hs => ?_, fun w a => spares (spares_detachAttachment clear), fun a v s hs => ?_⟩
  · refine spares (.bind (write a v) fun _ => .bind (spares_waiters fun x => ?_) fun _ =>
      spares_setWaitableAttachment back) s hs.1
    cases x with
    | attached => exact .inr (clear _ (by decide))
    | _ => exact .inl fun _ => by simp
  · exact spares (.bind (write a _) fun _ => spares_setWaitableAttachment back) s hs.1

/-- An invariant about the ground that survives what a cascade does to it. -/
structure Ground (G : Ev → Prop) (n : Nat) (A : Conduct K Ev) (I : K → Prop) : Prop where
  quiet : ∀ e : Ev, e.quiet → A.emitted e
  about : ∀ s t, Agree groundParts s t → I s → I t
  release : ∀ r, Keeps G n A I (memoryReleaseIfIdle r)
  unmapped : ∀ r, Keeps G n A I (mappings.write r .vacant)
  reclaim : ∀ p, Keeps G n A I (reclaimProcessSlot p)
  consume : ∀ k i, Keeps G n A I (waitableConsume k i)
  freeInterrupt : ∀ u i, Keeps G n A I (Cascade.freeObject u .interrupt i)
  freeTimer : ∀ u i, Keeps G n A I (Cascade.freeObject u .timer i)
  ready : ∀ t, Keeps G n A I (makeRunnable t)
  take : ∀ w, Keeps G n A I (takeBlocked w)
  tie : ∀ t x d, Keeps G n A I (tieCallReply t x d)
  links : Linked G n A I

namespace Ground
variable {G : Ev → Prop} {n : Nat} {A : Conduct K Ev} {I : K → Prop}

theorem spares (h : Ground G n A I) {α : Type} {m : M α} (hm : Spares groundParts m) : Keeps G n A I m :=
  hm.keepsQuietly h.about h.quiet

section
variable (h : Ground G n A I) {unref : ObjType → Nat → M Unit} (hu : ∀ k i, Keeps G n A I (unref k i))
include h

theorem refObject {k : ObjType} {i : Nat} : Keeps G n A I (refObject k i) :=
  h.spares (by simp +decide)

theorem detachAttachment {w a : Nat} : Keeps G n A I (detachAttachment w a) :=
  h.links.detach w a

theorem revokeBlocked {w : Nat} : Keeps G n A I (revokeBlocked w) := by
  unfold Sawos.revokeBlocked
  repeat' first
    | with_reducible refine .bind ?_ fun _ => ?_
    | with_reducible refine .loop fun _ => ?_
    | with_reducible exact h.ready _
    | solve | refine h.spares ?_; simp +decide
    | solve | with_reducible exact h.spares (spares_waiters (by simp +decide))
    | solve | with_reducible exact h.spares (spares_threads (by simp +decide))
    | split

include hu

theorem holdRef {p x i word : Nat} : Keeps G n A I (Cascade.holdRef unref p x i word) := by
  unfold Cascade.holdRef
  repeat' first
    | with_reducible refine .bind ?_ fun _ => ?_
    | with_reducible refine .whenever ?_
    | with_reducible exact hu _ _
    | with_reducible exact h.refObject
    | solve | refine h.spares ?_; simp +decide
    | solve | with_reducible exact h.spares (spares_exchanges (by simp +decide))
    | split

theorem holdStaged {p x : Nat} {args : PipeSendRecord} : Keeps G n A I (Cascade.holdStaged unref p x args) :=
  .countUp fun _ => h.holdRef hu

theorem mintRef {p : Nat} {ref : StagedRef} : Keeps G n A I (Cascade.mintRef unref p ref) := by
  unfold Cascade.mintRef
  repeat' first
    | with_reducible refine .bind ?_ fun _ => ?_
    | with_reducible refine .whenever ?_
    | with_reducible exact hu _ _
    | solve | refine h.spares ?_; simp +decide
    | split

theorem mintRefs {p k i : Nat} {held : Nat → StagedRef} : Keeps G n A I (Cascade.mintRefs unref p held k i) := by
  induction k generalizing i with
  | zero => exact keeps_pure
  | succ k ih => exact .bind (h.mintRef hu) fun _ => .bind ih fun _ => keeps_pure

theorem mintStaged {x p : Nat} : Keeps G n A I (Cascade.mintStaged unref x p) := by
  unfold Cascade.mintStaged
  repeat' first
    | with_reducible refine .bind ?_ fun _ => ?_
    | with_reducible exact h.mintRefs hu
    | solve | refine h.spares ?_; simp +decide

omit h in
theorem releaseStaged {held : Nat → StagedRef} : Keeps G n A I (Cascade.releaseStaged unref held) :=
  .countUp fun _ => .whenever (hu _ _)

theorem pipeDropStaged {c : Nat} : Keeps G n A I (Cascade.pipeDropStaged unref c) := by
  unfold Cascade.pipeDropStaged
  repeat' first
    | with_reducible refine .bind ?_ fun _ => ?_
    | with_reducible refine .whenever ?_
    | with_reducible refine .loop fun _ => ?_
    | with_reducible exact releaseStaged hu
    | solve | refine h.spares ?_; simp +decide
    | solve | with_reducible exact h.spares (spares_pipes (by simp +decide))
    | solve | with_reducible exact h.spares (spares_exchanges (by simp +decide))
    | split

theorem endAttachment {e : Bool} {w a t : Nat} {k : WaitableKind} :
    Keeps G n A I (Cascade.endAttachment unref e w a k t) := by
  unfold Cascade.endAttachment Cascade.unrefWaitable
  exact .whenever (.bind h.detachAttachment fun _ => hu _ _)

theorem deliverTake {p dst key w a c : Nat} {ends : Bool} :
    Keeps G n A I (Cascade.deliverTake unref p dst key w a c ends) := by
  unfold Cascade.deliverTake
  repeat' first
    | with_reducible refine .bind ?_ fun _ => ?_
    | with_reducible refine .whenever ?_
    | with_reducible exact h.mintStaged hu
    | with_reducible exact h.endAttachment hu
    | solve | refine h.spares ?_; simp +decide
    | solve | with_reducible exact h.spares (spares_exchanges (by simp +decide))
    | split

theorem mintReply {b : Bool} {x p : Nat} : Keeps G n A I (Cascade.mintReply unref b x p) := by
  unfold Cascade.mintReply
  repeat' first
    | with_reducible refine .bind ?_ fun _ => ?_
    | with_reducible exact h.mintStaged hu
    | solve | refine h.spares ?_; simp +decide
    | split

theorem deliverAttachment {p dst a : Nat} : Keeps G n A I (Cascade.deliverAttachment unref p dst a) := by
  unfold Cascade.deliverAttachment
  repeat' first
    | with_reducible refine .bind ?_ fun _ => ?_
    | with_reducible exact h.deliverTake hu
    | with_reducible exact h.mintReply hu
    | with_reducible exact h.consume _ _
    | with_reducible exact h.endAttachment hu
    | solve | refine h.spares ?_; simp +decide
    | split

theorem wakeOneWaiter {w a : Nat} : Keeps G n A I (Cascade.wakeOneWaiter unref w a) := by
  unfold Cascade.wakeOneWaiter
  repeat' first
    | with_reducible refine .bind ?_ fun _ => ?_
    | with_reducible exact h.deliverAttachment hu
    | with_reducible exact h.take _
    | with_reducible exact h.ready _
    | solve | refine h.spares ?_; simp +decide
    | solve | with_reducible exact h.spares (spares_threads (by simp +decide))
    | split

theorem notifyReady {k : WaitableKind} {i : Nat} : Keeps G n A I (Cascade.notifyReady unref k i) := by
  unfold Cascade.notifyReady
  repeat' first
    | with_reducible refine .bind ?_ fun _ => ?_
    | with_reducible exact h.wakeOneWaiter hu
    | solve | refine h.spares ?_; simp +decide
    | split

theorem notifyIfReady {k : WaitableKind} {i : Nat} : Keeps G n A I (Cascade.notifyIfReady unref k i) := by
  unfold Cascade.notifyIfReady
  repeat' first
    | with_reducible refine .bind ?_ fun _ => ?_
    | with_reducible refine .whenever ?_
    | with_reducible exact h.notifyReady hu
    | solve | refine h.spares ?_; simp +decide
    | split

theorem answerCallReply {t x : Nat} : Keeps G n A I (Cascade.answerCallReply unref t x) := by
  unfold Cascade.answerCallReply
  repeat' first
    | with_reducible refine .bind ?_ fun _ => ?_
    | with_reducible refine .whenever ?_
    | with_reducible exact h.mintStaged hu
    | solve | refine h.spares ?_; simp +decide
    | split

theorem wakeCallReply {t x : Nat} : Keeps G n A I (Cascade.wakeCallReply unref t x) := by
  unfold Cascade.wakeCallReply Cascade.unrefWaitable
  repeat' first
    | with_reducible refine .bind ?_ fun _ => ?_
    | with_reducible exact h.answerCallReply hu
    | with_reducible exact h.consume _ _
    | with_reducible exact h.ready _
    | with_reducible exact hu _ _
    | solve | refine h.spares ?_; simp +decide

theorem notifyClaim {x : Nat} : Keeps G n A I (Cascade.notifyClaim unref x) := by
  unfold Cascade.notifyClaim
  repeat' first
    | with_reducible refine .bind ?_ fun _ => ?_
    | with_reducible refine .whenever ?_
    | with_reducible exact h.notifyIfReady hu
    | with_reducible exact h.wakeCallReply hu
    | solve | refine h.spares ?_; simp +decide
    | split

theorem notifyClaims {c : Nat} : Keeps G n A I (Cascade.notifyClaims unref c) := .countUp fun _ => h.notifyClaim hu

theorem stageMessage {p c x : Nat} {args : PipeSendRecord} :
    Keeps G n A I (Cascade.stageMessage unref p c x args) := by
  unfold Cascade.stageMessage
  repeat' first
    | with_reducible refine .bind ?_ fun _ => ?_
    | with_reducible exact h.holdStaged hu
    | solve | refine h.spares ?_; simp +decide
    | solve | with_reducible exact h.spares (spares_exchanges (by simp +decide))

theorem resumeCallRoom {t c : Nat} : Keeps G n A I (Cascade.resumeCallRoom unref t c) := by
  unfold Cascade.resumeCallRoom
  repeat' first
    | with_reducible refine .bind ?_ fun _ => ?_
    | with_reducible refine .whenever ?_
    | with_reducible exact h.stageMessage hu
    | with_reducible exact h.notifyReady hu
    | with_reducible exact h.ready _
    | with_reducible exact h.tie _ _ _
    | solve | refine h.spares ?_; simp +decide
    | split

theorem resumeCallers {c : Nat} : Keeps G n A I (Cascade.resumeCallers unref c) := by
  unfold Cascade.resumeCallers
  repeat' first
    | with_reducible refine .bind ?_ fun _ => ?_
    | with_reducible refine .loop fun _ => ?_
    | with_reducible exact h.resumeCallRoom hu
    | solve | refine h.spares ?_; simp +decide
    | split

theorem notifyRoom {c : Nat} : Keeps G n A I (Cascade.notifyRoom unref c) :=
  .bind (h.resumeCallers hu) fun _ => h.notifyIfReady hu

theorem settleExchange {x : Nat} : Keeps G n A I (Cascade.settleExchange unref x) := by
  unfold Cascade.settleExchange
  repeat' first
    | with_reducible refine .bind ?_ fun _ => ?_
    | with_reducible refine .whenever ?_
    | with_reducible exact releaseStaged hu
    | with_reducible exact h.notifyRoom hu
    | solve | refine h.spares ?_; simp +decide

theorem freeAttachments {cur : Option Nat} : Keeps G n A I (Cascade.freeAttachments unref cur) := by
  unfold Cascade.freeAttachments Cascade.unrefWaitable
  refine .loop fun cur => ?_
  cases cur with
  | none => exact keeps_pure
  | some a =>
    refine fun s hs => wp_bind.mpr (wp_read.mpr fun _ => ?_)
    rw [← bind_assoc]
    refine wp_bind.mpr ((h.links.drop a _ s ⟨hs, rfl⟩).imp fun _ t ht => ?_)
    exact Keeps.bind (hu _ _) (fun _ => keeps_pure) t ht

theorem freeObject {k : ObjType} {i : Nat} : Keeps G n A I (Cascade.freeObject unref k i) := by
  cases k with
  | event | ioMemory =>
    unfold Cascade.freeObject
    repeat' first
      | with_reducible refine .bind ?_ fun _ => ?_
      | with_reducible refine .whenever ?_
      | solve | refine h.spares ?_; simp +decide
      | solve | with_reducible exact h.spares (spares_events (by simp +decide))
      | solve | with_reducible exact h.spares (spares_ioMemories (by simp +decide))
  | interrupt => exact h.freeInterrupt _ i
  | timer => exact h.freeTimer _ i
  | waiter =>
    unfold Cascade.freeObject
    repeat' first
      | with_reducible refine .bind ?_ fun _ => ?_
      | with_reducible exact h.freeAttachments hu
      | with_reducible exact h.revokeBlocked
      | solve | refine h.spares ?_; simp +decide
      | solve | with_reducible exact h.spares (spares_waiters (by simp +decide))
  | memory => exact h.release i
  | mapping => exact h.unmapped i
  | process =>
    refine .bind (h.spares spares_read) fun _ => .bind (.whenever (h.spares spares_fatalKernel)) fun _ => h.reclaim i
  | pipeInlet | pipeOutlet => exact h.spares (spares_freePipe (by decide))
  | pipeReply | pipeRequest => exact h.settleExchange hu
  | system | clock | thread | unbound => exact h.spares spares_fatalKernel

theorem dropped {l : Bool} {k : ObjType} {i : Nat} : Keeps G n A I (Cascade.dropped unref l k i) := by
  cases k <;> unfold Cascade.dropped
  repeat' first
    | with_reducible refine .bind ?_ fun _ => ?_
    | with_reducible refine .whenever ?_
    | with_reducible exact h.pipeDropStaged hu
    | with_reducible exact h.notifyRoom hu
    | with_reducible exact h.notifyClaims hu
    | with_reducible exact h.notifyIfReady hu
    | with_reducible exact h.notifyClaim hu
    | solve | refine h.spares ?_; simp +decide

theorem dropReference {k : ObjType} {i : Nat} : Keeps G n A I (Cascade.dropReference unref k i) := by
  unfold Cascade.dropReference
  repeat' first
    | with_reducible refine .bind ?_ fun _ => ?_
    | with_reducible exact h.dropped hu
    | solve | refine h.spares ?_; simp +decide
    | split

theorem unrefBody {k : ObjType} {i : Nat} : Keeps G n A I (Cascade.unrefObject unref k i) := by
  unfold Cascade.unrefObject
  repeat' first
    | with_reducible refine .bind ?_ fun _ => ?_
    | with_reducible refine .whenever ?_
    | with_reducible exact h.dropReference hu
    | with_reducible exact h.freeObject hu

end

variable (h : Ground G n A I)
include h

theorem unrefObject {k : ObjType} {i : Nat} : Keeps G n A I (unrefObject k i) :=
  .recur fun _ again _ => h.unrefBody fun k i => again (k, i)

theorem unrefTeardown {k : ObjType} {i : Nat} : Keeps G n A I (unrefTeardown k i) := by
  unfold Sawos.unrefTeardown
  repeat' first
    | with_reducible refine .bind ?_ fun _ => ?_
    | with_reducible exact h.dropReference fun _ _ => h.unrefObject
    | solve | refine h.spares ?_; simp +decide

theorem deliverTo {p dst a : Nat} : Keeps G n A I (Sawos.deliverAttachment p dst a) :=
  h.deliverAttachment fun _ _ => h.unrefObject

theorem wake {w a : Nat} : Keeps G n A I (Sawos.wakeOneWaiter w a) := h.wakeOneWaiter fun _ _ => h.unrefObject

theorem notify {k : WaitableKind} {i : Nat} : Keeps G n A I (Sawos.notifyReady k i) :=
  h.notifyReady fun _ _ => h.unrefObject

theorem free {k : ObjType} {i : Nat} : Keeps G n A I (Sawos.freeObject k i) := h.freeObject fun _ _ => h.unrefObject

theorem release' {held : Nat → StagedRef} : Keeps G n A I (Sawos.releaseStaged held) :=
  releaseStaged fun _ _ => h.unrefObject

theorem moveEntry {a b w keep : Nat} {e : HandleEntry} : Keeps G n A I (moveEntry a b w e keep) := by
  unfold Sawos.moveEntry
  repeat' first
    | with_reducible refine .bind ?_ fun _ => ?_
    | with_reducible exact h.unrefObject
    | solve | refine h.spares ?_; simp +decide
    | split

theorem reapUnreferenced : Keeps G n A I (reapUnreferenced) := by
  unfold Sawos.reapUnreferenced
  repeat' first
    | with_reducible refine .bind ?_ fun _ => ?_
    | with_reducible refine .whenever ?_
    | with_reducible refine .countUp fun _ => ?_
    | with_reducible exact h.free
    | with_reducible exact h.release'
    | solve | refine h.spares ?_; simp +decide

theorem releasePendingCalls {p : Nat} : Keeps G n A I (releasePendingCalls p) := by
  unfold Sawos.releasePendingCalls unrefWaitable
  repeat' first
    | with_reducible refine .bind ?_ fun _ => ?_
    | with_reducible refine .whenever ?_
    | with_reducible refine .countUp fun _ => ?_
    | with_reducible exact h.unrefObject
    | solve | refine h.spares ?_; simp +decide
    | split

theorem signalEvent {e b : Nat} : Keeps G n A I (signalEvent e b) := by
  unfold Sawos.signalEvent
  repeat' first
    | with_reducible refine .bind ?_ fun _ => ?_
    | with_reducible exact h.notify
    | solve | refine h.spares ?_; simp +decide
    | split

theorem closeHandles {p : Nat} : Keeps G n A I (closeHandles p) := by
  unfold Sawos.closeHandles
  repeat' first
    | with_reducible refine .bind ?_ fun _ => ?_
    | with_reducible refine .whenever ?_
    | with_reducible refine .countUp fun _ => ?_
    | with_reducible exact h.unrefTeardown
    | solve | refine h.spares ?_; simp +decide

theorem sweepAttachments {p : Nat} : Keeps G n A I (sweepAttachments p) := by
  unfold Sawos.sweepAttachments unrefWaitableTeardown
  refine .bind (h.spares (by simp)) fun _ => .countUp fun a s hs => ?_
  refine wp_bind.mpr (wp_read.mpr fun _ => wp_whenever.mpr ⟨fun _ => ?_, fun _ => hs⟩)
  refine wp_bind.mpr (wp_read.mpr fun _ => wp_whenever.mpr ⟨fun _ => ?_, fun _ => hs⟩)
  rw [← bind_assoc]
  exact wp_bind.mpr ((h.links.drop a _ s ⟨hs, rfl⟩).imp fun _ => h.unrefTeardown)

end Ground

/-! ### The service of an interrupt -/

/-- What it changes by itself, with the work that it may come between. -/
def serviceParts : List Part := [.machine .delivery, .machine .environment]

/-- An invariant about other parts that the service of an interrupt keeps. -/
structure Service (S : List Part) (G : Ev → Prop) (n : Nat) (A : Conduct K Ev) (I : K → Prop) : Prop where
  clear : ∀ x ∈ serviceParts, x ∉ S
  quiet : ∀ e : Ev, e.quiet → A.emitted e
  about : ∀ s t, Agree S s t → I s → I t
  timerInterrupt : Keeps G n A I onTimerInterrupt
  externalIrq : ∀ line, Keeps G n A I (do irqMask line; onExternalIrq line)

namespace Service
variable {S : List Part} {G : Ev → Prop} {n : Nat} {A : Conduct K Ev} {I : K → Prop} (h : Service S G n A I)
include h

theorem spares {α : Type} {m : M α} (hm : Spares S m) : Keeps G n A I m := hm.keepsQuietly h.about h.quiet

theorem deliverLine {line : Nat} : Keeps G n A I (deliverLine line) := by
  have delivery : .machine .delivery ∉ S := h.clear _ (by decide)
  have flag : ∀ b, Keeps G n A I (modifies ({ · with inDelivery := b }) : M Unit) := fun b =>
    h.spares (spares_machine (fun _ => rfl) (by simp [K.shape, delivery]))
  have completed : Keeps G n A I (emits fun _ => .irqComplete line : M Unit) := h.spares (spares_emits fun _ => trivial)
  unfold Sawos.deliverLine serviceClaimedLine
  refine .bind (flag true) fun _ => .bind (.ite keeps_pure (.ite (.bind h.timerInterrupt fun _ => completed) ?_))
    fun _ => flag false
  have served := (h.externalIrq line).bind fun _ => completed
  rwa [bind_assoc] at served

theorem preemptPoint : Keeps G n A I preemptPoint := by
  have environment : .machine .environment ∉ S := h.clear _ (by decide)
  unfold Sawos.preemptPoint
  refine .bind (h.spares (by simp)) fun _ => .ite keeps_pure (.bind (h.spares ?_) fun _ => .whenever h.deliverLine)
  simp [environment]

theorem inStrides {work : Nat → Nat → M Unit} {len : Nat} (hw : ∀ d c, d + c ≤ len → Keeps G n A I (work d c)) :
    Keeps G n A I (inStrides work len) := by
  unfold Sawos.inStrides
  refine .loop fun d s hs => wp_ite.mpr ⟨fun more => ?_, fun _ => wp_pure.mpr hs⟩
  have fits : d + min (len - d) preemptStride ≤ len := by omega
  exact wp_bind.mpr ((hw d _ fits s hs).imp fun _ t ht =>
    wp_bind.mpr ((h.preemptPoint t ht).imp fun _ _ hu => wp_pure.mpr hu))

theorem longCopy {d s l : Nat} (memory : .machine .mem ∉ S) : Keeps G n A I (longCopy d s l) :=
  h.inStrides fun _ _ _ => h.spares (spares_machine (fun _ => rfl) (by simp [K.shape, memory]))

theorem longZero {d l : Nat} (memory : .machine .mem ∉ S) : Keeps G n A I (longZero d l) :=
  h.inStrides fun _ _ _ => h.spares (spares_machine (fun _ => rfl) (by simp [K.shape, memory]))

end Service

/-- An invariant about the ground that the service of an interrupt keeps, too. -/
structure Serviced (G : Ev → Prop) (n : Nat) (A : Conduct K Ev) (I : K → Prop) : Prop extends Ground G n A I where
  timerInterrupt : Keeps G n A I onTimerInterrupt
  externalIrq : ∀ line, Keeps G n A I (do irqMask line; onExternalIrq line)

namespace Serviced
variable {G : Ev → Prop} {n : Nat} {A : Conduct K Ev} {I : K → Prop} (h : Serviced G n A I)
include h

theorem service : Service groundParts G n A I := ⟨by decide, h.quiet, h.about, h.timerInterrupt, h.externalIrq⟩

theorem deliverLine {line : Nat} : Keeps G n A I (deliverLine line) := h.service.deliverLine

theorem longCopy {d s l : Nat} : Keeps G n A I (longCopy d s l) := h.service.longCopy (by decide)

theorem longZero {d l : Nat} : Keeps G n A I (longZero d l) := h.service.longZero (by decide)

/-- The machine waits while no thread is ready. -/
theorem idleUntilRunnable (told : ∀ s, I s → s.readyHead = none → A.emitted (.mark .idle s)) :
    Keeps G n A I idleUntilRunnable := by
  refine .loop fun _ s hs => wp_bind.mpr (wp_reads.mpr ?_)
  refine wp_ite.mpr ⟨fun _ => wp_pure.mpr hs, fun empty => ?_⟩
  refine wp_bind.mpr (wp_emits.mpr ⟨told s hs (by simpa using empty), fun _ => wp_bind.mpr (wp_reads.mpr ?_)⟩)
  refine wp_ite.mpr ⟨fun _ => wp_spent.mpr trivial, fun _ => ?_⟩
  exact Keeps.bind (h.spares (by simp +decide)) (fun _ => .bind (.whenever h.deliverLine) fun _ => keeps_pure) s hs

end Serviced

/-! ### Invariants that have nothing to do with devices -/

/-- What the freeing of a line changes. -/
def lineParts : List Part := [.interrupt .state, .interrupt .pending, .interrupt .attachment, .interrupt .refs,
  .machine .masks, .process .quota]

/-- What the freeing of a timer changes. -/
def timerParts : List Part := [.timer .state, .timer .time, .timer .attachment, .timer .refs, .machine .comparator,
  .machine .clock, .machine .environment, .process .quota]

/-- What the service of an interrupt changes, but for what it makes ready. -/
def tendedParts : List Part := lineParts ++ timerParts ++ [.machine .tick, .machine .resched]

section
variable {S : List Part}

theorem spares_freeInterrupt (clear : ∀ x ∈ lineParts, x ∉ S) {u : ObjType → Nat → M Unit} {i : Nat} :
    Spares S (Cascade.freeObject u .interrupt i) := by
  have others : ∀ x : InterruptPart, .interrupt x ∉ S := fun x => clear _ (by cases x <;> decide)
  refine .bind spares_read fun _ => .bind (.whenever spares_fatalKernel) fun _ => ?_
  refine .bind (spares_irqMask (clear _ (by decide))) fun _ =>
    .bind (spares_interrupts fun x => .inr (others x)) fun _ => ?_
  exact spares_quotaCredit (clear _ (by decide)) nofun

theorem spares_freeTimer (clear : ∀ x ∈ timerParts, x ∉ S) {u : ObjType → Nat → M Unit} {i : Nat} :
    Spares S (Cascade.freeObject u .timer i) := by
  have others : ∀ x : TimerPart, .timer x ∉ S := fun x => clear _ (by cases x <;> decide)
  refine .bind spares_read fun _ => .bind (.whenever spares_fatalKernel) fun _ => ?_
  refine .bind (spares_timers fun x => .inr (others x)) fun _ => .bind ?_ fun _ => spares_quotaCredit
    (clear _ (by decide)) nofun
  exact spares_reprogramTimer (clear _ (by decide)) (clear _ (by decide)) (clear _ (by decide))

variable (clear : ∀ x ∈ tendedParts, x ∉ S)
include clear
variable {G : Ev → Prop} {n : Nat} {A : Conduct K Ev} {I : K → Prop} (about : ∀ s t, Agree S s t → I s → I t)
include about

theorem Ground.serviced (h : Ground G n A I) : Serviced G n A I where
  toGround := h
  timerInterrupt := by
    have spares : ∀ {α : Type} {m : M α}, Spares S m → Keeps G n A I m := fun hm => hm.keepsQuietly about h.quiet
    have others : ∀ x : TimerPart, .timer x ∉ S := fun x => clear _ (by cases x <;> decide)
    have ticks : ∀ now, Spares S (modifies fun s => { s with nextTickNs := now + s.tickPeriodNs } : M Unit) := by
      refine fun now => spares_machine (fun _ => rfl) fun x => ?_
      cases x with
      | tick => exact .inr (clear _ (by decide))
      | _ => exact .inl fun _ => by simp [K.shape]
    unfold onTimerInterrupt
    refine .bind (spares (spares_timerNowNs (clear _ (by decide)) (clear _ (by decide)))) fun _ =>
      .bind (spares (by simp)) fun _ => ?_
    refine .bind (.whenever (spares (.bind (ticks _) fun _ => spares_onTimerTick (clear _ (by decide))))) fun _ => ?_
    refine .bind (.bind (spares spares_capacity) fun _ => .countUp fun i => ?_) fun _ => spares ?_
    · have timer : ∀ {f : TimerSlot → TimerSlot}, Keeps G n A I (timers.modify i f) :=
        spares (spares_timers fun x => .inr (others x))
      refine .bind (spares spares_read) fun _ => .bind (.whenever timer) fun _ => .whenever ?_
      exact .bind (.whenever (spares spares_halt)) fun _ => .bind timer fun _ => h.notify
    · exact spares_reprogramTimer (clear _ (by decide)) (clear _ (by decide)) (clear _ (by decide))
  externalIrq line := by
    have spares : ∀ {α : Type} {m : M α}, Spares S m → Keeps G n A I m := fun hm => hm.keepsQuietly about h.quiet
    have others : ∀ x : InterruptPart, .interrupt x ∉ S := fun x => clear _ (by cases x <;> decide)
    refine .bind (spares (spares_irqMask (clear _ (by decide)))) fun _ =>
      .bind (spares spares_interruptByLine) fun found => ?_
    cases found with
    | none => exact keeps_pure
    | some i => exact .bind (spares (spares_interrupts fun x => .inr (others x))) fun _ => h.notify

end

/-! ### Invariants about memory, grants and life alone -/

structure Bedrock (G : Ev → Prop) (n : Nat) (A : Conduct K Ev) (I : K → Prop) : Prop where
  quiet : ∀ e : Ev, e.quiet → A.emitted e
  about : ∀ s t, Agree bedrockParts s t → I s → I t
  release : ∀ r, Keeps G n A I (memoryReleaseIfIdle r)
  unmapped : ∀ r, Keeps G n A I (mappings.write r .vacant)
  reclaim : ∀ p, Keeps G n A I (reclaimProcessSlot p)

namespace Bedrock
variable {G : Ev → Prop} {n : Nat} {A : Conduct K Ev} {I : K → Prop} (h : Bedrock G n A I)
include h

theorem spares {α : Type} {m : M α} (hm : Spares bedrockParts m) : Keeps G n A I m :=
  hm.keepsQuietly h.about h.quiet

theorem ground : Ground G n A I where
  quiet := h.quiet
  about s t same := h.about s t (same.mono (by decide))
  release := h.release
  unmapped := h.unmapped
  reclaim := h.reclaim
  consume _ _ := h.spares (by simp +decide)
  ready _ := h.spares (by simp +decide)
  take _ := h.spares (by simp +decide)
  tie _ _ _ := h.spares (by simp +decide)
  links := .plain h.quiet h.about (by decide)
  freeInterrupt _ _ := h.spares (spares_freeInterrupt (by decide))
  freeTimer _ _ := h.spares (spares_freeTimer (by decide))

theorem serviced : Serviced G n A I := h.ground.serviced (S := bedrockParts) (by decide) h.about

end Bedrock
end Sawos
