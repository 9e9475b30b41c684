import Sawos.Kernel.Grounded

/-! # Invariants about devices

Lines, timers and what they are driven by have nothing to do with memory and grants, nor with how processes and threads
come and go. What an invariant about them has left to show is what the calls on devices, their interrupts and the end of
a process do to them. -/

namespace Sawos
open Exec

variable [Hal]

def deviceParts : List Part := [.interrupt .state, .interrupt .pending, .timer .state, .timer .time, .machine .masks,
  .machine .comparator, .machine .tick, .machine .clock, .machine .slabs] ++ linkParts

/-- An invariant about devices that a cascade keeps. -/
structure Watched (G : Ev → Prop) (n : Nat) (A : Conduct K Ev) (I : K → Prop) : Prop where
  quiet : ∀ e : Ev, e.quiet → A.emitted e
  about : ∀ s t, Agree deviceParts s t → I s → I t
  consume : ∀ k i, Keeps G n A I (waitableConsume k i)
  freeInterrupt : ∀ u i, Keeps G n A I (Cascade.freeObject u .interrupt i)
  freeTimer : ∀ u i, Keeps G n A I (Cascade.freeObject u .timer i)
  links : Linked G n A I

namespace Watched
variable {G : Ev → Prop} {n : Nat} {A : Conduct K Ev} {I : K → Prop} (h : Watched G n A I)
include h

theorem spares {α : Type} {m : M α} (hm : Spares deviceParts m) : Keeps G n A I m := hm.keepsQuietly h.about h.quiet

theorem ground : Ground G n A I where
  quiet := h.quiet
  about s t same := h.about s t (same.mono (by decide))
  release _ := h.spares (by simp +decide)
  unmapped _ := h.spares (spares_mappings (by simp +decide))
  reclaim _ := h.spares (spares_processes (by simp +decide))
  consume := h.consume
  freeInterrupt := h.freeInterrupt
  freeTimer := h.freeTimer
  ready _ := h.spares (by simp +decide)
  take _ := h.spares (by simp +decide)
  tie _ _ _ := h.spares (by simp +decide)
  links := h.links

end Watched

namespace Serviced
variable {G : Ev → Prop} {n : Nat}

/-- An invariant about devices comes through the end of a process if it comes through the sweeps over its devices. -/
theorem dismantles {A : Conduct K Ev} {I : K → Prop} (h : Serviced G n A I)
    (about : ∀ s t, Agree deviceParts s t → I s → I t) {p : Nat}
    (lines : Keeps G n A I
      (sweep interrupts (fun q => q.process = p && q.state = .live) (fun q => irqMask q.line) .vacant))
    (timers : Keeps G n A I (do
      sweep timers (fun t => t.process = p && t.state = .live) (fun _ => pure ()) .vacant
      reprogramTimer)) : Dismantles G n A p I I I I I I I := by
  have spares : ∀ {α : Type} {m : M α}, Spares deviceParts m → Keeps G n A I m := fun hm =>
    hm.keepsQuietly about h.quiet
  exact
    { enter := fun _ _ => spares (spares_processes (by simp +decide))
      before := h.toGround
      threads := spares (spares_sweepThreads (by simp +decide) (by decide))
      idle := spares (spares_idle (by decide))
      lines := lines
      after := h.toGround
      timers := timers
      rows := spares (by simp +decide)
      record := spares (by simp +decide)
      boot := spares (by simp +decide)
      quota := spares (by simp +decide)
      reclaim := h.reclaim p }

theorem steadyDevices {V : Ev → Prop} {I : K → Prop} (h : Serviced G n ⟨I, V⟩ I) (told : Promised V I)
    (about : ∀ s t, Agree deviceParts s t → I s → I t)
    (lines : ∀ p, Keeps G n ⟨I, V⟩ I
      (sweep interrupts (fun q => q.process = p && q.state = .live) (fun q => irqMask q.line) .vacant))
    (timers : ∀ p, Keeps G n ⟨I, V⟩ I (do
      sweep timers (fun t => t.process = p && t.state = .live) (fun _ => pure ()) .vacant
      reprogramTimer)) : Upkeep G V n I I I :=
  .steady told (fun s t same => about s t (same.mono (by decide))) h
    (fun _ => (spares_loadDomain (by decide) (by decide)).keepsQuietly about told.quiet)
    fun p _ _ _ => (h.dismantles about (lines p) (timers p)).teardown (told.mortal _ _ _)

/-- The boot leaves the devices as they are, but for what interrupts do meanwhile. -/
theorem bootDevices {A : Conduct K Ev} {I : K → Prop} (h : Serviced G n A I)
    (about : ∀ s t, Agree deviceParts s t → I s → I t) :
    Leads G n A I I loadRootAndEnter := by
  have spares : ∀ {α : Type} {m : M α}, Spares deviceParts m → Keeps G n A I m := fun hm =>
    hm.keepsQuietly about h.quiet
  refine boot_leads (fun _ => h.placeImage fun _ _ _ _ _ _ => spares (by simp +decide)) (spares (by simp +decide))
    fun _ _ _ _ _ _ => spares ?_
  refine .bind (spares_processes (by simp +decide)) fun _ => .bind (by simp +decide) fun _ => ?_
  refine .bind (by simp) fun _ => .bind (by simp +decide) fun _ => ?_
  exact spares_startMain (by decide) (by simp +decide)

end Serviced

/-- What is left to show of an invariant about devices are the calls on them, and that more slots change nothing. -/
theorem Upkeep.watching {G V : Ev → Prop} {n : Nat} {I : K → Prop} (w : Upkeep G V n I I I)
    (about : ∀ s t, Agree deviceParts s t → I s → I t) (grow : ∀ s t, Donated s t → I s → I t)
    (bind : ∀ q l, Keeps G n ⟨I, V⟩ I (Sawos.interruptBind q l))
    (ack : ∀ p o r i, Keeps G n ⟨I, V⟩ I (Sawos.interruptOp p o r i))
    (read : ∀ p d c, Keeps G n ⟨I, V⟩ I (Sawos.clockNow p d c))
    (timerCreate : ∀ p c, Keeps G n ⟨I, V⟩ I (Sawos.timerCreate p c))
    (arm : ∀ p i s b, Keeps G n ⟨I, V⟩ I (Sawos.timerArm p i s b))
    (disarm : ∀ i, Keeps G n ⟨I, V⟩ I (Sawos.timerDisarm i)) :
    Grounded G V n I I I :=
  w.grounded (fun s t same => about s t (same.mono (by decide)))
    { give := fun _ _ _ _ _ => w.processGive about (by decide)
      nextHandle := fun _ _ _ hp s hs => w.bootHandleNext about (by decide) hp s hs.1
      bind := fun q l s hs => bind q l s hs.1
      ack := fun p o r i _ => ack p o r i
      read := fun p d c _ => read p d c
      timerCreate := timerCreate
      arm := fun p i s b _ => arm p i s b
      disarm := disarm }
    grow (fun _ _ _ _ s hs => w.fillProcess about (by decide) s hs.1) (fun _ _ _ _ => w.start about (by decide))
    fun _ _ _ _ => w.threadCreate about (by decide)

end Sawos
