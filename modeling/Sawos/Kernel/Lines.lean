import Sawos.Kernel.Devices
import Sawos.Kernel.Samples

/-! # Who owns a line

A line has at most one Interrupt. It is masked from each of its fires until the acknowledgement, and for good once its
Interrupt is gone. -/

namespace Sawos
open Exec

/-- Slot `i` has an Interrupt, and it is the one of line `l`. -/
def Slab.Serves (t : Slab InterruptSlot) (i l : Nat) : Prop := i < t.cap ∧ (t.slot i).state = .live ∧
    (t.slot i).line = l

/-- Every fire but the last was acknowledged, and the last was not exactly while it is pending. -/
structure InterruptSlot.Settled (q : InterruptSlot) : Prop where
  before : ∀ f ∈ q.fires.tail, f.acked = true
  pending : q.pending = true ↔ ∃ f ∈ q.fires, f.acked = false

theorem InterruptSlot.Settled.raise {q : InterruptSlot} (h : q.Settled) : q.raise.Settled := by
  cases was : q.pending with
  | true => exact ⟨by simpa [InterruptSlot.raise, was] using h.before,
    by simpa [InterruptSlot.raise, was] using h.pending.mp was⟩
  | false =>
    have acked : ∀ f ∈ q.fires, f.acked = true := by
      intro f hf
      by_contra not
      have := h.pending.mpr ⟨f, hf, by simpa using not⟩
      rw [was] at this
      cases this
    exact ⟨by simpa [InterruptSlot.raise, was] using acked, by simp [InterruptSlot.raise, was]⟩

theorem InterruptSlot.Settled.ack {q : InterruptSlot} (h : q.Settled) : q.ack.Settled := by
  have before := h.before
  unfold InterruptSlot.ack
  cases hf : q.fires with
  | nil => exact ⟨by simp, by simp⟩
  | cons f rest =>
    rw [hf, List.tail_cons] at before
    refine ⟨by simpa using before, iff_of_false (by simp) ?_⟩
    rintro ⟨g, hg, bad⟩
    rcases List.mem_cons.mp hg with rfl | hg
    · cases bad
    · rw [before g hg] at bad
      cases bad

theorem InterruptSlot.Settled.deliver {q : InterruptSlot} (h : q.Settled) : q.deliver.Settled := by
  obtain ⟨before, pending⟩ := h
  unfold InterruptSlot.deliver
  cases hf : q.fires with
  | nil => exact ⟨by simp, by simpa [hf] using pending⟩
  | cons f rest =>
    rw [hf] at before pending
    exact ⟨by simpa using before, by simpa using pending⟩

section
variable [Hal]

/-- The lines as they are, but for what the controller was told of line `E`. -/
structure Lines (E : Option Nat) (s : K) : Prop where
  valid : ∀ i l, s.interrupts.Serves i l → Hal.irqLineValid l = true
  single : ∀ i j l, s.interrupts.Serves i l → s.interrupts.Serves j l → i = j
  settled : ∀ i l, s.interrupts.Serves i l → (s.interrupts.slot i).Settled
  blank : ∀ i, (s.interrupts.slot i).state = .free → (s.interrupts.slot i).line = 0 ∧
    (s.interrupts.slot i).pending = false
  bound : ∀ i l, s.interrupts.Serves i l → E ≠ some l → s.masks l = some (s.interrupts.slot i).pending
  unbound : ∀ l, E ≠ some l → (∀ i, ¬s.interrupts.Serves i l) → s.masks l ≠ some false

def boundParts : List Part := [.interrupt .state, .interrupt .pending, .machine .masks, .machine .slabs]

section
variable {s t : K} {E : Option Nat}

theorem agree_lines (h : Agree boundParts s t) : s.interrupts.cap = t.interrupts.cap ∧ s.masks = t.masks ∧
    ∀ i, (s.interrupts.slot i).state = (t.interrupts.slot i).state ∧
      (s.interrupts.slot i).line = (t.interrupts.slot i).line ∧
      (s.interrupts.slot i).pending = (t.interrupts.slot i).pending ∧
      (s.interrupts.slot i).fires = (t.interrupts.slot i).fires := by
  have shape : s.shape = t.shape := h (.machine .slabs) (by decide)
  have state : ∀ i, InterruptPart.state.same (s.interrupts.slot i) (t.interrupts.slot i) :=
    h (.interrupt .state) (by decide)
  have pending : ∀ i, InterruptPart.pending.same (s.interrupts.slot i) (t.interrupts.slot i) :=
    h (.interrupt .pending) (by decide)
  refine ⟨by simp only [K.shape, List.cons.injEq, Prod.mk.injEq] at shape; omega,
    h (.machine .masks) (by decide), fun i => ?_⟩
  obtain ⟨live, -, line⟩ := state i
  obtain ⟨pending, fires⟩ := pending i
  exact ⟨live, line, pending, fires⟩

theorem Lines.agree (h : Agree boundParts s t) (hs : Lines E s) : Lines E t := by
  obtain ⟨cap, masks, slot⟩ := agree_lines h
  have serves : ∀ i l, t.interrupts.Serves i l → s.interrupts.Serves i l := by
    rintro i l ⟨hi, live, line⟩
    exact ⟨cap ▸ hi, (slot i).1.trans live, (slot i).2.1.trans line⟩
  have serves' : ∀ i l, s.interrupts.Serves i l → t.interrupts.Serves i l := by
    rintro i l ⟨hi, live, line⟩
    exact ⟨cap ▸ hi, (slot i).1.symm.trans live, (slot i).2.1.symm.trans line⟩
  refine ⟨fun i l h => hs.valid i l (serves i l h), fun i j l h h' => hs.single i j l (serves i l h) (serves j l h'),
    fun i l h => ?_, fun i free => ?_, fun i l h other => ?_, fun l other none => ?_⟩
  · obtain ⟨before, pending⟩ := hs.settled i l (serves i l h)
    rw [(slot i).2.2.2] at before pending
    exact ⟨before, (slot i).2.2.1 ▸ pending⟩
  · rw [← (slot i).2.1, ← (slot i).2.2.1]
    exact hs.blank i ((slot i).1.trans free)
  · rw [← masks, ← (slot i).2.2.1]
    exact hs.bound i l (serves i l h) other
  · rw [← masks]
    exact hs.unbound l other fun i h => none i (serves' i l h)

theorem Lines.donated (d : Donated s t) (hs : Lines E s) : Lines E t := by
  have masks : s.masks = t.masks := d.rest .masks (by decide) (by decide)
  have cap := d.interrupts.cap
  have old : ∀ i l, t.interrupts.Serves i l → s.interrupts.Serves i l ∧ t.interrupts.slot i = s.interrupts.slot i := by
    rintro i l ⟨hi, live, line⟩
    have same := d.interrupts.slot i
    split at same
    · rw [same] at live
      cases live
    · rw [same] at live line
      exact ⟨⟨by omega, live, line⟩, same⟩
  refine ⟨fun i l h => hs.valid i l (old i l h).1, fun i j l h h' => hs.single i j l (old i l h).1 (old j l h').1,
    fun i l h => (old i l h).2 ▸ hs.settled i l (old i l h).1, fun i free => ?_, fun i l h other => ?_,
      fun l other none => ?_⟩
  · rw [d.interrupts.slot] at free ⊢
    split at free
    · rename_i new
      rw [if_pos new]
      exact ⟨rfl, rfl⟩
    · rename_i new
      rw [if_neg new]
      exact hs.blank i free
  · rw [← masks, (old i l h).2]
    exact hs.bound i l (old i l h).1 other
  · rw [← masks]
    refine hs.unbound l other fun i h => none i ⟨by have := h.1; omega, ?_⟩
    rw [d.interrupts.old h.1]
    exact h.2

/-- Telling the controller of line `l` leaves the others as they are. -/
theorem Lines.tell {l : Nat} {b : Bool} (hs : Lines E s) (only : ∀ x, E = some x → x = l) :
    Lines (some l) { s with masks := fun x => if x = l then some b else s.masks x } := by
  refine ⟨hs.valid, hs.single, hs.settled, hs.blank, fun i x h other => ?_, fun x other none => ?_⟩
  · have ne : x ≠ l := fun h => other (by rw [h])
    simpa [ne] using hs.bound i x h fun exempt => ne (only x exempt)
  · have ne : x ≠ l := fun h => other (by rw [h])
    simpa [ne] using hs.unbound x (fun exempt => ne (only x exempt)) none

theorem Lines.exempt {l : Nat} (hs : Lines none s) : Lines (some l) s :=
  { hs with bound := fun i x h _ => hs.bound i x h (by simp), unbound := fun x _ => hs.unbound x (by simp) }

/-- The controller was told the right thing. -/
theorem Lines.told {l : Nat} (hs : Lines (some l) s)
    (bound : ∀ i, s.interrupts.Serves i l → s.masks l = some (s.interrupts.slot i).pending)
    (unbound : (∀ i, ¬s.interrupts.Serves i l) → s.masks l ≠ some false) : Lines none s := by
  refine ⟨hs.valid, hs.single, hs.settled, hs.blank, fun i x h _ => ?_, fun x _ none => ?_⟩
  · by_cases hx : x = l
    · subst hx
      exact bound i h
    · exact hs.bound i x h fun h => hx (Option.some.inj h).symm
  · by_cases hx : x = l
    · subst hx
      exact unbound none
    · exact hs.unbound x (fun h => hx (Option.some.inj h).symm) none

/-- An Interrupt changes, and stays the one of its line. -/
theorem Lines.change {i : Nat} {v : InterruptSlot} (hs : Lines E s) (state : v.state = (s.interrupts.slot i).state)
    (line : v.line = (s.interrupts.slot i).line) (settled : (s.interrupts.slot i).Settled → v.Settled)
    (blank : v.state = .free → v.pending = false)
    (pending : v.state = .live → v.pending = (s.interrupts.slot i).pending ∨ E = some v.line) :
    Lines E { s with interrupts := s.interrupts.set i v } := by
  have serves : ∀ j l, (s.interrupts.set i v).Serves j l ↔ s.interrupts.Serves j l := by
    intro j l
    by_cases hj : j = i
    · subst hj
      simp [Slab.Serves, state, line]
    · simp [Slab.Serves, hj]
  refine ⟨fun j l h => hs.valid j l ((serves j l).mp h),
    fun j k l h h' => hs.single j k l ((serves j l).mp h) ((serves k l).mp h'), fun j l h => ?_, fun j free => ?_,
    fun j l h other => ?_, fun l other none => hs.unbound l other fun j h => none j ((serves j l).mpr h)⟩
  · have was := hs.settled j l ((serves j l).mp h)
    by_cases hj : j = i
    · subst hj
      simpa using settled was
    · simpa [hj] using was
  · by_cases hj : j = i
    · subst hj
      simp only [Slab.set_slot, if_true] at free ⊢
      exact ⟨line ▸ (hs.blank j (state ▸ free)).1, blank free⟩
    · simp only [Slab.set_slot, hj, if_false] at free ⊢
      exact hs.blank j free
  · have was := hs.bound j l ((serves j l).mp h) other
    by_cases hj : j = i
    · subst hj
      obtain ⟨-, live, here⟩ := h
      simp only [Slab.set_slot, if_true] at live here ⊢
      rcases pending live with same | exempt
      · rw [same]
        exact was
      · exact absurd (exempt.trans (congrArg some here)) other
    · simpa [hj] using was

/-- An Interrupt goes, which its line hears of. -/
theorem Lines.clear {i : Nat} (hi : i < s.interrupts.cap) (hs : Lines (some (s.interrupts.slot i).line) s)
    (masked : s.masks (s.interrupts.slot i).line = some true) :
    Lines none { s with interrupts := s.interrupts.set i .vacant } := by
  have serves : ∀ j l, (s.interrupts.set i .vacant).Serves j l → j ≠ i ∧ s.interrupts.Serves j l := by
    rintro j l ⟨hj, live, line⟩
    by_cases same : j = i
    · subst same
      simp [InterruptSlot.vacant] at live
    · simp only [Slab.set_slot, same, if_false] at live line
      exact ⟨same, hj, live, line⟩
  refine ⟨fun j l h => hs.valid j l (serves j l h).2, fun j k l h h' =>
    hs.single j k l (serves j l h).2 (serves k l h').2,
    fun j l h => ?_, fun j free => ?_, fun j l h _ => ?_, fun l _ none => ?_⟩
  · simpa [(serves j l h).1] using hs.settled j l (serves j l h).2
  · by_cases same : j = i
    · subst same
      simp [InterruptSlot.vacant]
    · simp only [Slab.set_slot, same, if_false] at free ⊢
      exact hs.blank j free
  · obtain ⟨ne, was⟩ := serves j l h
    -- No other Interrupt has the line of the one that goes: it was the line's only one, or had none.
    have other : (s.interrupts.slot i).line ≠ l := by
      intro here
      by_cases live : (s.interrupts.slot i).state = .live
      · exact ne (hs.single j i l was ⟨hi, live, here⟩)
      · have free : (s.interrupts.slot i).state = .free := by
          cases hst : (s.interrupts.slot i).state with
          | free => rfl
          | live => exact absurd hst live
        have zero := (hs.blank i free).1
        have valid := hs.valid j l was
        rw [← here, zero, Hal.irqLineValid_zero] at valid
        cases valid
    simpa [ne] using hs.bound j l was fun h => other (Option.some.inj h)
  · by_cases here : (s.interrupts.slot i).line = l
    · rw [← here, masked]
      simp
    · refine hs.unbound l (fun h => here (Option.some.inj h)) fun j h => none j ?_
      have ne : j ≠ i := fun same => here (same ▸ h.2.2)
      exact ⟨h.1, by simpa [ne] using h.2.1, by simpa [ne] using h.2.2⟩

/-- A free slot gets the Interrupt of a line that has none, which the controller is yet to hear of. -/
theorem Lines.fill {i l : Nat} {v : InterruptSlot} (hs : Lines none s) (free : (s.interrupts.slot i).state = .free)
    (valid : Hal.irqLineValid l = true) (unserved : ∀ j, ¬s.interrupts.Serves j l) (live : v.state = .live)
    (line : v.line = l)
    (settled : v.Settled) : Lines (some l) { s with interrupts := s.interrupts.set i v } := by
  have serves : ∀ j x, (s.interrupts.set i v).Serves j x → j = i ∧ x = l ∨ j ≠ i ∧ s.interrupts.Serves j x := by
    rintro j x ⟨hj, is, here⟩
    by_cases same : j = i
    · subst same
      simp only [Slab.set_slot, if_true] at here
      exact Or.inl ⟨rfl, here.symm.trans line⟩
    · simp only [Slab.set_slot, same, if_false] at is here
      exact Or.inr ⟨same, hj, is, here⟩
  refine ⟨fun j x h => ?_, fun j k x h h' => ?_, fun j x h => ?_, fun j was => ?_, fun j x h other => ?_,
    fun x other none => ?_⟩
  · rcases serves j x h with ⟨-, rfl⟩ | ⟨-, h⟩
    · exact valid
    · exact hs.valid j x h
  · rcases serves j x h with ⟨hj, hx⟩ | ⟨-, was⟩ <;> rcases serves k x h' with ⟨hk, hx'⟩ | ⟨-, was'⟩
    · rw [hj, hk]
    · exact absurd (hx ▸ was') (unserved k)
    · exact absurd (hx' ▸ was) (unserved j)
    · exact hs.single j k x was was'
  · rcases serves j x h with ⟨rfl, -⟩ | ⟨ne, h⟩
    · simpa using settled
    · simpa [ne] using hs.settled j x h
  · by_cases same : j = i
    · subst same
      simp only [Slab.set_slot, if_true, live] at was
      cases was
    · simp only [Slab.set_slot, same, if_false] at was ⊢
      exact hs.blank j was
  · rcases serves j x h with ⟨-, rfl⟩ | ⟨ne, h⟩
    · exact absurd rfl other
    · simpa [ne] using hs.bound j x h (by simp)
  · refine hs.unbound x (by simp) fun j h => none j ?_
    have ne : j ≠ i := by
      rintro rfl
      exact absurd (h.2.1.symm.trans free) (by simp)
    exact ⟨h.1, by simpa [ne] using h.2.1, by simpa [ne] using h.2.2⟩

end

/-! ### What the kernel does to lines -/

section
variable {G : Ev → Prop} {n : Nat} {A : K → Prop} {s t : K}

theorem Lines.spares {α : Type} {m : M α} {E : Option Nat} (hm : Spares boundParts m) : Keeps G n A (Lines E) m :=
  hm.keeps fun _ _ same hs => hs.agree same

theorem wp_readInterrupt {B : Conduct K Ev} {i : Nat} {Q : InterruptSlot → K → Prop} :
    wp G n (interrupts.read i) Q (.leaving B) s ↔ (i < s.interrupts.cap → Q (s.interrupts.slot i) s) := wp_read

theorem wp_modifyInterrupt {B : Conduct K Ev} {i : Nat} {f : InterruptSlot → InterruptSlot} {Q : Unit → K → Prop} :
    wp G n (interrupts.modify i f) Q (.leaving B) s ↔
      (i < s.interrupts.cap → Q () { s with interrupts := s.interrupts.set i (f (s.interrupts.slot i)) }) := wp_modify

theorem wp_irqMask {l : Nat} {Q : Unit → K → Prop}
    (hQ : Q () { s with masks := fun x => if x = l then some true else s.masks x }) :
    wp G n (irqMask l) Q (.leaving A) s :=
  wp_bind.mpr (wp_modifies.mpr (wp_emits.mpr ⟨trivial, fun _ => hQ⟩))

theorem wp_irqUnmask {l : Nat} {Q : Unit → K → Prop}
    (hQ : Q () { s with masks := fun x => if x = l then some false else s.masks x }) :
    wp G n (irqUnmask l) Q (.leaving A) s :=
  wp_bind.mpr (wp_modifies.mpr (wp_emits.mpr ⟨trivial, fun _ => hQ⟩))

theorem Lines.consume {k : WaitableKind} {i : Nat} : Keeps G n A (Lines none) (waitableConsume k i) := by
  cases k with
  | interrupt =>
    refine fun s hs => wp_modifyInterrupt.mpr fun _ => hs.change rfl rfl .deliver (fun free => ?_) fun _ => Or.inl rfl
    exact (hs.blank i free).2
  | event => exact Lines.spares (m := events.modify i ({ · with word := 0 })) (spares_events fun _ =>
    .inr (by simp [boundParts]))
  | timer => exact Lines.spares (m := timers.modify i (·.consume)) (spares_timers fun _ => .inr (by simp [boundParts]))
  | pipeReply =>
    exact Lines.spares (m := exchanges.modify i ({ · with state := .settled }))
      (spares_exchanges fun _ => .inr (by simp [boundParts]))
  | process | pipeOutlet | pipeInlet | pipeRequest => exact keeps_pure

/-- The Interrupt in a slot goes, after its line was masked. -/
theorem Lines.retire {i : Nat} (hs : Lines none s) (hi : i < s.interrupts.cap) :
    wp G n (irqMask (s.interrupts.slot i).line)
      (fun _ => wp G n (interrupts.write i .vacant) (fun _ => Lines none) (.leaving A)) (.leaving A) s :=
  wp_irqMask (wp_modifyInterrupt.mpr fun _ => (hs.tell (by simp)).clear hi (by simp))

theorem Lines.freeInterrupt {u : ObjType → Nat → M Unit} {i : Nat} :
    Keeps G n A (Lines none) (Cascade.freeObject u .interrupt i) := by
  refine fun s hs =>
    wp_bind.mpr (wp_readInterrupt.mpr fun hi => wp_bind.mpr (wp_whenever.mpr ⟨fun _ => ?_, fun _ => ?_⟩))
  · exact wp_fatalKernel.mpr trivial
  · refine wp_bind.mpr ((hs.retire hi).imp fun _ t gone => wp_bind.mpr (gone.imp fun _ u hu => ?_))
    exact Lines.spares (by simp +decide) u hu

theorem Lines.watched : Watched G n A (Lines none) where
  quiet _ _ := trivial
  about _ _ same hs := hs.agree (same.mono (by decide))
  consume _ _ := Lines.consume
  freeInterrupt _ _ := Lines.freeInterrupt
  freeTimer _ _ := Lines.spares (spares_freeTimer (by decide))
  links := .plain (fun _ _ => trivial) (fun _ _ same hs => hs.agree same) (by decide)

/-- The line fires: it is masked, and its Interrupt, if it has one, is pending. -/
theorem Lines.externalIrq {l : Nat} : Keeps G n A (Lines none) (do irqMask l; onExternalIrq l) := by
  refine fun s hs => wp_bind.mpr (wp_irqMask (wp_bind.mpr (wp_reads.mpr ?_)))
  have told := hs.tell (l := l) (b := true) (by simp)
  cases found : s.interrupts.find (fun q => q.state = .live && q.line = l) with
  | none =>
    refine wp_pure.mpr
      (told.told (fun i h => absurd ?_ (List.find?_eq_none.mp found i (List.mem_range.mpr h.1))) fun _ => by simp)
    simpa using h.2
  | some i =>
    obtain ⟨hi, is⟩ := Slab.find_some found
    obtain ⟨live, line⟩ : (s.interrupts.slot i).state = .live ∧ (s.interrupts.slot i).line = l := by simpa using is
    refine wp_bind.mpr (wp_modifyInterrupt.mpr fun _ => Lines.watched.ground.notify _ ?_)
    have raised := told.change (i := i) (v := (s.interrupts.slot i).raise) rfl rfl .raise
      (fun free => by simp [InterruptSlot.raise, live] at free) fun _ => Or.inr (congrArg some line.symm)
    refine raised.told (fun j h => ?_) fun none => absurd ⟨hi, ?_, ?_⟩ (none i)
    · have same : j = i :=
        raised.single j i l h ⟨hi, by simpa [InterruptSlot.raise] using live, by simpa [InterruptSlot.raise] using line⟩
      simp [same, InterruptSlot.raise]
    · simpa [InterruptSlot.raise] using live
    · simpa [InterruptSlot.raise] using line

theorem Lines.timerInterrupt : Keeps G n A (Lines none) onTimerInterrupt := by
  unfold onTimerInterrupt expireTimers
  refine .bind (Lines.spares (by simp +decide)) fun _ => .bind (Lines.spares (by simp)) fun _ =>
    .bind (.whenever ?_) fun _ => ?_
  · refine .bind (Lines.spares (spares_machine (fun _ => rfl) ?_)) fun _ => Lines.spares (by simp +decide)
    simp +decide [K.shape]
  refine .bind (.bind (Lines.spares (by simp)) fun _ => .countUp fun _ => ?_) fun _ => Lines.spares (by simp +decide)
  refine .bind (Lines.spares (by simp)) fun _ => .bind (.whenever (Lines.spares ?_)) fun _ => .whenever ?_
  · exact spares_timers fun _ => .inr (by simp [boundParts])
  refine .bind (.whenever (Lines.spares (by simp))) fun _ => .bind (Lines.spares ?_) fun _ =>
    Lines.watched.ground.notify
  exact spares_timers fun _ => .inr (by simp [boundParts])

theorem Lines.serviced : Serviced G n A (Lines none) where
  toGround := Lines.watched.ground
  timerInterrupt := Lines.timerInterrupt
  externalIrq _ := Lines.externalIrq

theorem Lines.sweepLines {p : Nat} : Keeps G n A (Lines none)
    (sweep interrupts (fun q => q.process = p && q.state = .live) (fun q => irqMask q.line) .vacant) := by
  refine .bind (Lines.spares (by simp)) fun _ => .countUp fun i s hs => wp_bind.mpr (wp_readInterrupt.mpr fun hi => ?_)
  refine wp_whenever.mpr ⟨fun _ => ?_, fun _ => hs⟩
  exact wp_bind.mpr (hs.retire hi)

theorem Lines.steady : Steady G n (Lines none) :=
  Lines.serviced.steadyDevices .any (fun _ _ same hs => hs.agree (same.mono (by decide)))
    (fun _ => Lines.sweepLines) fun _ => by
    refine Keeps.bind (Lines.spares (spares_sweep (fun _ => spares_pure) fun _ => ?_)) fun _ =>
      Lines.spares (by simp +decide)
    exact spares_timers fun _ => .inr (by simp [boundParts])

/-- A slot is bound to a line that has no Interrupt. -/
theorem Lines.bind {q l : Nat} : Keeps G n (Lines none) (Lines none) (interruptBind q l) := by
  have w : Steady G n (Lines none) := Lines.steady
  refine fun s hs => wp_bind.mpr (w.wp_check mortal_any hs fun valid => wp_bind.mpr (wp_reads.mpr ?_))
  refine wp_bind.mpr (w.wp_check mortal_any hs fun unbound => ?_)
  let unserved : K → Prop := fun t => ∀ i, ¬t.interrupts.Serves i l
  have kept : ∀ u v : K, Agree boundParts u v → unserved u → unserved v := by
    intro u v same none i h
    obtain ⟨cap, -, slot⟩ := agree_lines same
    exact none i ⟨cap ▸ h.1, (slot i).1.trans h.2.1, (slot i).2.1.trans h.2.2⟩
  have none : unserved s := fun i h => by
    have none : s.interrupts.find (fun q => q.state = .live && q.line = l) = .none :=
      Option.isSome_eq_false_iff.mp unbound |> Option.isNone_iff_eq_none.mp
    exact List.find?_eq_none.mp none i (List.mem_range.mpr h.1) (by simpa using h.2)
  replace valid : l ≠ Hal.irqTimer ∧ Hal.irqLineValid l = true := by simpa using valid
  refine w.createIn (R := unserved) (P := fun i t => (t.interrupts.slot i).state = .free ∧ unserved t)
    (fun u v same => kept u v (same.mono (by decide))) (fun u hu none => ?_) (fun i u v same => ?_)
    (fun i => ?_) s ⟨hs, none⟩
  · refine wp_reads.mpr ⟨hu, fun i found => ⟨?_, none⟩⟩
    exact of_decide_eq_true (Slab.find_some found).2
  · rintro ⟨free, none⟩
    have same := same.mono (S := boundParts) (by decide)
    exact ⟨((agree_lines same).2.2 i).1 ▸ free, kept u v same none⟩
  · rintro u ⟨hu, free, none⟩
    refine wp_bind.mpr (wp_modifyInterrupt.mpr fun hi => wp_bind.mpr ?_)
    have filled := hu.fill (i := i) (v := ⟨.live, q, l, false, .none, 1, []⟩) free valid.2 none rfl rfl
      ⟨by simp, by simp⟩
    refine wp_sparesQuietly (S := boundParts) (fun _ _ => trivial) (by simp +decide) fun _ v same => wp_irqUnmask ?_
    have filled := filled.agree same
    obtain ⟨cap, -, slot⟩ := agree_lines same
    have here : v.interrupts.Serves i l := ⟨cap ▸ hi, by simpa using (slot i).1.symm, by simpa using (slot i).2.1.symm⟩
    refine (filled.tell (b := false) (by simp)).told (fun j h => ?_) fun none => absurd here (none i)
    have only : j = i := filled.single j i l h here
    have quiet : (v.interrupts.slot i).pending = false := by simpa using (slot i).2.2.1.symm
    simp [only, quiet]

/-- What is acknowledged is pending, so its line has an Interrupt. -/
theorem Lines.ack {p o r i : Nat} : Keeps G n (Lines none) (Lines none) (interruptOp p o r i) := by
  have w : Steady G n (Lines none) := Lines.steady
  unfold interruptOp
  split
  · exact w.faultProcess mortal_any
  refine .bind (w.require mortal_any) fun _ s hs => wp_bind.mpr (wp_readInterrupt.mpr fun hi => ?_)
  refine wp_bind.mpr (w.wp_check mortal_any hs fun ready => ?_)
  have pending : (s.interrupts.slot i).pending = true := by simpa using ready
  have live : (s.interrupts.slot i).state = .live := by
    cases is : (s.interrupts.slot i).state with
    | live => rfl
    | free =>
      rw [(hs.blank i is).2] at pending
      cases pending
  refine wp_bind.mpr (wp_modifyInterrupt.mpr fun _ => wp_bind.mpr (wp_irqUnmask (wp_pure.mpr ?_)))
  have acked := (hs.exempt (l := (s.interrupts.slot i).line)).change (i := i)
    (v := (s.interrupts.slot i).ack) rfl rfl .ack
    (fun _ => rfl) fun _ => Or.inr rfl
  have here : (s.interrupts.set i (s.interrupts.slot i).ack).Serves i (s.interrupts.slot i).line :=
    ⟨hi, by simpa [InterruptSlot.ack] using live, by simp [InterruptSlot.ack]⟩
  refine (acked.tell (b := false) (by simp)).told (fun j h => ?_) fun none => absurd here (none i)
  have only : j = i := acked.single j i _ h here
  simp [only, InterruptSlot.ack]

theorem Lines.grounded : SteadyGrounded G n (Lines none) := by
  have about : ∀ s t : K, Agree boundParts s t → Lines none s → Lines none t := fun _ _ same hs => hs.agree same
  have w : Steady G n (Lines none) := Lines.steady
  exact w.watching (fun _ _ same hs => hs.agree (same.mono (by decide))) (fun _ _ d hs => hs.donated d)
    (fun _ _ => Lines.bind) (fun _ _ _ _ => Lines.ack) (fun _ _ _ => w.clockNow about (by decide) mortal_any)
    (fun _ _ => w.timerCreate about (by decide)) (fun _ _ _ _ => w.timerArm about (by decide) mortal_any)
    fun _ => w.timerDisarm about (by decide)

/-- No line has an Interrupt yet, and the controller was told of none. -/
theorem Lines.fresh (hs : s.Fresh) : Lines none s := by
  have slot : ∀ i, s.interrupts.slot i = .vacant := fun i => by rw [hs.interrupts]; rfl
  have none : ∀ i l, ¬s.interrupts.Serves i l := fun i l h => by
    have live := h.2.1
    rw [slot] at live
    cases live
  refine ⟨fun i l h => absurd h (none i l), fun i j l h => absurd h (none i l), fun i l h =>
    absurd h (none i l), fun i _ => ?_, fun i l h => absurd h (none i l), fun l _ _ => ?_⟩
  · rw [slot]
    exact ⟨rfl, rfl⟩
  · rw [hs.masks]
    simp

theorem Lines.reachable (h : ReachableWith G s) : Lines none s :=
  Grounded.reachable (fun _ => Lines.grounded) (fun _ s hs =>
    (Lines.serviced (A := fun _ => False)).bootDevices (fun _ _ same hs => hs.agree (same.mono (by decide))) s
      (.fresh hs)) h

end

/-- Each line has at most one Interrupt. While it has one, it is masked exactly while a fire of it is pending; without
    one it is masked if the controller was ever told of it. A fire is pending until it is acknowledged, so only the
    last can be. -/
structure K.LinesOwned (s : K) : Prop where
  single : ∀ i j l, s.interrupts.Serves i l → s.interrupts.Serves j l → i = j
  masked : ∀ i l, s.interrupts.Serves i l → s.masks l = some (s.interrupts.slot i).pending
  unbound : ∀ l, (∀ i, ¬s.interrupts.Serves i l) → s.masks l = none ∨ s.masks l = some true
  settled : ∀ i l, s.interrupts.Serves i l → (s.interrupts.slot i).Settled

end

section

attribute [local instance] sampleBuild sampleTarget Riscv32.board

/-- The root binds line 10 and makes a Waiter that waits for it; then the line fires. -/
def lineFires : List Stimulus :=
  [.call 2 6 10 0 0, .call 2 5 0 0 0, .call 7 0 6 1 0, ⟨.interrupt 10, [], []⟩]

end

end Sawos
