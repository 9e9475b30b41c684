import Sawos.Kernel.Timers

/-! # The comparator

The clock has one comparator, which is programmed with the earliest of the deadlines that the kernel owes: those of the
armed timers, and the next tick of a kernel that runs its threads in slices. What it was programmed with last is no
later than any of them, but for the lead that it is given at least. -/

namespace Sawos
open Exec

variable [Hal]

/-- Run the threads in slices of `us` microseconds. -/
def startTick (us : Nat) : M Unit := do
  whenever (2 ^ 64 ≤ us * 1000) (halt .panic)
  modifies ({ · with tickPeriodNs := us * 1000 })
  let now ← timerNowNs
  modifies ({ · with nextTickNs := now + us * 1000 })
  reprogramTimer

/-- The comparator is not programmed with an instant that is too late for a deadline. -/
def K.InTime (s : K) (deadline : Nat) : Prop := s.comparator ≤ max (s.now + timerMinLeadNs) deadline

theorem K.InTime.of_le {s : K} {next deadline : Nat}
    (h : s.comparator = if next < s.now + timerMinLeadNs then s.now + timerMinLeadNs else next) (le : next ≤ deadline) :
    s.InTime deadline := by
  unfold K.InTime
  rw [h]
  split <;> omega

/-- The comparator is in time for every armed timer, and for the next tick. -/
structure Programmed (s : K) : Prop where
  armed : ∀ i < s.timers.cap, (s.timers.slot i).state = .live → (s.timers.slot i).armed = true →
    s.InTime (s.timers.slot i).deadlineNs
  tick : s.tickPeriodNs ≠ 0 → s.InTime s.nextTickNs

/-! ### The earliest deadline -/

omit [Hal] in
theorem TimerSlot.soonerOf_le {t : TimerSlot} {d : Nat} : t.soonerOf d ≤ d := by
  unfold TimerSlot.soonerOf
  split
  · rename_i sooner
    simp only [Bool.and_eq_true, decide_eq_true_eq] at sooner
    exact sooner.2.le
  · exact Nat.le_refl d

omit [Hal] in
theorem TimerSlot.soonerOf_le_deadline {t : TimerSlot} {d : Nat} (armed : t.armed = true) :
    t.soonerOf d ≤ t.deadlineNs := by
  unfold TimerSlot.soonerOf
  rw [armed]
  split
  · exact Nat.le_refl _
  · rename_i later
    simpa using later

/-- The earliest deadline of a list of timers, or what was the earliest before them. -/
def soonest (slot : Nat → TimerSlot) (next : Nat) (l : List Nat) : Nat :=
  l.foldl (fun next i => if (slot i).state = .live then (slot i).soonerOf next else next) next

omit [Hal] in
theorem soonest_le {slot : Nat → TimerSlot} {l : List Nat} {next : Nat} : soonest slot next l ≤ next := by
  induction l generalizing next with
  | nil => exact Nat.le_refl next
  | cons i l ih =>
    refine ih.trans ?_
    dsimp only
    split
    · exact TimerSlot.soonerOf_le
    · exact Nat.le_refl next

omit [Hal] in
theorem soonest_le_deadline {slot : Nat → TimerSlot} {l : List Nat} {next i : Nat} (mem : i ∈ l)
    (live : (slot i).state = .live) (armed : (slot i).armed = true) : soonest slot next l ≤ (slot i).deadlineNs := by
  induction l generalizing next with
  | nil => cases mem
  | cons j l ih =>
    rcases List.mem_cons.mp mem with rfl | later
    · have step : soonest slot next (i :: l) = soonest slot ((slot i).soonerOf next) l :=
        congrArg (soonest slot · l) (if_pos live)
      rw [step]
      exact soonest_le.trans (TimerSlot.soonerOf_le_deadline armed)
    · exact ih later

section
variable {G : Ev → Prop} {n : Nat} {A : Conduct K Ev} {s t : K}

theorem wp_earliestTimerDeadline {tick : Nat} {Q : Nat → K → Prop} :
    wp G n (earliestTimerDeadline tick) Q (.leaving A) s ↔ Q (soonest s.timers.slot tick (List.range s.timers.cap)) s :=
  wp_reads

/-- Wherever the comparator is programmed, it is in time after that. -/
theorem wp_reprogramTimer : wp G n reprogramTimer (fun _ => Programmed) (.leaving A) s := by
  refine wp_bind.mpr (wp_reads.mpr (wp_bind.mpr (wp_earliestTimerDeadline.mpr ?_)))
  generalize first : (if s.tickPeriodNs ≠ 0 && s.nextTickNs < neverNs then s.nextTickNs else neverNs) = tick
  have tick_le : s.tickPeriodNs ≠ 0 → tick ≤ s.nextTickNs := by
    intro running
    rw [← first]
    split
    · exact Nat.le_refl _
    · rename_i never
      simpa [running] using never
  generalize earliest : soonest s.timers.slot tick (List.range s.timers.cap) = next
  have timer_le : ∀ i < s.timers.cap, (s.timers.slot i).state = .live → (s.timers.slot i).armed = true →
      next ≤ (s.timers.slot i).deadlineNs := by
    intro i hi live armed
    rw [← earliest]
    exact soonest_le_deadline (List.mem_range.mpr hi) live armed
  have next_le : s.tickPeriodNs ≠ 0 → next ≤ s.nextTickNs := fun running => by
    rw [← earliest]
    exact soonest_le.trans (tick_le running)
  refine wp_ite.mpr
    ⟨fun never => wp_modifies.mpr ?_, fun _ => wp_bind.mpr (wp_bind.mpr (wp_modifies.mpr (wp_reads.mpr ?_)))⟩
  · rw [never] at timer_le next_le
    exact ⟨fun i hi live armed => (timer_le i hi live armed).trans (Nat.le_max_right _ _),
      fun running => (next_le running).trans (Nat.le_max_right _ _)⟩
  · exact wp_modifies.mpr ⟨fun i hi live armed => .of_le rfl (timer_le i hi live armed), fun running =>
      .of_le rfl (next_le running)⟩

end

/-! ### What the kernel does to the deadlines it owes -/

def owedParts : List Part :=
  [.timer .state, .timer .time, .machine .comparator, .machine .tick, .machine .clock, .machine .slabs]

section
variable {s t : K}

theorem K.InTime.agree {d e : Nat} (hs : s.InTime d) (comparator : s.comparator = t.comparator) (later : s.now ≤ t.now)
    (same : d = e) : t.InTime e := by
  unfold K.InTime at hs ⊢
  omega

theorem Programmed.agree (h : Agree owedParts s t) (hs : Programmed s) : Programmed t := by
  have state : ∀ i, TimerPart.state.same (s.timers.slot i) (t.timers.slot i) := h (.timer .state) (by decide)
  have time : ∀ i, TimerPart.time.same (s.timers.slot i) (t.timers.slot i) := h (.timer .time) (by decide)
  have comparator : s.comparator = t.comparator := h (.machine .comparator) (by decide)
  have clock : s.now = t.now := h (.machine .clock) (by decide)
  obtain ⟨period, next⟩ : s.tickPeriodNs = t.tickPeriodNs ∧ s.nextTickNs = t.nextTickNs :=
    h (.machine .tick) (by decide)
  have cap : s.timers.cap = t.timers.cap := by
    have shape : s.shape = t.shape := h (.machine .slabs) (by decide)
    simp only [K.shape, List.cons.injEq, Prod.mk.injEq] at shape
    omega
  refine ⟨fun i hi live armed => ?_, fun running => (hs.tick (period ▸ running)).agree comparator clock.le next⟩
  obtain ⟨armed', deadline, -⟩ := time i
  exact (hs.armed i (cap ▸ hi) ((state i).1.trans live) (armed'.trans armed)).agree comparator clock.le deadline

theorem Programmed.donated (d : Donated s t) (hs : Programmed s) : Programmed t := by
  have comparator : s.comparator = t.comparator := d.rest .comparator (by decide) (by decide)
  have clock : s.now = t.now := d.rest .clock (by decide) (by decide)
  obtain ⟨period, next⟩ : s.tickPeriodNs = t.tickPeriodNs ∧ s.nextTickNs = t.nextTickNs :=
    d.rest .tick (by decide) (by decide)
  refine ⟨fun i hi live armed => ?_, fun running => (hs.tick (period ▸ running)).agree comparator clock.le next⟩
  rw [d.timers.slot] at live armed ⊢
  split at live
  · cases live
  · rename_i old
    rw [if_neg old] at armed ⊢
    exact (hs.armed i (by omega) live armed).agree comparator clock.le rfl

end

section
variable {G V : Ev → Prop} {n : Nat} {A : Conduct K Ev} {s : K}

theorem Programmed.reprogram {I : K → Prop} : Leads G n A I Programmed reprogramTimer := fun _ _ => wp_reprogramTimer

/-- What adds no deadline to those that a timer waits for. -/
theorem Programmed.modify {i : Nat} {f : TimerSlot → TimerSlot}
    (hf : ∀ t : TimerSlot, (f t).state = .live → (f t).armed = true → t.state = .live ∧ t.armed = true ∧
      t.deadlineNs = (f t).deadlineNs) :
    Keeps G n A Programmed (timers.modify i f) := by
  refine fun s hs => wp_modifyTimer.mpr fun hi => ⟨fun j hj live armed => ?_, hs.tick⟩
  by_cases same : j = i
  · subst same
    simp only [Slab.set_slot, if_true] at live armed ⊢
    obtain ⟨live', armed', deadline⟩ := hf _ live armed
    exact (hs.armed j hj live' armed').agree rfl (Nat.le_refl _) deadline
  · simp only [Slab.set_slot, same, if_false] at live armed ⊢
    exact hs.armed j hj live armed

theorem Programmed.now : Keeps G n A Programmed timerNowNs := by
  refine fun s hs => wp_bind.mpr (wp_modifies.mpr (wp_reads.mpr ⟨fun i hi live armed => ?_, fun running => ?_⟩))
  · exact (hs.armed i hi live armed).agree rfl (Nat.le_add_right _ _) rfl
  · exact (hs.tick running).agree rfl (Nat.le_add_right _ _) rfl

variable (quiet : ∀ e : Ev, e.quiet → A.emitted e)
include quiet

theorem Programmed.spares {α : Type} {m : M α} (hm : Spares owedParts m) : Keeps G n A Programmed m :=
  hm.keepsQuietly (fun _ _ same hs => hs.agree same) quiet

/-- Where the comparator is programmed next, the deadlines may change. -/
theorem Programmed.changes {I : K → Prop} {m : M Unit} (hm : Spares [] m) :
    Leads G n A I Programmed (do m; reprogramTimer) :=
  ((keeps_true quiet hm).leads.imp (fun _ _ => trivial) fun _ => id).bind fun _ => Programmed.reprogram

theorem Programmed.consume {k : WaitableKind} {i : Nat} : Keeps G n A Programmed (waitableConsume k i) := by
  cases k with
  | timer => exact Programmed.modify fun _ live armed => ⟨live, armed, rfl⟩
  | event => exact Programmed.spares quiet (m := events.modify i ({ · with word := 0 })) (spares_events fun _ =>
    .inr (by simp [owedParts]))
  | interrupt =>
    exact Programmed.spares quiet (m := interrupts.modify i (·.deliver))
      (spares_interrupts fun _ => .inr (by simp [owedParts]))
  | pipeReply =>
    refine Programmed.spares quiet (m := exchanges.modify i ({ · with state := .settled })) ?_
    exact spares_exchanges fun _ => .inr (by simp [owedParts])
  | process | pipeOutlet | pipeInlet | pipeRequest => exact keeps_pure

theorem Programmed.freeTimer {u : ObjType → Nat → M Unit} {i : Nat} :
    Keeps G n A Programmed (Cascade.freeObject u .timer i) := by
  refine .bind (Programmed.spares quiet (by simp)) fun _ =>
    .bind (.whenever (Programmed.spares quiet spares_fatalKernel)) fun _ => ?_
  rw [← bind_assoc]
  refine (Programmed.changes quiet ?_).bind fun _ => Programmed.spares quiet (by simp +decide)
  exact spares_timers fun _ => .inr (by simp)

theorem Programmed.watched : Watched G n A Programmed where
  quiet := quiet
  about _ _ same hs := hs.agree (same.mono (by decide))
  consume _ _ := Programmed.consume quiet
  freeInterrupt _ _ := Programmed.spares quiet (spares_freeInterrupt (by decide))
  freeTimer _ _ := Programmed.freeTimer quiet
  links := .plain quiet (fun _ _ same hs => hs.agree same) (by decide)

theorem Programmed.timerInterrupt : Keeps G n A Programmed onTimerInterrupt := by
  have free : ∀ {α : Type} {m : M α}, Spares [] m → Keeps G n A (fun _ => True) m := keeps_true quiet
  refine Leads.imp (I := fun _ => True) (J := Programmed) ?_ (fun _ _ => trivial) fun _ => id
  refine (free (by simp)).leads.bind fun now => (free (by simp)).leads.bind fun due => ?_
  refine Leads.bind (J := fun _ => True) (Keeps.whenever (.bind (free ?_) fun _ => free (by simp))) fun _ => ?_
  · exact spares_machine (fun _ => rfl) fun _ => .inr (by simp)
  refine Leads.bind (J := fun _ => True) (Keeps.bind (free (by simp)) fun _ => .countUp fun i => ?_) fun _ =>
    Programmed.reprogram
  have timer : ∀ {f : TimerSlot → TimerSlot}, Keeps G n A (fun _ => True) (timers.modify i f) :=
    free (spares_timers fun _ => .inr (by simp))
  refine .bind (free (by simp)) fun _ => .bind (.whenever timer) fun _ => .whenever ?_
  exact .bind (.whenever (free (by simp))) fun _ => .bind timer fun _ => (Bedrock.true quiet).ground.notify

theorem Programmed.serviced : Serviced G n A Programmed where
  toGround := (Programmed.watched quiet).ground
  timerInterrupt := Programmed.timerInterrupt quiet
  externalIrq _ := .bind (Programmed.spares quiet (by simp +decide)) fun _ => by
    refine .bind (Programmed.spares quiet (by simp)) fun found => ?_
    cases found with
    | none => exact keeps_pure
    | some i =>
      refine .bind (Programmed.spares quiet ?_) fun _ => (Programmed.watched quiet).ground.notify
      exact spares_interrupts fun _ => .inr (by simp [owedParts])

end

section
variable {G V : Ev → Prop} {n : Nat} (told : Promised V Programmed)
include told

theorem Programmed.upkeep : Upkeep G V n Programmed Programmed Programmed :=
  (Programmed.serviced told.quiet).steadyDevices told (fun _ _ same hs => hs.agree (same.mono (by decide)))
    (fun _ => Programmed.spares told.quiet (spares_sweep (fun _ => by simp +decide) fun _ =>
      spares_interrupts fun _ => .inr (by simp [owedParts])))
    fun _ => Programmed.changes told.quiet
      (spares_sweep (fun _ => spares_pure) fun _ => spares_timers fun _ => .inr (by simp))

theorem Programmed.create {p c : Nat} : Keeps G n ⟨Programmed, V⟩ Programmed (timerCreate p c) := by
  refine (Programmed.upkeep told).create (by simp) fun _ => .bind ?_ fun _ =>
    Programmed.spares told.quiet (by simp +decide)
  exact Programmed.modify fun _ _ armed => by cases armed

theorem Programmed.arm {p i a m : Nat} : Keeps G n ⟨Programmed, V⟩ Programmed (timerArm p i a m) := by
  have w : Upkeep G V n Programmed Programmed Programmed := Programmed.upkeep told
  refine .bind (.whenever (w.faultProcess (told.mortal p))) fun _ =>
    .bind (Programmed.spares told.quiet (by simp)) fun read => ?_
  cases read with
  | error why => exact w.faultProcess (told.mortal p)
  | ok rec =>
    refine .bind Programmed.now fun now => ?_
    rw [← bind_assoc]
    refine (Programmed.changes told.quiet ?_).bind fun _ => keeps_pure
    exact spares_timers fun _ => .inr (by simp)

theorem Programmed.disarm {i : Nat} : Keeps G n ⟨Programmed, V⟩ Programmed (timerDisarm i) := by
  unfold timerDisarm
  rw [← bind_assoc]
  refine (Programmed.changes told.quiet ?_).bind fun _ => keeps_pure
  exact spares_timers fun _ => .inr (by simp)

theorem Programmed.read {p d c : Nat} : Keeps G n ⟨Programmed, V⟩ Programmed (clockNow p d c) := by
  have w : Upkeep G V n Programmed Programmed Programmed := Programmed.upkeep told
  refine .bind (.whenever (w.faultProcess (told.mortal p))) fun _ => .bind Programmed.now fun _ => ?_
  refine .bind (Programmed.spares told.quiet (by simp +decide)) fun _ => ?_
  exact .bind (w.refuse (told.mortal p)) fun _ => keeps_pure

theorem Programmed.grounded : Grounded G V n Programmed Programmed Programmed := by
  have about : ∀ s t : K, Agree owedParts s t → Programmed s → Programmed t := fun _ _ same hs => hs.agree same
  have w : Upkeep G V n Programmed Programmed Programmed := Programmed.upkeep told
  refine w.watching (fun _ _ same hs => hs.agree (same.mono (by decide))) (fun _ _ d hs => hs.donated d)
    (fun q l s hs => ?_)
    (fun p _ _ _ => w.interruptOp about (by decide) (told.mortal p)) (fun _ _ _ => Programmed.read told)
    (fun _ _ => Programmed.create told) (fun _ _ _ _ => Programmed.arm told) fun _ => Programmed.disarm told
  exact w.interruptBind about (by decide) s ⟨hs, Or.inr (told.mortal q)⟩

end
end Sawos
