import Sawos.Kernel.Devices
import Sawos.Kernel.Samples
import Sawos.Lib.Deadlines

/-! # The fires of timers

A timer owes a fire for each of its deadlines that has passed. Each of them is delivered, or still counted, or more
than the counter holds. -/

namespace Sawos
open Exec Deadlines

/-! ### One timer -/

namespace TimerSlot

/-- How many fires a timer owed in all when it was last looked at. -/
def owed (t : TimerSlot) : Nat :=
  match t.history.first, t.history.expired with
  | some d, some e => due d t.intervalNs e
  | _, _ => 0

theorem owed_armed {t : TimerSlot} {d : Nat} (first : t.history.first = some d) (fresh : t.history.expired = none) :
    t.owed = 0 := by
  simp [owed, first, fresh]

theorem owed_idle {t : TimerSlot} (first : t.history.first = none) : t.owed = 0 := by simp [owed, first]

theorem owed_seen {t : TimerSlot} {d now : Nat} (first : t.history.first = some d) :
    (t.seen now).owed = due d t.intervalNs now := by
  simp [owed, seen, first]

/-- A timer owes a fire only once it was looked at. -/
theorem owed_pos {t : TimerSlot} {d : Nat} (first : t.history.first = some d) (h : t.owed ≠ 0) :
    ∃ e, t.history.expired = some e ∧ t.owed = due d t.intervalNs e := by
  cases expired : t.history.expired with
  | none => exact absurd (owed_armed first expired) h
  | some e => exact ⟨e, rfl, by simp [owed, first, expired]⟩

variable [Hal]

/-- The fires of a timer add up, and its schedule is where they leave it. -/
structure Counts (t : TimerSlot) : Prop where
  total : t.history.delivered + t.fires + t.history.lost = t.owed
  fit : t.owed ≤ wordMax → t.history.lost = 0
  idle : t.history.first = none → t.armed = false
  running : ∀ d, t.history.first = some d → (t.armed = true ↔ t.intervalNs ≠ 0 ∨ t.owed = 0)
  next : ∀ d, t.history.first = some d → t.armed = true → t.deadlineNs = d + t.owed * t.intervalNs ∨
    0 < t.owed ∧ neverNs < d + t.owed * t.intervalNs ∧ t.deadlineNs = neverNs
  later : t.armed = true → ∀ e, t.history.expired = some e → e < t.deadlineNs

theorem Counts.arm {t : TimerSlot} {d i : Nat} : (t.arm d i).Counts := by
  have owed : (t.arm d i).owed = 0 := owed_armed rfl rfl
  refine ⟨?_, fun _ => rfl, ?_, fun _ _ => iff_of_true rfl (Or.inr owed), fun x same _ => Or.inl ?_, ?_⟩
  · rw [owed]
    rfl
  · rintro ⟨⟩
  · obtain rfl : d = x := Option.some.inj same
    rw [owed, Nat.zero_mul]
    rfl
  · rintro - e ⟨⟩

theorem Counts.disarm {t : TimerSlot} : t.disarm.Counts := by
  have owed : t.disarm.owed = 0 := owed_idle rfl
  refine ⟨?_, fun _ => rfl, fun _ => rfl, ?_, ?_, ?_⟩
  · rw [owed]
    rfl
  · rintro d ⟨⟩
  · rintro d ⟨⟩
  · rintro ⟨⟩

theorem Counts.consume {t : TimerSlot} (h : t.Counts) : t.consume.Counts := by
  have total := h.total
  refine ⟨?_, h.fit, h.idle, h.running, h.next, h.later⟩
  change t.history.delivered + t.fires + 0 + t.history.lost = t.owed
  omega

/-- A timer that is not due owes what it owed before. -/
theorem Counts.owed_waiting {t : TimerSlot} {now : Nat} (h : t.Counts) (waits : t.isDue now = false)
    (early : now < 2 ^ 63) (past : ∀ e, t.history.expired = some e → e ≤ now) : (t.seen now).owed = t.owed := by
  cases first : t.history.first with
  | none => rw [owed_idle first, owed_idle (t := t.seen now) first]
  | some d =>
    rw [owed_seen first]
    have running := h.running d first
    cases armed : t.armed with
    | true =>
      have ahead : now < d + t.owed * t.intervalNs := by
        have : now < t.deadlineNs := by simpa [isDue, armed] using waits
        rcases h.next d first armed with next | ⟨-, never, -⟩
        · omega
        · unfold neverNs at never
          omega
      by_cases periodic : t.intervalNs = 0
      · have none : t.owed = 0 := (running.mp armed).resolve_left (· periodic)
        rw [none, due_before (by simpa [none] using ahead)]
      · refine due_waiting (Nat.pos_of_ne_zero periodic) ?_ ahead
        refine or_iff_not_imp_left.mpr fun some => ?_
        obtain ⟨e, expired, owes⟩ := owed_pos first some
        have last : t.owed - 1 < due d t.intervalNs e := by omega
        exact ((lt_due_iff (Nat.pos_of_ne_zero periodic)).mp last).trans (past e expired)
    | false =>
      have done : t.intervalNs = 0 ∧ t.owed ≠ 0 := by simpa [armed, not_or] using running
      obtain ⟨e, expired, owes⟩ := owed_pos first done.2
      have passed : d ≤ e := by
        by_contra before
        rw [due_before (by omega)] at owes
        exact done.2 owes
      have := past e expired
      rw [owes, done.1, due_once passed, due_once (by omega)]

theorem Counts.waits {t : TimerSlot} {now : Nat} (h : t.Counts) (waits : t.isDue now = false) (early : now < 2 ^ 63)
    (past : ∀ e, t.history.expired = some e → e ≤ now) : (t.seen now).Counts := by
  have owed := h.owed_waiting waits early past
  obtain ⟨total, fit, idle, running, next, -⟩ := h
  rw [← owed] at total fit running next
  refine ⟨total, fit, idle, running, next, ?_⟩
  rintro armed e ⟨⟩
  have ahead : now < t.deadlineNs := by simpa [isDue, show t.armed = true from armed] using waits
  exact ahead

theorem count_total {t : TimerSlot} {n : Nat} :
    (t.count n).history.delivered + (t.count n).fires + (t.count n).history.lost = t.history.delivered + t.fires +
      t.history.lost + n := by
  have le : saturatingAdd t.fires (firesWord n) ≤ t.fires + n := by
    unfold saturatingAdd firesWord wordMax
    split <;> split <;> omega
  simp only [count]
  omega

theorem count_lost {t : TimerSlot} {n : Nat} (fits : t.fires + n ≤ wordMax) :
    (t.count n).history.lost = t.history.lost := by
  have eq : saturatingAdd t.fires (firesWord n) = t.fires + n := by
    have := Nat.two_pow_pos (Hal.wordBits)
    unfold saturatingAdd firesWord
    unfold wordMax wordModulus at *
    split <;> split <;> omega
  simp only [count, eq]
  omega

/-- The fires still add up when `n` more are owed and counted. -/
theorem Counts.count {t : TimerSlot} {n : Nat} (h : t.Counts) :
    (t.count n).history.delivered + (t.count n).fires + (t.count n).history.lost = t.owed + n ∧
      (t.owed + n ≤ wordMax → (t.count n).history.lost = 0) := by
  have total := h.total
  refine ⟨by rw [count_total, total], fun fits => ?_⟩
  rw [count_lost (by omega)]
  exact h.fit (by omega)

theorem fire_once {t : TimerSlot} {now : Nat} (once : t.intervalNs = 0) :
    t.fire now = { t.count 1 with armed := false } := if_pos once

theorem fire_periodic {t : TimerSlot} {now : Nat} (periodic : t.intervalNs ≠ 0) :
    t.fire now = { t.count (t.missed now) with
      deadlineNs := if neverNs - t.deadlineNs < t.missed now * t.intervalNs then neverNs
        else t.deadlineNs + t.missed now * t.intervalNs } := if_neg periodic

theorem owed_fire {t : TimerSlot} {now : Nat} : (t.fire now).owed = t.owed := by
  by_cases once : t.intervalNs = 0
  · rw [fire_once once]
    rfl
  · rw [fire_periodic once]
    rfl

/-- A timer that is due is where its schedule says. -/
theorem Counts.at_deadline {t : TimerSlot} {d now : Nat} (h : t.Counts) (first : t.history.first = some d)
    (armed : t.armed = true)
    (passed : t.deadlineNs ≤ now) (early : now < 2 ^ 63) : t.deadlineNs = d + t.owed * t.intervalNs := by
  rcases h.next d first armed with next | ⟨-, -, never⟩
  · exact next
  · unfold neverNs at never
    omega

/-- A one-shot timer fires. -/
theorem Counts.once {t : TimerSlot} {now : Nat} (h : t.Counts) (armed : t.armed = true) (passed : t.deadlineNs ≤ now)
    (early : now < 2 ^ 63) (once : t.intervalNs = 0) : ((t.seen now).fire now).Counts := by
  cases first : t.history.first with
  | none => exact absurd armed (by simp [h.idle first])
  | some d =>
    have deadline := h.at_deadline first armed passed early
    rw [once, Nat.mul_zero, Nat.add_zero] at deadline
    have none : t.owed = 0 := ((h.running d first).mp armed).resolve_left (· once)
    have owed : ((t.seen now).fire now).owed = t.owed + 1 := by
      rw [owed_fire, owed_seen first, once, due_once (by omega), none]
    obtain ⟨total, fit⟩ := h.count (n := 1)
    rw [← owed] at total fit
    rw [fire_once (t := t.seen now) once] at owed total fit ⊢
    refine ⟨total, fit, fun _ => rfl, fun x _ => iff_of_false (by simp) ?_, ?_, ?_⟩
    · rw [owed]
      exact not_or.mpr ⟨not_not_intro once, Nat.succ_ne_zero _⟩
    · rintro x - ⟨⟩
    · rintro ⟨⟩

/-- A periodic timer fires, once for each of its deadlines that has passed. -/
theorem Counts.periodic {t : TimerSlot} {now : Nat} (h : t.Counts) (armed : t.armed = true)
    (passed : t.deadlineNs ≤ now)
    (early : now < 2 ^ 63) (periodic : t.intervalNs ≠ 0) : ((t.seen now).fire now).Counts := by
  cases first : t.history.first with
  | none => exact absurd armed (by simp [h.idle first])
  | some d =>
    have deadline := h.at_deadline first armed passed early
    have some : 0 < t.intervalNs := Nat.pos_of_ne_zero periodic
    have owed : ((t.seen now).fire now).owed = t.owed + t.missed now := by
      rw [owed_fire, owed_seen first, due_caught_up some (deadline ▸ passed), ← deadline]
      rfl
    have ahead : now < t.deadlineNs + t.missed now * t.intervalNs := lt_next some passed
    have place : t.deadlineNs + t.missed now * t.intervalNs = d + (t.owed + t.missed now) * t.intervalNs := by
      rw [deadline, Nat.add_mul, Nat.add_assoc]
    obtain ⟨total, fit⟩ := h.count (n := t.missed now)
    rw [← owed] at total fit
    rw [fire_periodic (t := t.seen now) periodic] at owed total fit ⊢
    refine ⟨total, fit, fun none => ?_, fun x _ => iff_of_true armed (Or.inl periodic), fun x same _ => ?_,
      fun _ e same => ?_⟩
    · exact absurd (first.symm.trans none) (by simp)
    · obtain rfl : d = x := Option.some.inj (first.symm.trans same)
      rw [owed]
      change (if neverNs - t.deadlineNs < t.missed now * t.intervalNs then neverNs else
        t.deadlineNs + t.missed now * t.intervalNs) =
        d + (t.owed + t.missed now) * t.intervalNs ∨ 0 < t.owed + t.missed now ∧
          neverNs < d + (t.owed + t.missed now) * t.intervalNs ∧
          (if neverNs - t.deadlineNs < t.missed now * t.intervalNs then neverNs else
            t.deadlineNs + t.missed now * t.intervalNs) = neverNs
      rw [← place]
      split
      · exact Or.inr ⟨Nat.add_pos_right _ (Nat.succ_pos _), by omega, rfl⟩
      · exact Or.inl rfl
    · obtain rfl : now = e := Option.some.inj same
      change now < if neverNs - t.deadlineNs < t.missed now * t.intervalNs then neverNs else
        t.deadlineNs + t.missed now * t.intervalNs
      split
      · unfold neverNs
        omega
      · exact ahead

/-- A timer that is due owes as many fires more as it counts. -/
theorem Counts.fires {t : TimerSlot} {now : Nat} (h : t.Counts) (isDue : t.isDue now = true) (early : now < 2 ^ 63) :
    ((t.seen now).fire now).Counts := by
  obtain ⟨armed, passed⟩ : t.armed = true ∧ t.deadlineNs ≤ now := by simpa [TimerSlot.isDue] using isDue
  by_cases once : t.intervalNs = 0
  · exact h.once armed passed early once
  · exact h.periodic armed passed early once

end TimerSlot

/-- What holds of a timer when none was looked at after `now`. -/
structure TimerSlot.Kept [Hal] (t : TimerSlot) (now : Nat) : Prop where
  past : ∀ e, t.history.expired = some e → e ≤ now
  off : t.history.first = none → t.armed = false ∧ t.history.delivered + t.fires + t.history.lost = 0
  counts : (∀ e, t.history.expired = some e → e < 2 ^ 63) → t.Counts

section
variable [Hal]

theorem TimerSlot.Kept.later {t : TimerSlot} {b now : Nat} (h : t.Kept b) (le : b ≤ now) : t.Kept now :=
  ⟨fun e he => (h.past e he).trans le, h.off, h.counts⟩

theorem TimerSlot.Kept.seen {t : TimerSlot} {now : Nat} (h : t.Kept now) (waits : t.isDue now = false) :
    (t.seen now).Kept now := by
  refine ⟨fun e same => (Option.some.inj same).ge, h.off, fun early => ?_⟩
  have early : now < 2 ^ 63 := early now rfl
  exact (h.counts fun e he => (h.past e he).trans_lt early).waits waits early h.past

theorem TimerSlot.expired_fire {t : TimerSlot} {now : Nat} : (t.fire now).history.expired = t.history.expired := by
  unfold fire
  split <;> rfl

theorem TimerSlot.first_fire {t : TimerSlot} {now : Nat} : (t.fire now).history.first = t.history.first := by
  unfold fire
  split <;> rfl

theorem TimerSlot.Kept.fire {t : TimerSlot} {now : Nat} (h : t.Kept now) (isDue : t.isDue now = true) :
    ((t.seen now).fire now).Kept now := by
  have expired : ((t.seen now).fire now).history.expired = some now := TimerSlot.expired_fire
  refine ⟨fun e same => (Option.some.inj (expired.symm.trans same)).ge, fun first => ?_, fun early => ?_⟩
  · rw [TimerSlot.first_fire] at first
    simp [TimerSlot.isDue, (h.off first).1] at isDue
  have early : now < 2 ^ 63 := early now expired
  exact (h.counts fun e he => (h.past e he).trans_lt early).fires isDue early

theorem TimerSlot.Kept.arm {t : TimerSlot} {d i now : Nat} : (t.arm d i).Kept now :=
  ⟨fun _ => nofun, nofun, fun _ => .arm⟩

theorem TimerSlot.Kept.disarm {t : TimerSlot} {now : Nat} : t.disarm.Kept now :=
  ⟨fun _ => nofun, fun _ => ⟨rfl, rfl⟩, fun _ => .disarm⟩

theorem TimerSlot.Kept.consume {t : TimerSlot} {now : Nat} (h : t.Kept now) : t.consume.Kept now :=
  ⟨h.past, fun first => ⟨(h.off first).1, (congrArg (· + _) (Nat.add_zero _)).trans (h.off first).2⟩, fun early =>
    (h.counts early).consume⟩

/-- A timer that was never armed. -/
theorem TimerSlot.Kept.blank {t : TimerSlot} {now : Nat} (armed : t.armed = false) (fires : t.fires = 0)
    (history : t.history = .none) :
    t.Kept now := by
  have none : t.history.delivered + t.fires + t.history.lost = 0 := by
    rw [history, fires]
    rfl
  refine ⟨fun e same => ?_, fun _ => ⟨armed, none⟩, fun _ =>
    ⟨?_, fun _ => ?_, fun _ => armed, fun d same => ?_, fun d same => ?_, fun on => ?_⟩⟩
  · rw [history] at same
    cases same
  · rw [none, TimerSlot.owed_idle]
    rw [history]
    rfl
  · rw [history]
    rfl
  · rw [history] at same
    cases same
  · rw [history] at same
    cases same
  · rw [armed] at on
    cases on

/-- Every timer, when none was looked at after `b`, or after the clock's last reading. -/
structure Timers (b : Option Nat) (s : K) : Prop where
  kept : ∀ i, (s.timers.slot i).Kept (b.getD s.now)
  past : ∀ x, b = some x → x ≤ s.now

def countParts : List Part := [.timer .time, .machine .clock]

section
variable {s t : K} {b : Option Nat}

theorem Timers.time {i now : Nat} {v : TimerSlot} (same : TimerPart.time.same (s.timers.slot i) v)
    (h : (s.timers.slot i).Kept now) :
    v.Kept now := by
  obtain ⟨armed, deadline, interval, fires, history⟩ := same
  have owed : (s.timers.slot i).owed = v.owed := by
    unfold TimerSlot.owed
    rw [history, interval]
  refine ⟨history ▸ h.past, by rw [← armed, ← fires, ← history]; exact h.off, fun early => ?_⟩
  obtain ⟨total, fit, idle, running, next, later⟩ := h.counts (history ▸ early)
  rw [armed, deadline] at later
  rw [armed, owed, deadline, interval] at next
  rw [history] at total fit idle running next later
  rw [owed] at total fit running
  rw [fires] at total
  rw [armed] at idle running
  rw [interval] at running
  exact ⟨total, fit, idle, running, next, later⟩

theorem Timers.agree (h : Agree countParts s t) (hs : Timers b s) : Timers b t := by
  have clock : s.now = t.now := h (.machine .clock) (by decide)
  have time : ∀ i, TimerPart.time.same (s.timers.slot i) (t.timers.slot i) := h (.timer .time) (by decide)
  exact ⟨fun i => clock ▸ Timers.time (time i) (hs.kept i), fun x hx => clock ▸ hs.past x hx⟩

theorem Timers.donated (d : Donated s t) (hs : Timers b s) : Timers b t := by
  have clock : s.now = t.now := d.rest .clock (by decide) (by decide)
  refine ⟨fun i => ?_, fun x hx => clock ▸ hs.past x hx⟩
  rw [d.timers.slot]
  split
  · exact .blank rfl rfl rfl
  · exact clock ▸ hs.kept i

theorem Timers.change {i : Nat} {v : TimerSlot} (hs : Timers b s)
    (kept : (s.timers.slot i).Kept (b.getD s.now) → v.Kept (b.getD s.now)) :
    Timers b { s with timers := s.timers.set i v } := by
  refine ⟨fun j => ?_, hs.past⟩
  by_cases same : j = i
  · subst same
    simpa using kept (hs.kept j)
  · simpa [same] using hs.kept j

/-- The clock moves on. -/
theorem Timers.tick {n : Nat} {l : List Nat} (hs : Timers b s) : Timers b { s with now := s.now + n, lapse := l } := by
  refine ⟨fun i => (hs.kept i).later ?_, fun x hx => (hs.past x hx).trans (Nat.le_add_right _ _)⟩
  cases b with
  | none => exact Nat.le_add_right _ _
  | some x => exact Nat.le_refl x

/-- The timers are about to be looked at. -/
theorem Timers.look (hs : Timers none s) : Timers (some s.now) s := ⟨hs.kept, fun _ same => (Option.some.inj same).ge⟩

theorem Timers.looked {x : Nat} (hs : Timers (some x) s) :
    Timers none s := ⟨fun i => (hs.kept i).later (hs.past x rfl), fun _ => nofun⟩

end

/-! ### What the kernel does to timers -/

section
variable {G : Ev → Prop} {n : Nat} {A : K → Prop} {s t : K} {b : Option Nat}

theorem Timers.spares {α : Type} {m : M α} (hm : Spares countParts m) : Keeps G n A (Timers b) m :=
  hm.keeps fun _ _ same hs => hs.agree same

theorem wp_readTimer {B : Conduct K Ev} {i : Nat} {Q : TimerSlot → K → Prop} :
    wp G n (timers.read i) Q (.leaving B) s ↔ (i < s.timers.cap → Q (s.timers.slot i) s) := wp_read

theorem wp_modifyTimer {B : Conduct K Ev} {i : Nat} {f : TimerSlot → TimerSlot} {Q : Unit → K → Prop} :
    wp G n (timers.modify i f) Q (.leaving B) s ↔
      (i < s.timers.cap → Q () { s with timers := s.timers.set i (f (s.timers.slot i)) }) := wp_modify

theorem Timers.modify {i : Nat} {f : TimerSlot → TimerSlot} (hf : ∀ t now, t.Kept now → (f t).Kept now) :
    Keeps G n A (Timers b) (timers.modify i f) :=
  fun _ hs => wp_modifyTimer.mpr fun _ => hs.change (hf _ _)

theorem Timers.now : Keeps G n A (Timers b) timerNowNs :=
  fun _ hs => wp_bind.mpr (wp_modifies.mpr (wp_reads.mpr hs.tick))

theorem Timers.reprogram : Keeps G n A (Timers b) reprogramTimer := by
  unfold reprogramTimer
  refine .bind (Timers.spares (by simp)) fun _ => .bind (Timers.spares (by simp)) fun _ =>
    .ite (Timers.spares (by simp +decide)) ?_
  exact .bind Timers.now fun _ => Timers.spares (by simp +decide)

theorem Timers.consume {k : WaitableKind} {i : Nat} : Keeps G n A (Timers b) (waitableConsume k i) := by
  cases k with
  | timer => exact Timers.modify fun _ _ h => h.consume
  | event =>
    exact Timers.spares (m := events.modify i ({ · with word := 0 }))
      (spares_events fun _ => .inr (by simp [countParts]))
  | interrupt =>
    exact Timers.spares (m := interrupts.modify i (·.deliver))
      (spares_interrupts fun _ => .inr (by simp [countParts]))
  | pipeReply =>
    exact Timers.spares (m := exchanges.modify i ({ · with state := .settled }))
      (spares_exchanges fun _ => .inr (by simp [countParts]))
  | process | pipeOutlet | pipeInlet | pipeRequest => exact keeps_pure

theorem Timers.clear {i : Nat} : Keeps G n A (Timers b) (timers.write i .vacant) :=
  Timers.modify fun _ _ _ => .blank rfl rfl rfl

theorem Timers.freeTimer {u : ObjType → Nat → M Unit} {i : Nat} :
    Keeps G n A (Timers b) (Cascade.freeObject u .timer i) := by
  refine .bind (Timers.spares (by simp)) fun _ => .bind (.whenever (Timers.spares spares_fatalKernel)) fun _ => ?_
  exact .bind Timers.clear fun _ => .bind Timers.reprogram fun _ => Timers.spares (by simp +decide)

theorem Timers.watched : Watched G n A (Timers b) where
  quiet _ _ := trivial
  about _ _ same hs := hs.agree (same.mono (by decide))
  consume _ _ := Timers.consume
  freeInterrupt _ _ := Timers.spares (spares_freeInterrupt (by decide))
  freeTimer _ _ := Timers.freeTimer
  links := .plain (fun _ _ => trivial) (fun _ _ same hs => hs.agree same) (by decide)

/-- A look at one timer, which fires if it is due. -/
theorem Timers.expire {now i : Nat} : Keeps G n A (Timers (some now)) (do
    let timer ← timers.read i
    whenever (timer.state = .live) (timers.modify i (·.seen now))
    whenever (timer.state = .live && timer.isDue now) do
      whenever (timer.stepOverflows now) (halt .panic)
      timers.modify i (·.fire now)
      notifyReady .timer i) := by
  refine fun s hs =>
    wp_bind.mpr (wp_readTimer.mpr fun hi => wp_bind.mpr (wp_whenever.mpr ⟨fun live => ?_, fun idle => ?_⟩))
  · refine wp_modifyTimer.mpr fun _ => wp_whenever.mpr ⟨fun isDue => ?_, fun waits => ?_⟩
    · refine wp_bind.mpr
        (wp_whenever.mpr ⟨fun _ => wp_halt.mpr trivial, fun _ => wp_bind.mpr (wp_modifyTimer.mpr fun _ => ?_)⟩)
      refine Timers.watched.ground.notify _ ?_
      have fired := hs.change (i := i) (v := ((s.timers.slot i).seen now).fire now) fun h =>
        h.fire (by simpa [live] using isDue)
      simpa [Slab.set_set] using fired
    · exact hs.change fun h => h.seen (by simpa [live] using waits)
  · exact wp_whenever.mpr ⟨fun isDue => absurd isDue (by simp [idle]), fun _ => hs⟩

theorem Timers.timerInterrupt : Keeps G n A (Timers none) onTimerInterrupt := by
  refine fun s hs => wp_bind.mpr (wp_bind.mpr (wp_modifies.mpr (wp_reads.mpr ?_)))
  have hs := (hs.tick (n := s.lapse.headD 0) (l := s.lapse.tail)).look
  refine Keeps.bind (I := Timers (some _)) (Timers.spares (by simp)) (fun _ => ?_) _ hs |>.imp fun _ t ht => ht.looked
  refine .bind
    (.whenever (.bind (Timers.spares (spares_machine (fun _ => rfl) ?_)) fun _ => Timers.spares (by simp +decide)))
      fun _ => ?_
  · simp +decide [K.shape]
  exact .bind (.bind (Timers.spares (by simp)) fun _ => .countUp fun _ => Timers.expire) fun _ => Timers.reprogram

theorem Timers.serviced : Serviced G n A (Timers none) where
  toGround := Timers.watched.ground
  timerInterrupt := Timers.timerInterrupt
  externalIrq _ := .bind (Timers.spares (by simp +decide)) fun _ => by
    refine .bind (Timers.spares (by simp)) fun found => ?_
    cases found with
    | none => exact keeps_pure
    | some i =>
      refine .bind (Timers.spares ?_) fun _ => Timers.watched.ground.notify
      exact spares_interrupts fun _ => .inr (by simp [countParts])

theorem Timers.steady : Steady G n (Timers none) :=
  Timers.serviced.steadyDevices .any (fun _ _ same hs => hs.agree (same.mono (by decide)))
    (fun _ => Timers.spares (spares_sweep (fun _ => by simp +decide) fun _ => spares_interrupts fun _ =>
      .inr (by simp [countParts])))
    fun _ => .bind (.bind (Timers.spares (by simp)) fun _ => .countUp fun _ => .bind (Timers.spares (by simp)) fun _ =>
      .whenever (.bind keeps_pure fun _ => Timers.clear)) fun _ => Timers.reprogram

theorem Timers.create {p c : Nat} : Keeps G n (Timers none) (Timers none) (timerCreate p c) := by
  have w : Steady G n (Timers none) := Timers.steady
  refine w.create (by simp) fun _ => .bind (Timers.modify fun _ _ _ => .blank rfl rfl rfl) fun _ =>
    Timers.spares (by simp +decide)

theorem Timers.arm {p i a m : Nat} : Keeps G n (Timers none) (Timers none) (timerArm p i a m) := by
  have w : Steady G n (Timers none) := Timers.steady
  refine .bind (.whenever (w.faultProcess mortal_any)) fun _ => .bind (Timers.spares (by simp)) fun read => ?_
  cases read with
  | error why => exact w.faultProcess mortal_any
  | ok rec =>
    exact .bind Timers.now fun _ => .bind (Timers.modify fun _ _ _ => .arm) fun _ =>
      .bind Timers.reprogram fun _ => keeps_pure

theorem Timers.disarm {i : Nat} : Keeps G n (Timers none) (Timers none) (timerDisarm i) :=
  .bind (Timers.modify fun _ _ _ => .disarm) fun _ => .bind Timers.reprogram fun _ => keeps_pure

theorem Timers.read {p d c : Nat} : Keeps G n (Timers none) (Timers none) (clockNow p d c) := by
  have w : Steady G n (Timers none) := Timers.steady
  refine .bind (.whenever (w.faultProcess mortal_any)) fun _ => .bind Timers.now fun _ =>
    .bind (Timers.spares (by simp +decide)) fun _ => ?_
  exact .bind (w.refuse mortal_any) fun _ => keeps_pure

theorem Timers.grounded : SteadyGrounded G n (Timers none) := by
  have about : ∀ s t : K, Agree countParts s t → Timers none s → Timers none t := fun _ _ same hs => hs.agree same
  have w : Steady G n (Timers none) := Timers.steady
  refine w.watching (fun _ _ same hs => hs.agree (same.mono (by decide))) (fun _ _ d hs => hs.donated d)
    (fun q l s hs => ?_)
    (fun _ _ _ _ => w.interruptOp about (by decide) mortal_any) (fun _ _ _ => Timers.read) (fun _ _ => Timers.create)
    (fun _ _ _ _ => Timers.arm) fun _ => Timers.disarm
  exact w.interruptBind about (by decide) s ⟨hs, Or.inr mortal_any⟩

theorem Timers.fresh (hs : s.Fresh) : Timers none s := by
  refine ⟨fun i => ?_, fun _ => nofun⟩
  rw [hs.timers]
  exact .blank rfl rfl rfl

theorem Timers.reachable (h : ReachableWith G s) : Timers none s :=
  Grounded.reachable (fun _ => Timers.grounded) (fun _ s hs =>
    (Timers.serviced (A := fun _ => False)).bootDevices (fun _ _ same hs => hs.agree (same.mono (by decide))) s
      (.fresh hs)) h

end

/-- What a timer that was armed with deadline `d` has come to when it was looked at last at `e`: every deadline up to
    `e` was counted once, and the one it waits for is the first after `e`. -/
structure TimerSlot.OnSchedule (t : TimerSlot) (d e : Nat) : Prop where
  periodic : t.intervalNs ≠ 0 → t.history.delivered + t.fires + t.history.lost = Set.ncard
    {k | d + k * t.intervalNs ≤ e}
  oneShot : t.intervalNs = 0 → t.history.delivered + t.fires + t.history.lost = if d ≤ e then 1 else 0
  saturated : t.history.lost ≠ 0 → wordMax < t.history.delivered + t.fires + t.history.lost
  armed : t.armed = true ↔ t.intervalNs ≠ 0 ∨ e < d
  later : t.armed = true → e < t.deadlineNs
  congruent : t.intervalNs ≠ 0 → t.deadlineNs ≡ d [MOD t.intervalNs] ∨
    neverNs < d + Set.ncard {k | d + k * t.intervalNs ≤ e} * t.intervalNs ∧ t.deadlineNs = neverNs

theorem TimerSlot.Counts.onSchedule {t : TimerSlot} {d e : Nat} (h : t.Counts) (first : t.history.first = some d)
    (expired : t.history.expired = some e) : t.OnSchedule d e := by
  have owed : t.owed = due d t.intervalNs e := by simp [TimerSlot.owed, first, expired]
  have total := h.total
  have running := h.running d first
  refine ⟨fun periodic => ?_, fun once => ?_, fun lost => ?_, ?_, fun armed => h.later armed e expired,
    fun periodic => ?_⟩
  · rw [total, owed, ncard_due (Nat.pos_of_ne_zero periodic)]
  · rw [total, owed, once]
    split
    · exact due_once ‹_›
    · exact due_before (by omega)
  · by_contra fits
    exact lost (h.fit (by omega))
  · rw [running, owed]
    by_cases once : t.intervalNs = 0
    · rw [once, due_once_eq_zero]
    · exact iff_of_true (Or.inl once) (Or.inl once)
  · rw [ncard_due (Nat.pos_of_ne_zero periodic), ← owed]
    rcases h.next d first (running.mpr (Or.inl periodic)) with next | ⟨-, late⟩
    · rw [next]
      exact Or.inl (Nat.add_mul_mod_self_right _ _ _)
    · exact Or.inr late

/-- What a timer has come to: it is on schedule since it was armed, it was not looked at since, or it is off and owes
    nothing. -/
structure TimerSlot.Exact (t : TimerSlot) : Prop where
  schedule : ∀ d e, t.history.first = some d → t.history.expired = some e → e < 2 ^ 63 → t.OnSchedule d e
  waiting : ∀ d, t.history.first = some d → t.history.expired = none →
    t.armed = true ∧ t.deadlineNs = d ∧ t.history.delivered + t.fires + t.history.lost = 0
  off : t.history.first = none → t.armed = false ∧ t.history.delivered + t.fires + t.history.lost = 0

theorem TimerSlot.Kept.exact {t : TimerSlot} {now : Nat} (h : t.Kept now) : t.Exact := by
  refine ⟨fun d e first expired early => ?_, fun d first fresh => ?_, h.off⟩
  · refine (h.counts fun x same => ?_).onSchedule first expired
    obtain rfl : e = x := Option.some.inj (expired.symm.trans same)
    exact early
  · have counts := h.counts fun e same => by rw [fresh] at same; cases same
    have owed : t.owed = 0 := owed_armed first fresh
    have armed := (counts.running d first).mpr (Or.inr owed)
    refine ⟨armed, ?_, counts.total.trans owed⟩
    rcases counts.next d first armed with next | ⟨some, -⟩
    · rw [next, owed, Nat.zero_mul, Nat.add_zero]
    · omega

end

section

attribute [local instance] sampleBuild sampleTarget Riscv32.board

/-- The root makes a timer on the clock, and stores the highest byte of its interval, or the lowest, in the record
    that it then arms it with. -/
def timerArmed (va : Nat) (b : UInt8) (lapse : List Nat) : List Stimulus :=
  [.call 1 3 0 0 0, .call 6 1 0 0 0, ⟨.store va b, [], []⟩, { Stimulus.call 7 0 0x80200100 16 0 with lapse := lapse }]

end

end Sawos
