import Sawos.Kernel.Comparator
import Sawos.Kernel.Queue

/-! # Which threads are ready, and which runs

The threads on the ready queue are the ready ones, and no thread runs but the current one, as long as no process is
ended under another's running thread, and no ready thread is parked or made ready again. -/

namespace Sawos
open Exec

section
variable [Hal]

/-- Only threads of its own run when a process is ended, and a thread that is parked or made ready was not ready. -/
def Orderly : Ev → Prop
  | .mark (.ends p) s => ∀ t, s.currentThread = some t → (s.threads.slot t).process = p
  | .mark (.move t) s => (s.threads.slot t).state ≠ .runnable
  | _ => True

/-- No event of `G` parks a ready thread or makes it ready again. -/
def Moves (G : Ev → Prop) : Prop := ∀ t s, G (.mark (.move t) s) → (s.threads.slot t).state ≠ .runnable

theorem orderly_moves : Moves Orderly := fun _ _ => id

/-- The threads that are ready are those on the queue, and those that run are among `runs`. -/
structure Scheduled (runs : Nat → Prop) (s : K) : Prop where
  queue : ∃ l, Queue l s ∧ ∀ t, t ∈ l ↔ (s.threads.slot t).state = .runnable
  running : ∀ t, (s.threads.slot t).state = .running → runs t
  bound : ∀ t, s.threads.cap ≤ t → (s.threads.slot t).state = .free

def scheduleParts : List Part := [.thread .state, .thread .link, .machine .ready, .machine .slabs]

section
variable {s u : K} {runs runs' : Nat → Prop} {t : Nat}

theorem agree_threads_cap {S : List Part} (h : Agree S s u) (mem : Part.machine .slabs ∈ S) :
    s.threads.cap = u.threads.cap := by
  have shape : s.shape = u.shape := h (.machine .slabs) mem
  simp only [K.shape, List.cons.injEq, Prod.mk.injEq] at shape
  exact shape.2.1.1

theorem Scheduled.agree (h : Agree scheduleParts s u) (hs : Scheduled runs s) : Scheduled runs u := by
  obtain ⟨l, q, mem⟩ := hs.queue
  have state : ∀ i, (s.threads.slot i).state = (u.threads.slot i).state := h (.thread .state) (by decide)
  refine ⟨⟨l, q.agree (h.mono (by decide)), fun i => state i ▸ mem i⟩, fun i => state i ▸ hs.running i, fun i hi => ?_⟩
  rw [← state i]
  exact hs.bound i (agree_threads_cap h (by decide) ▸ hi)

theorem Scheduled.mono (hs : Scheduled runs s) (h : ∀ i, (s.threads.slot i).state = .running → runs i → runs' i) :
    Scheduled runs' s :=
  ⟨hs.queue, fun i run => h i run (hs.running i run), hs.bound⟩

theorem Scheduled.donated (d : Donated s u) (hs : Scheduled runs s) : Scheduled runs u := by
  obtain ⟨l, q, mem⟩ := hs.queue
  obtain ⟨head, tail⟩ : s.readyHead = u.readyHead ∧ s.readyTail = u.readyTail := d.rest .ready (by decide) (by decide)
  have slot : ∀ i, (u.threads.slot i).state = (s.threads.slot i).state ∧
      ((s.threads.slot i).state ≠ .free → u.threads.slot i = s.threads.slot i) := by
    intro i
    rw [d.threads.slot]
    split
    · rename_i new
      have free := hs.bound i new.1
      exact ⟨free.symm, fun used => absurd free used⟩
    · exact ⟨rfl, fun _ => rfl⟩
  have same : ∀ i ∈ l, s.links i = u.links i := by
    intro i hi
    have ready := (mem i).mp hi
    rw [K.links, K.links, (slot i).2 (by rw [ready]; decide)]
  refine ⟨⟨l, ⟨head ▸ q.chain.congr same, tail ▸ q.tail⟩, fun i => (slot i).1 ▸ mem i⟩, fun i =>
    (slot i).1 ▸ hs.running i, fun i hi => ?_⟩
  rw [(slot i).1]
  exact hs.bound i (d.threads.cap.trans hi)

/-- A thread that is not ready changes, and still is not. -/
theorem Scheduled.put (hs : Scheduled runs s) (ht : t < s.threads.cap) (out : (s.threads.slot t).state ≠ .runnable)
    {v : ThreadSlot}
    (still : v.state ≠ .runnable) (run : v.state = .running → runs t) :
      Scheduled runs { s with threads := s.threads.set t v } := by
  obtain ⟨l, q, mem⟩ := hs.queue
  refine ⟨⟨l, q.other fun h => out ((mem t).mp h), fun i => ?_⟩, fun i runs' => ?_, fun i hi => ?_⟩
  · by_cases same : i = t
    · subst same
      simpa [still] using fun h => out ((mem i).mp h)
    · simpa [same] using mem i
  · by_cases same : i = t
    · subst same
      exact run (by simpa using runs')
    · exact hs.running i (by simpa [same] using runs')
  · have other : i ≠ t := by
      rintro rfl
      exact absurd ht (Nat.not_lt.mpr hi)
    simpa [other] using hs.bound i hi

/-- The threads that are ready are those on the queue, and `t`, which is to be put there. -/
structure Arriving (runs : Nat → Prop) (t : Nat) (s : K) : Prop where
  queue : ∃ l, Queue l s ∧ t ∉ l ∧ ∀ i, i ∈ l ∨ i = t ↔ (s.threads.slot i).state = .runnable
  running : ∀ i, (s.threads.slot i).state = .running → runs i
  bound : ∀ i, s.threads.cap ≤ i → (s.threads.slot i).state = .free

theorem Arriving.agree (h : Agree scheduleParts s u) (hs : Arriving runs t s) : Arriving runs t u := by
  obtain ⟨l, q, out, mem⟩ := hs.queue
  have state : ∀ i, (s.threads.slot i).state = (u.threads.slot i).state := h (.thread .state) (by decide)
  refine ⟨⟨l, q.agree (h.mono (by decide)), out, fun i => state i ▸ mem i⟩, fun i =>
    state i ▸ hs.running i, fun i hi => ?_⟩
  rw [← state i]
  exact hs.bound i (agree_threads_cap h (by decide) ▸ hi)

/-- A thread that was not ready becomes so. -/
theorem Scheduled.arrive (hs : Scheduled runs s) (ht : t < s.threads.cap) (out : (s.threads.slot t).state ≠ .runnable)
    {v : ThreadSlot}
    (ready : v.state = .runnable) : Arriving (fun i => runs i ∧ i ≠ t) t { s with threads := s.threads.set t v } := by
  obtain ⟨l, q, mem⟩ := hs.queue
  have notIn : t ∉ l := fun h => out ((mem t).mp h)
  refine ⟨⟨l, q.other notIn, notIn, fun i => ?_⟩, fun i run => ?_, fun i hi => ?_⟩
  · by_cases same : i = t
    · simp [same, ready]
    · simpa [same] using mem i
  · by_cases same : i = t
    · subst same
      simp [ready] at run
    · exact ⟨hs.running i (by simpa [same] using run), same⟩
  · have other : i ≠ t := by
      rintro rfl
      exact absurd ht (Nat.not_lt.mpr hi)
    simpa [other] using hs.bound i hi

end

section
variable {n : Nat} {A : Conduct K Ev} {s : K} {runs : Nat → Prop} {t : Nat} {G : Ev → Prop}

theorem Arriving.push (hs : Arriving runs t s) : wp G n (readyPush t) (fun _ => Scheduled runs) (.leaving A) s := by
  obtain ⟨l, q, out, mem⟩ := hs.queue
  have place : Spares placeParts (readyPush t) := by simp +decide
  refine ((q.push out).andSpares place).imp fun _ u ⟨queue, same⟩ => ?_
  have state : ∀ i, (s.threads.slot i).state = (u.threads.slot i).state := same (.thread .state) (by decide)
  refine ⟨⟨l ++ [t], queue, fun i => ?_⟩, fun i => state i ▸ hs.running i, fun i hi => ?_⟩
  · rw [← state i, ← mem i]
    simp
  · rw [← state i]
    exact hs.bound i (agree_threads_cap same (by decide) ▸ hi)

theorem wp_move {Q : Unit → K → Prop} (moves : Moves G) (quiet : ∀ e : Ev, e.quiet → A.emitted e)
    (hQ : (s.threads.slot t).state ≠ .runnable → Q () s) : wp G n (mark (.move t)) Q (.leaving A) s :=
  wp_emits.mpr ⟨quiet _ (by simp), fun good => hQ (moves t s good)⟩

/-! ### What parks a thread, and what makes it ready -/

section
variable (quiet : ∀ e : Ev, e.quiet → A.emitted e)
include quiet

theorem Scheduled.spares {α : Type} {m : M α} (hm : Spares scheduleParts m) : Keeps G n A (Scheduled runs) m :=
  hm.keepsQuietly (fun _ _ same hs => hs.agree same) quiet

variable (moves : Moves G)
include moves

theorem Scheduled.ready : Leads G n A (Scheduled runs) (Scheduled fun i => runs i ∧ i ≠ t) (makeRunnable t) :=
  fun _ hs => wp_bind.mpr
    (wp_move moves quiet fun out => wp_bind.mpr (wp_modifyThread.mpr fun ht => (hs.arrive ht out rfl).push))

theorem Scheduled.take {w : Nat} : Keeps G n A (Scheduled runs) (takeBlocked w) := by
  refine fun s hs => wp_bind.mpr (wp_read.mpr fun _ => ?_)
  cases ((waiters.get s).slot w).blocked with
  | none => exact wp_pure.mpr hs
  | some t =>
    refine wp_bind.mpr (wp_move moves quiet fun out => wp_bind.mpr (wp_readThread.mpr fun _ => ?_))
    have rest : ∀ f, Spares scheduleParts (waiters.modify w f) := fun f => spares_waiters (by simp +decide)
    refine wp_bind.mpr (wp_sparesQuietly quiet (rest _) fun _ u same => ?_)
    have state : (s.threads.slot t).state = (u.threads.slot t).state := same (.thread .state) (by decide) t
    refine wp_bind.mpr (wp_modifyThread.mpr fun ht => wp_pure.mpr ?_)
    have hu := hs.agree same
    exact hu.put ht (state ▸ out) (state ▸ out) (hu.running t)

theorem Scheduled.tie {x d : Nat} : Keeps G n A (Scheduled runs) (tieCallReply t x d) := by
  refine fun s hs => wp_bind.mpr (wp_move moves quiet fun out => wp_bind.mpr (wp_modifyThread.mpr fun ht => ?_))
  refine Scheduled.spares quiet (spares_exchanges ?_) _ (hs.put ht out (by simp) (by simp))
  simp +decide

theorem Scheduled.join {c : Nat} : Keeps G n A (Scheduled runs) (blockOnJoin t c) := by
  refine fun s hs => wp_bind.mpr (wp_move moves quiet fun out => wp_bind.mpr (wp_readThread.mpr fun _ => ?_))
  refine wp_bind.mpr (wp_modifyThread.mpr fun ht => ?_)
  refine Scheduled.spares quiet (.bind (spares_threads ?_) fun _ => by simp +decide) _
    (hs.put ht out (by simp) (by simp))
  simp +decide

theorem Scheduled.wait {w d : Nat} : Keeps G n A (Scheduled runs) (blockOnWait t w d) := by
  refine fun s hs => wp_bind.mpr (wp_move moves quiet fun out => wp_bind.mpr (wp_read.mpr fun _ => ?_))
  refine wp_bind.mpr (wp_modifyThread.mpr fun ht => ?_)
  refine Scheduled.spares quiet (.bind (spares_waiters ?_) fun _ => by simp +decide) _
    (hs.put ht out (by simp) (by simp))
  simp +decide

theorem Scheduled.room {c a l d : Nat} : Keeps G n A (Scheduled runs) (blockOnCallRoom t c a l d) := by
  refine fun s hs => wp_bind.mpr (wp_move moves quiet fun out => wp_bind.mpr (wp_modifyThread.mpr fun ht => ?_))
  exact Scheduled.spares quiet (by simp +decide) _ (hs.put ht out (by simp) (by simp))

theorem Scheduled.exits {c : Nat} : Keeps G n A (Scheduled runs) (do
    mark (.move t)
    threads.modify t ({ · with state := .exited, exitCode := c })) :=
  fun s hs =>
    wp_bind.mpr (wp_move moves quiet fun out => wp_modifyThread.mpr fun ht => hs.put ht out (by simp) (by simp))

end

/-! ### While a thread runs, and while none does -/

/-- What a program keeps for any threads that may run, it keeps for those that the parts which it spares tell. -/
theorem Scheduled.relative {α : Type} {m : M α} {S : List Part} {R : K → Nat → Prop}
    (about : ∀ s t, Agree S s t → ∀ i, R s i → R t i) (h : ∀ runs, Keeps G n A (Scheduled runs) m) (hm : Spares S m) :
    Keeps G n A (fun s => Scheduled (R s) s) m :=
  fun s hs => ((h (R s) s hs).andSpares hm).imp fun _ u hu => hu.1.mono fun i _ => about s u hu.2 i

def runnerParts : List Part := [.machine .current, .thread .process]

section
variable (quiet : ∀ e : Ev, e.quiet → A.emitted e) (moves : Moves G) {R : K → Nat → Prop}
  (about : ∀ s t, Agree runnerParts s t → ∀ i, R s i → R t i)
include quiet moves about

theorem Scheduled.ground : Ground G n A fun s => Scheduled (R s) s := by
  have spares : ∀ {α : Type} {m : M α}, Spares scheduleParts m → Spares runnerParts m →
    Keeps G n A (fun s => Scheduled (R s) s) m :=
    fun h h' => Scheduled.relative about (fun _ => Scheduled.spares quiet h) h'
  exact
    { quiet := quiet
      about := fun s t same hs => (hs.agree (same.mono (by decide))).mono fun i _ => about s t (same.mono (by decide)) i
      release := fun _ => spares (by simp +decide) (by simp +decide)
      unmapped := fun _ => spares (spares_mappings (by simp +decide)) (spares_mappings (by simp +decide))
      reclaim := fun _ => spares (spares_processes (by simp +decide)) (spares_processes (by simp +decide))
      consume := fun _ _ => spares (by simp +decide) (by simp +decide)
      freeInterrupt := fun _ _ => spares (spares_freeInterrupt (by decide)) (spares_freeInterrupt (by decide))
      freeTimer := fun _ _ => spares (spares_freeTimer (by decide)) (spares_freeTimer (by decide))
      ready := fun _ => Scheduled.relative about (fun _ => (Scheduled.ready quiet moves).imp (fun _ => id) fun _ hs =>
        hs.mono fun _ _ => And.left) (by simp +decide)
      take := fun _ => Scheduled.relative about (fun _ => Scheduled.take quiet moves) (by simp +decide)
      tie := fun _ _ _ => Scheduled.relative about (fun _ => Scheduled.tie quiet moves) (by simp +decide)
      links := .plain (S := scheduleParts ++ runnerParts) quiet (fun s t same hs =>
        (hs.agree (same.mono (by decide))).mono fun i _ => about s t (same.mono (by decide)) i) (by decide) }

theorem Scheduled.serviced : Serviced G n A fun s => Scheduled (R s) s :=
  (Scheduled.ground quiet moves about).serviced (S := scheduleParts ++ runnerParts) (by decide) fun s t same hs =>
    (hs.agree (same.mono (by decide))).mono fun i _ => about s t (same.mono (by decide)) i

end

end

/-- Only the current thread runs. -/
def Going (s : K) : Prop := Scheduled (fun t => s.currentThread = some t) s

/-- No thread runs. -/
def Resting (s : K) : Prop := Scheduled (fun _ => False) s

/-- Only threads of process `p` run, and `others`. -/
def Busy (others : Nat → Prop) (p : Nat) (s : K) : Prop :=
    Scheduled (fun t => (s.threads.slot t).process = p ∨ others t) s

theorem Resting.going {s : K} (hs : Resting s) : Going s := hs.mono fun _ _ => False.elim

/-- No thread is ready, and none runs. -/
def K.Still (s : K) : Prop := ∀ t, (s.threads.slot t).state ≠ .runnable ∧ (s.threads.slot t).state ≠ .running

theorem Resting.still {s : K} (hs : Resting s) (empty : s.readyHead = none) : s.Still := by
  obtain ⟨l, q, mem⟩ := hs.queue
  obtain rfl := q.empty empty
  exact fun t => ⟨fun ready => List.not_mem_nil ((mem t).mpr ready), hs.running t⟩

section
variable {n : Nat} {A : Conduct K Ev} {s : K} {G : Ev → Prop} (quiet : ∀ e : Ev, e.quiet → A.emitted e)
include quiet

theorem Going.serviced : Serviced Orderly n A Going :=
  Scheduled.serviced quiet orderly_moves fun _ _ same i h => (same (.machine .current) (by decide)).symm.trans h

theorem Resting.serviced : Serviced Orderly n A Resting := Scheduled.serviced quiet orderly_moves fun _ _ _ _ => id

theorem Busy.ground (moves : Moves G) {others : Nat → Prop} {p : Nat} : Ground G n A (Busy others p) :=
  Scheduled.ground quiet moves fun _ _ same i => Or.imp_left (same (.thread .process) (by decide) i).1.symm.trans

/-- The current thread, if it can still run, goes to the end of the queue, and does not run after that. -/
theorem Scheduled.requeue (moves : Moves G) {others : Nat → Prop} {t : Nat} :
    Leads G n A (fun s => Scheduled others s ∧ s.currentThread = some t)
    (fun s => Scheduled (fun i => others i ∧ i ≠ t) s ∧ s.currentThread = some t) (requeueCurrent t) := by
  rintro s ⟨hs, cur⟩
  have rest : ∀ u, Scheduled (fun i => others i ∧ i ≠ t) u → u.currentThread = some t →
      wp G n (modifies ({ · with needResched := false }) : M Unit)
        (fun _ v => Scheduled (fun i => others i ∧ i ≠ t) v ∧ v.currentThread = some t) (.leaving A) u := by
    intro u hu cur
    obtain ⟨l, q, mem⟩ := hu.queue
    exact wp_modifies.mpr ⟨⟨⟨l, ⟨q.chain, q.tail⟩, mem⟩, hu.running, hu.bound⟩, cur⟩
  refine wp_bind.mpr (wp_readThread.mpr fun _ => wp_bind.mpr (wp_whenever.mpr ⟨fun _ => ?_, fun stopped => ?_⟩))
  · have same : Spares [.machine .current] (makeRunnable t) := by simp +decide
    refine ((Scheduled.ready quiet moves s hs).andSpares same).imp fun _ u ⟨hu, same⟩ => rest u hu ?_
    exact (same (.machine .current) (by decide)).symm.trans cur
  · refine rest s (hs.mono fun i run h => ⟨h, ?_⟩) cur
    rintro rfl
    simp [run] at stopped

theorem Going.requeue {t : Nat} : Leads Orderly n A (fun s => Going s ∧ s.currentThread = some t)
    (fun s => Going s ∧ Resting s ∧ s.currentThread = some t) (requeueCurrent t) := by
  rintro s ⟨hs, cur⟩
  have only : Scheduled (· = t) s := hs.mono fun i _ first => Option.some.inj (first.symm.trans cur)
  refine (Scheduled.requeue quiet orderly_moves s ⟨only, cur⟩).imp fun _ u ⟨hu, cur⟩ => ?_
  have rest : Resting u := hu.mono fun _ _ none => none.2 none.1
  exact ⟨rest.going, rest, cur⟩

/-- The thread at the head of the queue runs. -/
theorem Scheduled.run {others : Nat → Prop} {t : Nat} (hs : Scheduled others s) (head : s.readyHead = some t) :
    wp G n (runThread t) (fun _ u => Scheduled (fun i => u.currentThread = some i ∨ others i) u)
      (.leaving A) (s.popped t) := by
  obtain ⟨l, q, mem⟩ := hs.queue
  obtain ⟨l, rfl⟩ := q.of_head head
  have out := (List.nodup_cons.mp q.chain.nodup).1
  have popped := q.popped
  refine wp_bind.mpr (wp_modifies.mpr (wp_bind.mpr (wp_modifyThread.mpr fun ht => ?_)))
  have spares : ∀ {α : Type} {m : M α}, Spares (scheduleParts ++ [.machine .current]) m →
      Keeps G n A (fun u => Scheduled (fun i => u.currentThread = some i ∨ others i) u) m := fun h =>
    h.keepsQuietly (fun _ _ same hs => (hs.agree (same.mono (by decide))).mono fun i _ =>
      Or.imp_left (same (.machine .current) (by decide)).symm.trans) quiet
  refine spares (.bind ?_ fun _ => .bind (by simp) fun _ => .bind (by simp) fun _ => .whenever (by simp +decide)) _ ?_
  · simp +decide
  have queue : Queue l { s.popped t with currentThread := some t } := ⟨popped.chain, popped.tail⟩
  refine ⟨⟨l, queue.other out, fun i => ?_⟩, fun i run => ?_, fun i hi => ?_⟩
  · by_cases same : i = t
    · subst same
      simpa using out
    · simpa [K.popped, same] using mem i
  · by_cases same : i = t
    · rw [same]
      exact .inl rfl
    · exact .inr (hs.running i (by simpa [K.popped, same] using run))
  · have other : i ≠ t := by
      rintro rfl
      exact absurd ht (Nat.not_lt.mpr hi)
    simpa [K.popped, other] using hs.bound i hi

theorem Resting.run {t : Nat} (hs : Resting s) (head : s.readyHead = some t) :
    wp G n (runThread t) (fun _ => Going) (.leaving A) (s.popped t) :=
  (Scheduled.run quiet hs head).imp fun _ _ hu => hu.mono fun _ _ => fun now => now.resolve_right id

end

/-! ### The end of a process -/

/-- The threads of process `p` are off the queue, and only they run, and `others`. -/
structure Detached (others : Nat → Prop) (p : Nat) (s : K) : Prop where
  queue : ∃ l, Queue l s ∧ ∀ t, t ∈ l ↔ (s.threads.slot t).state = .runnable ∧ (s.threads.slot t).process ≠ p
  running : ∀ t, (s.threads.slot t).state = .running → (s.threads.slot t).process = p ∨ others t
  bound : ∀ t, s.threads.cap ≤ t → (s.threads.slot t).state = .free

section
variable {n p : Nat} {others : Nat → Prop} {A : Conduct K Ev} {s : K} {G : Ev → Prop}

theorem Busy.detach : Leads G n A (Busy others p) (Detached others p) (readyRemoveProcess p) := by
  intro s hs
  obtain ⟨l, q, mem⟩ := hs.queue
  refine q.remove.imp fun _ u ⟨queue, same⟩ => ?_
  have state : ∀ i, (s.threads.slot i).state = (u.threads.slot i).state := same (.thread .state) (by decide)
  have owner : ∀ i, (s.threads.slot i).process = (u.threads.slot i).process := fun i =>
    (same (.thread .process) (by decide) i).1
  refine ⟨⟨_, queue, fun i => ?_⟩, fun i run => ?_, fun i hi => ?_⟩
  · rw [List.mem_filter, mem i, state i, owner i, decide_eq_true_eq]
  · rw [← owner i]
    exact hs.running i ((state i).trans run)
  · rw [← state i]
    exact hs.bound i (agree_threads_cap same (by decide) ▸ hi)

/-- A thread of `p` is freed. -/
theorem Detached.clear (hs : Detached others p s) {t : Nat} (mine : (s.threads.slot t).process = p) :
    Detached others p { s with threads := s.threads.set t .vacant } := by
  obtain ⟨l, q, mem⟩ := hs.queue
  have out : t ∉ l := fun h => ((mem t).mp h).2 mine
  refine ⟨⟨l, q.other out, fun i => ?_⟩, fun i run => ?_, fun i hi => ?_⟩
  · by_cases same : i = t
    · subst same
      simpa [ThreadSlot.vacant] using out
    · simpa [same] using mem i
  · by_cases same : i = t
    · simp [same, ThreadSlot.vacant] at run
    · simpa [same] using hs.running i (by simpa [same] using run)
  · by_cases same : i = t
    · simp [same, ThreadSlot.vacant]
    · simpa [same] using hs.bound i hi

theorem Detached.rest (hs : Detached others p s)
    (gone : ∀ t < s.threads.cap, (s.threads.slot t).process = p → (s.threads.slot t).state = .free) :
    Scheduled others s := by
  obtain ⟨l, q, mem⟩ := hs.queue
  have free : ∀ t, (s.threads.slot t).process = p → (s.threads.slot t).state = .free := fun t mine =>
    (Nat.lt_or_ge t s.threads.cap).elim (fun ht => gone t ht mine) (hs.bound t)
  refine ⟨⟨l, q, fun t => (mem t).trans ⟨And.left, fun ready => ⟨ready, fun mine => ?_⟩⟩⟩, fun t run => ?_, hs.bound⟩
  · cases (free t mine).symm.trans ready
  · refine (hs.running t run).resolve_left fun mine => ?_
    cases (free t mine).symm.trans run

theorem Detached.sweep : Leads G n A (Detached others p) (Scheduled others)
    (sweep threads (fun t => t.process = p && t.state ≠ .free) (fun _ => pure ()) .vacant) := by
  intro s hs
  refine wp_bind.mpr (wp_capacity.mpr ?_)
  refine (wp_countUp (I := fun i u => Detached others p u ∧ u.threads.cap = s.threads.cap ∧ ∀ t < i,
    (u.threads.slot t).process = p → (u.threads.slot t).state = .free) ⟨hs, rfl, by simp⟩ ?_).imp fun _ u hu => ?_
  · rintro i u - - ⟨hu, cap, gone⟩
    refine wp_bind.mpr (wp_readThread.mpr fun _ => wp_whenever.mpr ⟨fun owned => ?_, fun other => ?_⟩)
    · simp only [Bool.and_eq_true, decide_eq_true_eq] at owned
      refine wp_bind.mpr (wp_pure.mpr (wp_modifyThread.mpr fun _ => ⟨hu.clear owned.1, cap, fun t ht => ?_⟩))
      by_cases same : t = i
      · simp [same, ThreadSlot.vacant]
      · simpa [same] using gone t (by omega)
    · refine ⟨hu, cap, fun t ht mine => ?_⟩
      by_cases same : t = i
      · subst same
        simpa [mine] using other
      · exact gone t (by omega) mine
  · obtain ⟨hu, cap, gone⟩ := hu
    exact hu.rest fun t ht => gone t (by simpa [threads, cap] using ht)

variable (quiet : ∀ e : Ev, e.quiet → A.emitted e)
include quiet

theorem Busy.dismantles (moves : Moves G) : Dismantles G n A p (Busy others p) (Scheduled others)
    (Busy others p) (Scheduled others) (Scheduled others) (Scheduled others) (Scheduled others) where
  enter _ _ := Scheduled.relative (S := runnerParts)
    (fun _ _ same i => Or.imp_left (same (.thread .process) (by decide) i).1.symm.trans)
    (fun _ => Scheduled.spares quiet (spares_processes (by simp +decide)))
    (spares_processes (by simp +decide))
  before := Busy.ground quiet moves
  threads := Busy.detach.bind fun _ => Detached.sweep
  idle := Scheduled.spares quiet (spares_idle (by decide))
  lines := Scheduled.spares quiet (spares_sweep (fun _ => by simp +decide) fun _ => spares_interrupts (by simp +decide))
  after := Scheduled.ground quiet moves fun _ _ _ _ => id
  timers := Scheduled.spares quiet (.bind (spares_sweep (fun _ => spares_pure) fun _ => spares_timers (by simp +decide))
    fun _ => by simp +decide)
  rows := Scheduled.spares quiet (by simp +decide)
  record := Scheduled.spares quiet (by simp +decide)
  boot := Scheduled.spares quiet (by simp +decide)
  quota := Scheduled.spares quiet (by simp +decide)
  reclaim := Scheduled.spares quiet (spares_processes (by simp +decide))

theorem Resting.spares {α : Type} {m : M α} (hm : Spares scheduleParts m) : Keeps G n A Resting m :=
  Scheduled.spares quiet hm

end

/-! ### Whole runs -/

/-- Where the machine waits, or gives up, nothing can run. -/
def Restful : Ev → Prop
  | .mark .idle s => s.Still
  | .mark .stuck s => s.Still ∧ s.hasExternalWakeSource = false
  | _ => True

theorem restful_quiet {e : Ev} (quiet : e.quiet) : Restful e := by
  cases e with
  | mark p s =>
    cases p with
    | idle => exact absurd rfl quiet.1
    | stuck => exact absurd rfl quiet.2
    | _ => trivial
  | _ => trivial

section
variable {n : Nat} {s u : K} {G : Ev → Prop}

def goingParts : List Part := .machine .current :: scheduleParts

theorem Going.agree (h : Agree goingParts s u) (hs : Going s) : Going u :=
  (Scheduled.agree (h.mono (by decide)) hs).mono fun _ _ first => (h (.machine .current) (by decide)).symm.trans first

theorem Going.spares {A : Conduct K Ev} (quiet : ∀ e : Ev, e.quiet → A.emitted e) {α : Type} {m : M α}
    (hm : Spares goingParts m) :
    Keeps G n A Going m :=
  hm.keepsQuietly (fun _ _ same hs => hs.agree same) quiet

theorem Going.upkeep : Upkeep Orderly Restful n Going Resting Going := by
  have quiet : ∀ e : Ev, e.quiet → Restful e := fun _ => restful_quiet
  have about : ∀ s t : K, Agree [.machine .current] s t → ∀ i, s.currentThread = some i → t.currentThread = some i :=
    fun _ _ same _ first => (same (.machine .current) (by decide)).symm.trans first
  exact
    { deadlock := trivial
      ground := Going.serviced quiet
      coarse := fun _ => id
      still := Resting.serviced quiet
      idles := fun _ hs empty => hs.still empty
      stuck := fun _ hs empty asleep => ⟨hs.still empty, asleep⟩
      requeue := fun _ => Going.requeue quiet
      run := fun _ _ hs head => hs.run quiet head
      join := fun _ _ => Scheduled.relative about (fun _ => Scheduled.join quiet orderly_moves) (by simp +decide)
      wait := fun _ _ _ => Scheduled.relative about (fun _ => Scheduled.wait quiet orderly_moves) (by simp +decide)
      room := fun _ _ _ _ _ => Scheduled.relative about (fun _ => Scheduled.room quiet orderly_moves) (by simp +decide)
      exit := fun _ _ => Scheduled.relative about (fun _ => Scheduled.exits quiet orderly_moves)
        (.bind (by simp) fun _ => spares_threads (by simp +decide))
      current := fun _ _ _ _ _ _ => trivial
      teardown := fun p k c _ told => (Busy.dismantles quiet orderly_moves).teardownFrom
        (fun s hs orderly => hs.mono fun i _ cur => .inl (orderly i cur)) told }

section
variable {V : Ev → Prop} {N B : K → Prop} {R : K → Nat → Prop} (w : Upkeep G V n (fun s => Scheduled (R s) s) N B)
  (about : ∀ s t : K, s.currentThread = t.currentThread → ∀ i, R s i → R t i)
include about

theorem Scheduled.pace (same : Agree goingParts s u) (hs : Scheduled (R s) s) : Scheduled (R u) u :=
  (hs.agree (same.mono (by decide))).mono fun i _ => about s u (same (.machine .current) (by decide)) i

include w

theorem Scheduled.threadCreate {q e sp a : Nat} :
    Leads G n ⟨B, V⟩ (fun s => Scheduled (R s) s ∧ (Fits q e sp s ∨ Mortal V q)) (fun s => Scheduled (R s) s)
      (threadCreate q e sp a) := by
  rintro s ⟨hs, may⟩
  refine wp_bind.mpr (wp_readProcess.mpr fun hq => wp_bind.mpr (wp_whenever.mpr ⟨fun bad => ?_, fun _ => ?_⟩))
  · refine (w.faultProcess_ends (may.resolve_left fun fits => ?_)).never hs
    simp [fits hq] at bad
  refine w.createIn (R := fun _ => True) (P := fun i u => (u.threads.slot i).state = .free) (fun _ _ _ _ => trivial)
    (fun u hu _ => wp_allocThread.mpr ⟨hu, fun i found => ?_⟩) (fun i u v same free => ?_) (fun i => ?_) s ⟨hs, trivial⟩
  · simpa using (Slab.find_some found).2
  · exact (same (.thread .state) (by decide) i).symm.trans free
  rintro u ⟨hu, free⟩
  refine wp_bind.mpr (wp_sparesQuietly (S := goingParts) w.ground.quiet (by simp +decide) fun _ v same => ?_)
  have free : (v.threads.slot i).state = .free := (same (.thread .state) (by decide) i).symm.trans free
  refine wp_bind.mpr (wp_modifyThread.mpr fun hi => ?_)
  refine wp_sparesQuietly (S := goingParts) w.ground.quiet (by simp +decide) fun _ x h => Scheduled.pace about h ?_
  refine ((hu.pace about same).put hi (by simp [free]) (by simp) (by simp)).mono fun i _ => about v _ ?_ i
  rfl

theorem Scheduled.start {p c f tag : Nat} (hp : Mortal V p) :
    Keeps G n ⟨B, V⟩ (fun s => Scheduled (R s) s) (processStart p c f tag) := by
  have quiet := w.ground.quiet
  intro s hs
  unfold processStart
  split
  · exact w.faultProcess hp s hs
  refine wp_bind.mpr (wp_readProcess.mpr fun _ => wp_bind.mpr (w.wp_check hp hs fun _ => ?_))
  refine wp_bind.mpr (wp_bind.mpr (wp_readProcess.mpr fun _ => wp_pure.mpr ?_))
  refine wp_ite.mpr ⟨fun _ => wp_bind.mpr (wp_allocThread.mpr ?_), fun _ => wp_pure.mpr hs⟩
  cases found : s.threads.find (·.state = .free) with
  | none => exact wp_pure.mpr hs
  | some i =>
    have free : (s.threads.slot i).state = .free := by simpa using (Slab.find_some found).2
    refine wp_bind.mpr (wp_sparesQuietly (S := goingParts) quiet ?_ fun word s₁ h₁ => ?_)
    · unfold bootWord
      split
      · exact spares_pure
      · exact .bind (by simp +decide) fun _ => spares_pure
    cases word with
    | none => exact w.faultProcess hp _ (hs.pace about h₁)
    | some word =>
      refine wp_bind.mpr (wp_sparesQuietly (S := goingParts) quiet (by simp +decide) fun _ s₂ h₂ => ?_)
      have same := h₁.trans h₂
      have free : (s₂.threads.slot i).state = .free := (same (.thread .state) (by decide) i).symm.trans free
      refine wp_bind.mpr (wp_modifyThread.mpr fun hi => ?_)
      have arriving := (hs.pace about same).arrive hi (by simp [free])
        (v := { ThreadSlot.vacant with state := .runnable, process := c }) rfl
      refine wp_bind.mpr (wp_sparesQuietly (S := goingParts) quiet (by simp +decide) fun _ s₃ h₃ => ?_)
      have current : s₂.currentThread = s₃.currentThread := h₃ (.machine .current) (by decide)
      have pushed := (arriving.agree (h₃.mono (by decide))).push (n := n) (G := G) (A := ⟨B, V⟩)
      refine wp_bind.mpr ((pushed.andSpares (S := [.machine .current]) (by simp +decide)).imp fun _ s₄ ⟨hs₄, h₄⟩ => ?_)
      refine wp_sparesQuietly (S := goingParts) quiet (.bind (spares_processes ?_) fun _ => spares_pure) fun _ s₅ h₅ =>
        Scheduled.pace about h₅
          (hs₄.mono fun j _ h => about _ _ (current.trans (h₄ (.machine .current) (by decide))) j h.1)
      simp +decide

theorem Scheduled.grounded : Grounded G V n (fun s => Scheduled (R s) s) N B := by
  have pace : ∀ s t, Agree goingParts s t → Scheduled (R s) s → Scheduled (R t) t := fun _ _ same =>
    Scheduled.pace about same
  refine w.grounded (fun s t same => pace s t (same.mono (by decide)))
    (w.devices fun s t same => pace s t (same.mono (by decide)))
    (fun s t d hs => ?_) (fun _ _ _ _ s hs => w.fillProcess pace (by decide) s hs.1)
    (fun _ _ _ _ => Scheduled.start w about)
    fun _ _ _ _ => Scheduled.threadCreate w about
  exact (Scheduled.donated d hs).mono fun i _ => about s t (d.rest .current (by decide) (by decide)) i

end

theorem Going.grounded : Grounded Orderly Restful n Going Resting Going :=
  Scheduled.grounded Going.upkeep fun _ _ same _ first => same.symm.trans first

theorem Resting.startProcess {e sp rb rt wb wt : Nat} :
    Leads G n Conduct.stays Resting Going (startProcess e sp rb rt wb wt) := by
  intro s hs
  have quiet : ∀ e : Ev, e.quiet → (Conduct.stays : Conduct K Ev).emitted e := fun _ _ => trivial
  have step : ∀ {α : Type} {m : M α} {Q : α → K → Prop} {u : K}, Spares scheduleParts m → Resting u →
    (∀ a v, Resting v → Q a v) →
      wp G n m Q (.leaving Conduct.stays) u := fun hm hu hQ => wp_sparesQuietly quiet hm fun a v same =>
        hQ a v (hu.agree same)
  unfold Sawos.startProcess
  refine wp_bind.mpr (step (spares_processes (by simp +decide)) hs fun _ s₁ h₁ => ?_)
  refine wp_bind.mpr (step (by simp +decide) h₁ fun _ s₂ h₂ => wp_bind.mpr (wp_readProcess.mpr fun _ => ?_))
  refine wp_bind.mpr (step (by simp +decide) h₂ fun _ s₃ h₃ =>
    wp_bind.mpr (step (by simp +decide) h₃ fun _ s₄ h₄ => ?_))
  refine wp_bind.mpr (step (by simp +decide) h₄ fun _ s₅ h₅ =>
    wp_bind.mpr (step (by simp +decide) h₅ fun _ s₆ h₆ => ?_))
  refine wp_bind.mpr (wp_allocThread.mpr ?_)
  cases found : s₆.threads.find (·.state = .free) with
  | none => exact wp_halt.mpr trivial
  | some main =>
    have free : (s₆.threads.slot main).state = .free := by simpa using (Slab.find_some found).2
    have mints : Spares scheduleParts (mintHandle rootProcess .thread threadRights main) := by simp +decide
    refine wp_bind.mpr (wp_sparesQuietly quiet mints fun _ s₇ same => wp_bind.mpr (wp_modifyThread.mpr fun hmain => ?_))
    have free : (s₇.threads.slot main).state = .free := (same (.thread .state) (by decide) main).symm.trans free
    have still : Scheduled (main = ·) s₇ := (h₆.agree same).mono fun _ _ => False.elim
    have put := still.put hmain (by simp [free])
      (v := { ThreadSlot.vacant with state := .running, process := rootProcess }) (by simp) fun _ => rfl
    have charge : Spares scheduleParts (quotaCharge rootProcess .thread) := by simp +decide
    refine wp_bind.mpr (wp_sparesQuietly quiet charge fun _ s₈ h₈ => wp_bind.mpr (wp_modifies.mpr ?_))
    obtain ⟨⟨l, q, mem⟩, running, bound⟩ := put.agree h₈
    refine Going.spares quiet (.bind (.whenever spares_halt) fun _ => .bind (by simp +decide) fun _ =>
      .bind ?_ fun _ => by simp +decide) _
      ⟨⟨l, ⟨q.chain, q.tail⟩, mem⟩, fun i run => congrArg some (running i run), bound⟩
    simp +decide

theorem Resting.fresh (hs : s.Fresh) : Resting s := by
  have slot : ∀ t, s.threads.slot t = .vacant := fun t => by rw [hs.threads]; rfl
  refine ⟨⟨[], ⟨hs.readyHead, hs.readyTail⟩, fun t => ?_⟩, fun t run => ?_, fun t _ => ?_⟩
  · rw [slot]
    simp [ThreadSlot.vacant]
  · rw [slot] at run
    cases run
  · rw [slot]
    rfl

theorem Going.boot : Leads Orderly n Conduct.stays Resting Going loadRootAndEnter := by
  have quiet : ∀ e : Ev, e.quiet → (Conduct.stays : Conduct K Ev).emitted e := fun _ _ => trivial
  refine boot_leads
    (fun _ => (Resting.serviced quiet).placeImage fun _ _ _ _ _ _ => Resting.spares quiet (by simp +decide))
    (Resting.spares quiet (by simp +decide)) fun _ _ _ _ _ _ => Resting.startProcess

end

/-! ### No deadline is missed -/

/-- The kernel that runs its threads in slices of `tick` microseconds, or, for `none`, without slices. -/
def bootTicking (tick : Option Nat) : M Unit := do
  match tick with
  | none => pure ()
  | some us => startTick us
  loadRootAndEnter

/-- The machine whose kernel runs its threads in slices, or without. -/
def ticking (tick : Option Nat) : Machine K Ev := .ofPrograms (fun s => s.Fresh ∧ s.tickPeriodNs = 0)
    (bootTicking tick) act

/-- Where the machine waits, its comparator is programmed. -/
def Timely : Ev → Prop
  | .mark .idle s => Programmed s
  | _ => True

/-- Where the machine waits, its comparator is programmed and nothing can run; where it gives up, nothing can run and no
    interrupt can change that. -/
def Attentive : Ev → Prop
  | .mark .idle s => Programmed s ∧ s.Still
  | .mark .stuck s => s.Still ∧ s.hasExternalWakeSource = false
  | _ => True

theorem attentive {e : Ev} (timely : Timely e) (restful : Restful e) : Attentive e := by
  cases e with
  | mark p s =>
    cases p with
    | idle => exact ⟨timely, restful⟩
    | stuck => exact restful
    | _ => trivial
  | _ => trivial

theorem timely_promised : Promised Timely Programmed where
  quiet e quiet := by
    cases e with
    | mark p s =>
      cases p with
      | idle => exact absurd rfl quiet.1
      | _ => trivial
    | _ => trivial
  mortal _ _ _ := trivial
  idle _ hs := hs
  stuck _ _ := trivial

section
variable {tick : Option Nat} {G : Ev → Prop} {n : Nat} {s : K}

theorem Programmed.startTick {us : Nat} {I : K → Prop} : Leads G n Conduct.stays I Programmed (startTick us) := by
  have free : ∀ {α : Type} {m : M α}, Spares [] m → Keeps G n Conduct.stays (fun _ => True) m :=
    keeps_true fun _ _ => trivial
  refine Leads.imp (I := fun _ => True) (J := Programmed) ?_ (fun _ _ => trivial) fun _ => id
  refine (Keeps.whenever (free (by simp))).leads.bind fun _ => (free ?_).leads.bind fun _ => ?_
  · exact spares_machine (fun _ => rfl) fun _ => .inr (by simp)
  refine (free (by simp)).leads.bind fun _ => (free ?_).leads.bind fun _ => Programmed.reprogram
  exact spares_machine (fun _ => rfl) fun _ => .inr (by simp)

theorem Programmed.boot : Leads G n Conduct.stays (fun s => s.Fresh ∧ s.tickPeriodNs = 0) Programmed
    (bootTicking tick) := by
  have quiet : ∀ e : Ev, e.quiet → (Conduct.stays : Conduct K Ev).emitted e := fun _ _ => trivial
  have load := (Programmed.serviced quiet).bootDevices (G := G) (n := n) fun _ _ same hs =>
    hs.agree (same.mono (by decide))
  cases tick with
  | none =>
    rintro s ⟨fresh, off⟩
    refine load s ⟨fun i _ live => ?_, fun on => absurd off on⟩
    rw [fresh.timers] at live
    cases live
  | some us => exact Programmed.startTick.bind fun _ => load

theorem Resting.startTick {us : Nat} : Keeps G n Conduct.stays Resting (startTick us) := by
  have spares : ∀ {α : Type} {m : M α}, Spares scheduleParts m → Keeps G n Conduct.stays Resting m :=
    Resting.spares fun _ _ => trivial
  refine .bind (.whenever (spares (by simp))) fun _ => .bind (spares (spares_machine (fun _ => rfl) ?_)) fun _ => ?_
  · simp +decide [K.shape]
  refine .bind (spares (by simp +decide)) fun _ => .bind (spares (spares_machine (fun _ => rfl) ?_)) fun _ =>
    spares (by simp +decide)
  simp +decide [K.shape]

theorem Going.bootTicking : Leads Orderly n Conduct.stays (fun s => s.Fresh ∧ s.tickPeriodNs = 0) Going
    (bootTicking tick) := by
  rintro s ⟨fresh, -⟩
  cases tick with
  | none => exact Going.boot s (.fresh fresh)
  | some us => exact wp_bind.mpr ((Resting.startTick s (.fresh fresh)).imp fun _ => Going.boot)

/-- In every orderly run the comparator is in time for each deadline, and the machine neither waits nor gives up while
    a thread can run. -/
theorem no_deadline_is_missed (h : (ticking tick).Reach Orderly s) :
    Programmed s ∧ ∀ i n, Told Orderly Attentive (act i n s).trace := by
  have programmed : Programmed s := h.ofPrograms (fun _ => Programmed.boot) fun _ _ =>
    (Programmed.grounded timely_promised).act timely_promised.mortal
  have going : Going s := h.ofPrograms (fun _ => Going.bootTicking) fun _ _ => Going.grounded.act fun _ _ _ => trivial
  refine ⟨programmed, fun i n => ?_⟩
  have timely :=
    ((Programmed.grounded timely_promised).act (G := Orderly) (n := n)
      (i := i) timely_promised.mortal s programmed).told
  have restful := (Going.grounded.act (n := n) (i := i) (fun _ _ _ => trivial) s going).told
  exact (timely.and restful).mono (fun _ => id) fun _ both => attentive both.1 both.2

end

/-- The events up to here are orderly. -/
def orderlyTest : Ev → Bool
  | .mark (.ends p) s => s.currentThread.all fun t => (s.threads.slot t).process = p
  | .mark (.move t) s => (s.threads.slot t).state ≠ .runnable
  | _ => true

theorem orderly_of_test {e : Ev} (h : orderlyTest e = true) : Orderly e := by
  cases e with
  | mark p s =>
    cases p with
    | ends p =>
      intro t cur
      simpa [orderlyTest, cur] using h
    | move t => simpa [orderlyTest, Orderly] using h
    | _ => trivial
  | _ => trivial

/-- What a machine without a tick does for a list of inputs. -/
def playedTicking (is : List Stimulus) : Option (K × List Ev) := Machine.play (bootTicking none) act 64 is K.zero

theorem ticking_of_played {i : List Stimulus} {c : K → Bool} {g : Ev → Bool}
    (h : (playedTicking i).any (fun (s, t) => c s && t.all g) = true) (hg : ∀ e, g e = true → G e) :
    ∃ s, (ticking none).Reach G s ∧ c s = true :=
  Machine.reach_of_play ⟨K.fresh_zero, rfl⟩ h hg

end

section

attribute [local instance] sampleBuild sampleTarget Riscv32.board

/-- While the root waits for the timer that it armed at 5, the machine waits with its comparator at 50005. -/
theorem no_deadline_is_missed_waiting : ∃ s : K, (s.timers.slot 0).armed = true ∧
    (s.timers.slot 0).deadlineNs = 5 ∧ s.InTime 5 ∧ ∀ i n, Told Orderly Attentive (act i n s).trace := by
  obtain ⟨s, reached, found⟩ := ticking_of_played (G := Orderly) (i := timerArmed 0x80200108 10 [5])
    (c := fun s => let t := s.timers.slot 0
      decide (0 < s.timers.cap ∧ t.state = .live ∧ t.armed = true ∧ t.deadlineNs = 5))
    (g := orderlyTest) (by decide +kernel) fun _ => orderly_of_test
  obtain ⟨cap, live, armed, deadline⟩ := of_decide_eq_true found
  obtain ⟨programmed, told⟩ := no_deadline_is_missed reached
  exact ⟨s, armed, deadline, deadline ▸ programmed.armed 0 cap live armed, told⟩

end

section

attribute [local instance] pairBuild sampleTarget Riscv32.board

/-- The machine gives up while the root's thread runs. -/
def desertsRoot : Ev → Bool
  | .mark .stuck s => decide ((s.threads.slot 0).state = .running)
  | _ => false

/-- The root, which runs, ends a child that it has just made, and the machine gives up. -/
theorem gives_up_under_root : ∃ s : K, (ticking none).Reach (fun _ => True) s ∧
    ∃ e ∈ (act (.call 6 2 0 0 0) 64 s).trace, ¬Attentive e := by
  obtain ⟨s, reached, found⟩ := ticking_of_played (G := fun _ => True) (i := [.call 1 4 4 5 0])
    (c := fun s => (act (.call 6 2 0 0 0) 64 s).trace.any desertsRoot)
    (g := fun _ => true) (by decide +kernel) fun _ _ => trivial
  obtain ⟨e, mem, stuck⟩ := List.any_eq_true.mp found
  refine ⟨s, reached, e, mem, fun good => ?_⟩
  unfold desertsRoot at stuck
  split at stuck
  · exact (good.1 0).2 (of_decide_eq_true stuck)
  · cases stuck

end
end Sawos
