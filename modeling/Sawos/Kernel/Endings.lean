import Sawos.Kernel.Samples

/-! # Whom a system call ends

A system call ends its caller for an error, and ends the process that it orders to exit. Three operations that create
something for another process end that process for an error of the caller's. -/

namespace Sawos
open Exec

section
variable [Hal]

/-! ### The thread that runs -/

/-- The thread that runs has a slot that is in use, and its process satisfies `P`. -/
def Seated (P : Nat → Prop) (s : K) : Prop :=
  ∀ t, s.currentThread = some t →
    t < s.threads.cap ∧ (s.threads.slot t).state ≠ .free ∧ P (s.threads.slot t).process

def seatParts : List Part := [.thread .process, .machine .current, .machine .slabs]

section
variable {G V : Ev → Prop} {n : Nat} {A : Conduct K Ev} {P : Nat → Prop} {s t : K}

theorem agree_seat (h : Agree seatParts s t) : s.currentThread = t.currentThread ∧ s.threads.cap = t.threads.cap ∧
    ∀ i, (s.threads.slot i).process = (t.threads.slot i).process ∧
      ((t.threads.slot i).state = .free → (s.threads.slot i).state = .free) := by
  have shape : s.shape = t.shape := h (.machine .slabs) (by decide)
  simp only [K.shape, List.cons.injEq, Prod.mk.injEq] at shape
  exact ⟨h (.machine .current) (by decide), shape.2.1.1, h (.thread .process) (by decide)⟩

theorem Seated.agree (h : Agree seatParts s t) (hs : Seated P s) : Seated P t := by
  obtain ⟨current, cap, threads⟩ := agree_seat h
  intro i hi
  obtain ⟨inCap, used, own⟩ := hs i (current ▸ hi)
  exact ⟨cap ▸ inCap, fun free => used ((threads i).2 free), (threads i).1 ▸ own⟩

theorem Seated.idle (h : s.currentThread = none) : Seated P s := by
  intro t ht
  rw [h] at ht
  cases ht

theorem Seated.of_calls {c : Nat} (hs : Seated P s) (calls : Calls c s) : Seated (· = c) s := by
  intro t ht
  simp only [Calls, ht] at calls
  exact ⟨calls.1, (hs t ht).2.1, calls.2.symm⟩

/-- A slot that is not the seat may change. -/
theorem Seated.setThread (hs : Seated P s) {i : Nat} {v : ThreadSlot} (other : s.currentThread ≠ some i) :
    Seated P { s with threads := s.threads.set i v } := by
  intro t ht
  have apart : t ≠ i := by
    rintro rfl
    exact other ht
  simp only [Slab.set_slot, apart, if_false]
  exact hs t ht

/-- The seat is not free. -/
theorem Seated.ne_found (hs : Seated P s) {i : Nat} (found : s.threads.find (·.state = .free) = some i) :
    s.currentThread ≠ some i := by
  intro seat
  have free := (Slab.find_some found).2
  exact (hs i seat).2.1 (by simpa using free)

theorem Seated.donated (d : Donated s t) (hs : Seated P s) : Seated P t := by
  have current : s.currentThread = t.currentThread := d.rest .current (by decide) (by decide)
  intro i hi
  obtain ⟨inCap, used, own⟩ := hs i (current ▸ hi)
  rw [d.threads.old inCap]
  exact ⟨Nat.lt_of_lt_of_le inCap d.threads.cap, used, own⟩

section
variable (quiet : ∀ e : Ev, e.quiet → A.emitted e)
include quiet

theorem Seated.spares {α : Type} {m : M α} (hm : Spares seatParts m) : Keeps G n A (Seated P) m :=
  hm.keepsQuietly (fun _ _ h hs => hs.agree h) quiet

theorem Seated.bedrock : Bedrock G n A (Seated P) where
  quiet := quiet
  about _ _ h hs := hs.agree (h.mono (by decide))
  release _ := Seated.spares quiet (by simp +decide)
  unmapped _ := Seated.spares quiet (spares_mappings (by simp +decide))
  reclaim _ := Seated.spares quiet (spares_processes (by simp +decide))

end

/-! ### Every operation keeps the seat -/

section
variable {N B : K → Prop} (w : Upkeep G V n (Seated P) N B)
include w

theorem Seated.fillProcess {slot img dst : Nat} {dest : LoadRegion} :
    Keeps G n ⟨B, V⟩ (Seated P) (fillProcess slot img dest dst) := by
  have quiet := w.ground.quiet
  refine .bind (w.ground.placeImage fun _ _ _ _ _ _ => Seated.spares quiet (by simp +decide)) fun _ => ?_
  refine .bind (w.spares (by simp)) fun _ => .bind (Seated.spares quiet (spares_processes ?_)) fun _ => ?_
  · simp +decide
  exact Seated.spares quiet (.bind (by simp +decide) fun _ => .bind (by simp) fun _ => by simp +decide)

theorem Seated.threadCreate {q e sp a : Nat} :
    Leads G n ⟨B, V⟩ (fun s => Seated P s ∧ (Fits q e sp s ∨ Mortal V q)) (Seated P) (threadCreate q e sp a) := by
  rintro s ⟨hs, may⟩
  refine wp_bind.mpr (wp_readProcess.mpr fun hq => wp_bind.mpr (wp_whenever.mpr ⟨fun bad => ?_, fun _ => ?_⟩))
  · refine (w.faultProcess_ends (may.resolve_left fun fits => ?_)).never hs
    have fit := fits hq
    rw [fit] at bad
    cases bad
  refine wp_bind.mpr (wp_bind.mpr (wp_readProcess.mpr fun _ => wp_pure.mpr ?_))
  refine wp_ite.mpr ⟨fun _ => ?_, fun _ => wp_pure.mpr hs⟩
  refine wp_bind.mpr (wp_allocThread.mpr ?_)
  cases found : s.threads.find (·.state = .free) with
  | none => exact wp_pure.mpr hs
  | some i =>
    have other := hs.ne_found found
    refine wp_bind.mpr (wp_sparesQuietly (S := seatParts) w.ground.quiet (by simp +decide) fun h s₁ h₁ => ?_)
    refine wp_ite.mpr ⟨fun _ => ?_, fun _ => wp_bind.mpr (wp_bind.mpr ?_)⟩
    · exact w.spares (.bind (by simp) fun _ => spares_pure) s₁ (hs.agree h₁)
    refine wp_sparesQuietly (S := seatParts) w.ground.quiet (by simp +decide) fun _ s₂ h₂ => ?_
    have same := h₁.trans h₂
    refine wp_bind.mpr (wp_modifyThread.mpr fun _ => ?_)
    refine (w.spares (by simp +decide) _ ((hs.agree same).setThread ((agree_seat same).1 ▸ other))).imp ?_
    exact fun _ t ht => wp_pure.mpr ht

theorem Seated.start {p c f tag : Nat} (hp : Mortal V p) :
    Keeps G n ⟨B, V⟩ (Seated P) (processStart p c f tag) := by
  intro s hs
  unfold processStart
  split
  · exact w.faultProcess hp s hs
  refine wp_bind.mpr (wp_readProcess.mpr fun _ => wp_bind.mpr (w.wp_check hp hs fun _ => ?_))
  refine wp_bind.mpr (wp_bind.mpr (wp_readProcess.mpr fun _ => wp_pure.mpr ?_))
  refine wp_ite.mpr ⟨fun _ => wp_bind.mpr (wp_allocThread.mpr ?_), fun _ => wp_pure.mpr hs⟩
  cases found : s.threads.find (·.state = .free) with
  | none => exact wp_pure.mpr hs
  | some i =>
    have other := hs.ne_found found
    refine wp_bind.mpr (wp_sparesQuietly (S := seatParts) w.ground.quiet ?_ fun word s₁ h₁ => ?_)
    · unfold bootWord
      split
      · exact spares_pure
      · exact .bind (by simp +decide) fun _ => spares_pure
    cases word with
    | none => exact w.faultProcess hp _ (hs.agree h₁)
    | some word =>
      refine wp_bind.mpr (wp_sparesQuietly (S := seatParts) w.ground.quiet (by simp +decide) fun _ s₂ h₂ => ?_)
      have same := h₁.trans h₂
      refine wp_bind.mpr (wp_modifyThread.mpr fun _ => ?_)
      refine Seated.spares w.ground.quiet ?_ _ ((hs.agree same).setThread ((agree_seat same).1 ▸ other))
      refine .bind (by simp +decide) fun _ => .bind (by simp +decide) fun _ => .bind ?_ fun _ => spares_pure
      exact spares_processes (by simp +decide)

theorem Seated.grounded : Grounded G V n (Seated P) N B :=
  w.grounded (fun _ _ h hs => hs.agree (h.mono (by decide))) (w.devices fun _ _ h hs => hs.agree (h.mono (by decide)))
    (fun _ _ d hs => hs.donated d)
    (fun _ _ _ _ s hs => Seated.fillProcess w s hs.1) (fun _ _ _ _ hp => Seated.start w hp) fun _ _ _ _ =>
      Seated.threadCreate w

end

/-- The thread that is chosen to run has a slot. -/
theorem Seated.runThread {I : K → Prop} {next : Nat} (quiet : ∀ e : Ev, e.quiet → A.emitted e) :
    Leads G n A I (Seated fun _ => True) (runThread next) := by
  intro s _
  refine wp_bind.mpr (wp_modifies.mpr (wp_bind.mpr (wp_modifyThread.mpr fun inCap => ?_)))
  refine Seated.spares quiet (.bind ?_ fun _ => ?_) _ ?_
  · simp +decide
  · exact .bind (by simp) fun _ => .bind (by simp) fun _ => .whenever (by simp +decide)
  intro t ht
  cases ht
  exact ⟨inCap, by simp, trivial⟩

/-- At the end of a process no thread runs. -/
theorem Seated.dismantles {p : Nat} :
    Dismantles G n (Seated fun _ => True) p (Seated fun _ => True) (Seated fun _ => True) (Seated fun _ => True)
      (fun _ => True) (Seated fun _ => True) (Seated fun _ => True) (Seated fun _ => True) where
  enter _ _ := Seated.spares (fun _ _ => trivial) (spares_processes (by simp +decide))
  before := (Seated.bedrock fun _ _ => trivial).ground
  threads := (keeps_true (fun _ _ => trivial) (spares_sweepThreads (S := []) (by simp) (by simp))).leads.imp
    (fun _ _ => trivial) fun _ => id
  idle s _ := wp_modifies.mpr (.idle rfl)
  lines := (Seated.bedrock fun _ _ => trivial).sweepLines
  after := (Seated.bedrock fun _ _ => trivial).ground
  timers := (Seated.bedrock fun _ _ => trivial).sweepTimers
  rows := Seated.spares (fun _ _ => trivial) (by simp +decide)
  record := Seated.spares (fun _ _ => trivial) (by simp +decide)
  boot := Seated.spares (fun _ _ => trivial) (by simp +decide)
  quota := Seated.spares (fun _ _ => trivial) (by simp +decide)
  reclaim := (Seated.bedrock fun _ _ => trivial).reclaim p

theorem Seated.upkeep : Steady G n (Seated fun _ => True) :=
  have serviced := (Seated.bedrock fun _ _ => trivial).serviced
  have about : ∀ s t, Agree calmParts s t → Seated (fun _ => True) s → Seated (fun _ => True) t := fun _ _ same hs =>
    hs.agree (same.mono (by decide))
  .calm trivial (fun _ _ => trivial) (fun _ _ _ _ => trivial) about serviced (fun _ => id) about serviced
    (fun _ => Seated.runThread fun _ _ => trivial)
    (fun _ _ _ _ => mortal_any) fun _ _ _ _ _ => Seated.dismantles.teardown trivial

theorem Seated.startProcess {e sp rb rt wb wt : Nat} :
    Leads G n Conduct.stays (Seated P) (Seated fun _ => True) (startProcess e sp rb rt wb wt) := by
  intro s _
  have quiet : ∀ e : Ev, e.quiet → (Conduct.stays : Conduct K Ev).emitted e := fun _ _ => trivial
  unfold Sawos.startProcess
  refine wp_bind.mpr (wp_sparesQuietly (S := []) quiet (spares_processes fun _ => .inr (by simp)) fun _ s₁ _ => ?_)
  refine wp_bind.mpr (wp_sparesQuietly (S := []) quiet (by simp) fun _ s₂ _ =>
    wp_bind.mpr (wp_readProcess.mpr fun _ => ?_))
  refine wp_bind.mpr (wp_sparesQuietly (S := []) quiet (by simp) fun _ s₃ _ => ?_)
  refine wp_bind.mpr (wp_sparesQuietly (S := []) quiet (by simp) fun _ s₄ _ => ?_)
  refine wp_bind.mpr (wp_sparesQuietly (S := []) quiet (by simp) fun _ s₅ _ => ?_)
  refine wp_bind.mpr (wp_sparesQuietly (S := []) quiet (by simp) fun _ s₆ _ => wp_bind.mpr (wp_allocThread.mpr ?_))
  cases s₆.threads.find (·.state = .free) with
  | none => exact wp_halt.mpr trivial
  | some main =>
    refine wp_bind.mpr (wp_sparesQuietly (S := []) quiet (by simp) fun _ s₇ _ => ?_)
    refine wp_bind.mpr (wp_modifyThread.mpr fun inCap => ?_)
    refine wp_bind.mpr (wp_sparesQuietly (S := seatParts) quiet (by simp +decide) fun _ s₈ h => ?_)
    obtain ⟨-, cap, threads⟩ := agree_seat h
    refine wp_bind.mpr (wp_modifies.mpr ?_)
    refine Seated.spares quiet
      (.bind (.whenever spares_halt) fun _ => .bind (by simp +decide) fun _ => .bind ?_ ?_) _ ?_
    · simp +decide
    · exact fun _ => by simp +decide
    intro t ht
    cases ht
    exact ⟨cap ▸ inCap, fun free => by simpa using (threads main).2 free, trivial⟩

theorem Seated.boot : Leads G n Conduct.stays K.Fresh (Seated fun _ => True) loadRootAndEnter := fun s hs =>
  boot_leads (I := Seated fun _ => True) (J := Seated fun _ => True) (L := Seated fun _ => True)
    (fun _ => (Seated.bedrock fun _ _ => trivial).serviced.placeImage fun _ _ _ _ _ _ =>
      Seated.spares (fun _ _ => trivial) (by simp +decide))
    (Seated.spares (fun _ _ => trivial) (by simp +decide)).leads (fun _ _ _ _ _ _ => Seated.startProcess) s
    (.idle hs.currentThread)

theorem Seated.reachable (h : Reachable s) : Seated (fun _ => True) s :=
  Grounded.reachable (fun _ => Seated.grounded Seated.upkeep) (fun _ => Seated.boot) h

end

/-! ### What a call accounts for -/

/-- Process `c` orders process `q` to exit, through a handle that allows it. -/
def Orders (c handle op q : Nat) (s : K) : Prop :=
  let entry := (s.processes.slot c).lookup handle
  entry.objType = .process ∧ entry.target = q ∧ ProcessOp.ofRaw op = some .exit ∧
    allows entry.rights ProcessRight.exit = true

/-- The ends that a system call of process `c` accounts for: its own, that of the process which it orders to exit, and
    that of the root with which the machine goes down; it gives up only where no thread is ready and nothing can wake
    one. -/
def Justified (c handle op arg0 : Nat) (s : K) : Ev → Prop
  | .ending q kind code =>
    q = c ∨ (Orders c handle op q s ∧ kind = .exited ∧ code = arg0) ∨
      (q = rootProcess ∧ kind = .faulted ∧ code = FaultReason.deadlock.word)
  | .mark .stuck u => u.readyHead = none ∧ u.hasExternalWakeSource = false
  | .answered _ _ _ | .console _ | .irqMask _ | .irqUnmask _ | .irqComplete _ | .mark _ _ => True

/-- A call that names another process and makes an error for which that process ends: an event of no mode, a line that
    cannot be bound, a thread that does not fit. -/
def Misdirected (c handle op arg0 arg1 : Nat) (s : K) : Prop :=
  let entry := (s.processes.slot c).lookup handle
  entry.objType = .process ∧ entry.target ≠ c ∧
    match ProcessOp.ofRaw op with
    | some .eventCreate => allows entry.rights ProcessRight.eventCreate = true ∧ EventMode.ofRaw arg0 = none
    | some .interruptBind => allows entry.rights ProcessRight.interruptBind = true ∧ ¬Bindable arg0 s
    | some .threadCreate => allows entry.rights ProcessRight.threadCreate = true ∧ ¬Fits entry.target arg0 arg1 s
    | _ => False

section
variable {c handle op arg0 arg1 arg2 n : Nat} {s : K}

theorem justified_quiet {e : Ev} (quiet : e.quiet) : Justified c handle op arg0 s e := by
  cases e with
  | ending => exact quiet.elim
  | mark point u =>
    cases point with
    | stuck => exact absurd rfl quiet.2
    | _ => trivial
  | _ => trivial

theorem mortal_caller : Mortal (Justified c handle op arg0 s) c := fun _ _ => Or.inl rfl

theorem justified_upkeep {G : Ev → Prop} :
    Upkeep G (Justified c handle op arg0 s) n (Seated (· = c)) (fun _ => True) fun _ => True :=
  .calm (Or.inr (Or.inr ⟨rfl, rfl, rfl⟩)) (fun _ _ => trivial) (fun _ _ idle asleep => ⟨idle, asleep⟩)
    (fun _ _ same hs => hs.agree (same.mono (by decide)))
    (Seated.bedrock fun _ => justified_quiet).serviced (fun _ _ => trivial) (fun _ _ _ => id)
    (Bedrock.true fun _ => justified_quiet).serviced
    (fun _ => (Seated.runThread fun _ => justified_quiet).imp (fun _ => id) fun _ _ => trivial)
    (fun _ t seated cur => (seated t cur).2.2 ▸ mortal_caller)
    fun _ _ _ _ told => (teardown_returns (fun _ => justified_quiet) told).imp (fun _ _ => trivial) fun _ => id

theorem calls_unique {p q : Nat} (h : Calls p s) (h' : Calls q s) : p = q := by
  cases cur : s.currentThread with
  | none =>
    simp only [Calls, cur] at h h'
    rw [h, h']
  | some t =>
    simp only [Calls, cur] at h h'
    rw [h.2, h'.2]

/-- A call that is not misdirected ends nothing that it does not account for. -/
theorem directed_of_not_misdirected (calls : Calls c s) (h : ¬Misdirected c handle op arg0 arg1 s) :
    Directed (Justified c handle op arg0 s) handle op arg0 arg1 s := by
  intro p hp
  cases calls_unique calls hp
  refine ⟨mortal_caller, fun kind => ?_⟩
  have orElse : ∀ {right : Prop}, (((s.processes.slot c).lookup handle).target ≠ c → right) →
      right ∨ Mortal (Justified c handle op arg0 s) ((s.processes.slot c).lookup handle).target := by
    intro right other
    by_cases own : ((s.processes.slot c).lookup handle).target = c
    · exact Or.inr (own.symm ▸ mortal_caller)
    · exact Or.inl (other own)
  simp only [Misdirected, kind, true_and, not_and] at h
  unfold Aimed
  cases decoded : ProcessOp.ofRaw op with
  | none => trivial
  | some o =>
    rw [decoded] at h
    cases o with
    | threadCreate => exact fun allowed => orElse fun other => Classical.not_not.mp fun bad => h other ⟨allowed, bad⟩
    | eventCreate => exact fun allowed => orElse fun other =>
      Option.isSome_iff_ne_none.mpr fun bad => h other ⟨allowed, bad⟩
    | interruptBind => exact fun allowed => orElse fun other => Classical.not_not.mp fun bad => h other ⟨allowed, bad⟩
    | exit => exact fun allowed => Or.inr (Or.inl ⟨⟨kind, rfl, decoded, allowed⟩, rfl, rfl⟩)
    | _ => trivial

/-! ### The error of a misdirected call -/

theorem tells_read {α β : Type} {P : Ev → Prop} {col : Column α} {i : Nat} {f : α → M β} (hi : i < (col.get s).cap) :
    Tells P n (col.read i >>= f) s ↔ Tells P n (f ((col.get s).slot i)) s := by
  simp [Column.read, hi]

theorem tells_faultProcess {α : Type} {P : Ev → Prop} {p : Nat} {why : FaultReason}
    (h : P (.ending p .faulted why.word)) : Tells P n (faultProcess p why : M α) s := by
  have ends : Tells P n (teardown p .faulted why.word) s := Tells.emits (Tells.bind (tells_emits h))
  exact ends.bind

/-- No check of a caller's arguments is about the machine's deadlock. -/
theorem not_justified {q : Nat} {why : FaultReason} (other : q ≠ c) (reason : why.word ≠ FaultReason.deadlock.word) :
    ¬Justified c handle op arg0 s (.ending q .faulted why.word) := by
  rintro (own | ⟨-, exited, -⟩ | ⟨-, -, code⟩)
  · exact other own
  · cases exited
  · exact reason code

theorem tells_eventCreate {q raw : Nat} {P : Ev → Prop} (bad : EventMode.ofRaw raw = none)
    (h : ∀ why : FaultReason, why.word ≠ FaultReason.deadlock.word → P (.ending q .faulted why.word)) :
    Tells P n (eventCreate q raw) s := by
  unfold eventCreate
  rw [bad]
  exact tells_faultProcess (h .badArg (by decide))

theorem tells_interruptBind {q line : Nat} {P : Ev → Prop} (bad : ¬Bindable line s)
    (h : ∀ why : FaultReason, why.word ≠ FaultReason.deadlock.word → P (.ending q .faulted why.word)) :
    Tells P n (interruptBind q line) s := by
  unfold interruptBind interruptByLine
  by_cases usable : line = Hal.irqTimer || !Hal.irqLineValid line
  · simp only [usable, whenever, if_true]
    exact (tells_faultProcess (h .badArg (by decide))).bind
  · simp only [usable, whenever, Bool.false_eq_true, if_false, tells_pure_bind, tells_reads_bind]
    have bound : (s.interrupts.find fun q => q.state = .live && q.line = line).isSome = true := by
      rw [Option.isSome_iff_ne_none]
      intro unbound
      simp only [Bool.or_eq_true, decide_eq_true_eq, Bool.not_eq_true', not_or, Bool.not_eq_false] at usable
      exact bad ⟨usable.1, usable.2, unbound⟩
    simp only [bound, if_true]
    exact (tells_faultProcess (h .lineBound (by decide))).bind

theorem tells_threadCreate {q entry sp arg : Nat} {P : Ev → Prop} (bad : ¬Fits q entry sp s)
    (h : ∀ why : FaultReason, why.word ≠ FaultReason.deadlock.word → P (.ending q .faulted why.word)) :
    Tells P n (threadCreate q entry sp arg) s := by
  simp only [Fits, Classical.not_imp, Bool.not_eq_true] at bad
  obtain ⟨hq, outside⟩ := bad
  unfold threadCreate
  refine (tells_read hq).mpr ?_
  simp only [processes, outside, whenever, Bool.not_false, if_true]
  exact (tells_faultProcess (h .badEntry (by decide))).bind

theorem tells_callingProcess {β : Type} {P : Ev → Prop} {f : Nat → M β} (calls : Calls c s) :
    Tells P n (callingProcess >>= f) s ↔ Tells P n (f c) s := by
  unfold callingProcess
  cases cur : s.currentThread with
  | none =>
    simp only [Calls, cur] at calls
    simp [cur, calls, rootProcess]
  | some t =>
    simp only [Calls, cur] at calls
    simp only [tells_bind_assoc, tells_reads_bind, cur]
    refine (tells_read calls.1).trans ?_
    simp [threads, calls.2]

theorem tells_countTrap {β : Type} {P : Ev → Prop} {f : Unit → M β} {k : TrapKind} (calls : Calls c s)
    (h : ∀ rows, Tells P n (f ()) { s with stats := rows }) : Tells P n (countTrap k >>= f) s := by
  unfold countTrap
  cases cur : s.currentThread with
  | none =>
    simp only [tells_bind_assoc, tells_reads_bind, cur, tells_pure_bind]
    exact h s.stats
  | some t =>
    simp only [Calls, cur] at calls
    simp only [tells_bind_assoc, tells_reads_bind, cur]
    exact (tells_read calls.1).mpr (tells_modifies_bind.mpr (h _))

theorem tells_lookupHandle {β : Type} {P : Ev → Prop} {f : HandleEntry → M β} (hc : c < s.processes.cap) :
    Tells P n (lookupHandle c handle >>= f) s ↔ Tells P n (f ((s.processes.slot c).lookup handle)) s := by
  unfold lookupHandle
  simp only [tells_bind_assoc]
  refine (tells_read hc).trans ?_
  simp [processes]

theorem require_allowed {p rights right : Nat} (h : allows rights right = true) :
    require p rights right = (pure () : M Unit) := by
  simp [require, whenever, h]

omit [Hal] in
/-- A process operation is neither a release nor a mint. -/
theorem ofRaw_process {o : ProcessOp} (decoded : ProcessOp.ofRaw op = some o) : op ≠ releaseOp ∧ op ≠ mintOp := by
  constructor
  · rintro rfl
    cases decoded
  · rintro rfl
    cases decoded

theorem tells_processOp {p rights q : Nat} {P : Ev → Prop}
    (h : ∀ why : FaultReason, why.word ≠ FaultReason.deadlock.word → P (.ending q .faulted why.word))
    (error : match ProcessOp.ofRaw op with
      | some .eventCreate => allows rights ProcessRight.eventCreate = true ∧ EventMode.ofRaw arg0 = none
      | some .interruptBind => allows rights ProcessRight.interruptBind = true ∧ ¬Bindable arg0 s
      | some .threadCreate => allows rights ProcessRight.threadCreate = true ∧ ¬Fits q arg0 arg1 s
      | _ => False) : Tells P n (processOp p op rights q arg0 arg1 arg2) s := by
  unfold processOp
  split at error
  · rename_i decoded
    simp only [decoded, require_allowed error.1, tells_pure_bind]
    exact tells_eventCreate error.2 h
  · rename_i decoded
    simp only [decoded, require_allowed error.1, tells_pure_bind]
    exact tells_interruptBind error.2 h
  · rename_i decoded
    simp only [decoded, require_allowed error.1, tells_pure_bind]
    exact tells_threadCreate error.2 h
  · exact error.elim

/-- A misdirected call ends the process that it names. -/
theorem tells_dispatch (calls : Calls c s) (hc : c < s.processes.cap) {P : Ev → Prop}
    (misdirected : Misdirected c handle op arg0 arg1 s) (h : ∀ q, q ≠ c → ∀ why : FaultReason,
      why.word ≠ FaultReason.deadlock.word → P (.ending q .faulted why.word)) :
    Tells P n (dispatch handle op arg0 arg1 arg2) s := by
  obtain ⟨kind, other, error⟩ := misdirected
  have decoded : op ≠ releaseOp ∧ op ≠ mintOp := by
    cases raw : ProcessOp.ofRaw op with
    | none => simp [raw] at error
    | some o => exact ofRaw_process raw
  unfold dispatch
  rw [tells_callingProcess calls, tells_lookupHandle hc, if_neg decoded.1, if_neg decoded.2]
  unfold objectOp
  rw [kind]
  exact tells_processOp (h _ other) error

end

/-! ### Whole calls -/

section
variable {c : Nat} {s : K}

theorem caller_inCap (h : Reachable s) (calls : Calls c s) : c < s.processes.cap := by
  have owned : Owned none s := Grounded.reachable (fun _ => Owned.grounded) (fun _ => Owned.boot) h
  have lives : (s.processes.slot c).Lives := by
    unfold Calls at calls
    split at calls
    · exact calls ▸ owned.root (by simp)
    · exact calls.2 ▸ owned.alive _ calls.1 (by simp)
  exact Nat.lt_of_not_le fun beyond => lives.1 (owned.beyond c beyond)

/-- A system call of process `c` ends only what it accounts for, unless it is misdirected; and then it does not. -/
theorem ends_only_accounted_iff (h : Reachable s) (calls : Calls c s) (handle op arg0 arg1 arg2 : Word)
    (polls lapse : List Nat) (n : Nat) :
    (∀ e ∈ (act ⟨.syscall handle op arg0 arg1 arg2, polls, lapse⟩ n s).trace,
      Justified c handle.val op.val arg0.val s e) ↔ ¬Misdirected c handle.val op.val arg0.val arg1.val s := by
  constructor
  · intro all misdirected
    have told : Tells (fun e => ¬Justified c handle.val op.val arg0.val s e) n
        (act ⟨.syscall handle op arg0 arg1 arg2, polls, lapse⟩) s := by
      refine tells_modifies_bind.mpr (tells_countTrap calls fun rows => tells_reads_bind.mpr (Tells.bind ?_))
      have hc := caller_inCap h calls
      exact tells_dispatch (s := { s with polls := polls, lapse := lapse, stats := rows }) calls hc misdirected
        fun q other why reason => not_justified other reason
    obtain ⟨e, he, unjust⟩ := told
    exact unjust (all e he)
  · intro fine
    have seated := (Seated.reachable h).of_calls calls
    have step := (Seated.grounded (n := n) (G := fun _ => True) (justified_upkeep (s := s))).ktrapSyscall
      (c := arg2.val) { s with polls := polls, lapse := lapse } ⟨seated, directed_of_not_misdirected calls fine⟩
    have told : wp (fun _ => True) n (act ⟨.syscall handle op arg0 arg1 arg2, polls, lapse⟩) (fun _ _ => True)
        (.leaving ⟨fun _ => True, Justified c handle.val op.val arg0.val s⟩) s := wp_bind.mpr (wp_modifies.mpr step)
    exact told.emitted

end

end

section
attribute [local instance] pairBuild sampleTarget Riscv32.board

/-- The root's thread runs. -/
def rootRuns (s : K) : Bool :=
  s.currentThread == some 0 && decide (0 < s.threads.cap) && (s.threads.slot 0).process == rootProcess

theorem calls_of_rootRuns {s : K} (h : rootRuns s = true) : Calls rootProcess s := by
  simp only [rootRuns, Bool.and_eq_true, beq_iff_eq, decide_eq_true_eq] at h
  simp only [Calls, h.1.1]
  exact ⟨h.1.2, h.2.symm⟩

/-- The root has made a child, and makes an event of a mode there is for it. -/
theorem ends_only_accounted_iff_child : ∃ s : K, Calls rootProcess s ∧
    ((∀ e ∈ (act (.call 6 4 1 0 0) 64 s).trace,
        Justified rootProcess (Word.cut 6).val (Word.cut 4).val (Word.cut 1).val s e) ↔
      ¬Misdirected rootProcess (Word.cut 6).val (Word.cut 4).val (Word.cut 1).val (Word.cut 0).val s) := by
  obtain ⟨s, reached, found⟩ := reachable_of_played (i := [.call 1 4 4 5 0]) (G := fun _ => True) (c := rootRuns)
    (g := fun _ => true) (by decide +kernel) fun _ _ => trivial
  have calls := calls_of_rootRuns found
  exact ⟨s, calls, ends_only_accounted_iff reached calls (.cut 6) (.cut 4) (.cut 1) (.cut 0) (.cut 0) [] [] 64⟩

/-- The end of process 1 for an argument that is no good. -/
def endsChild : Ev → Bool
  | .ending p kind code => p == 1 && decide (kind = .faulted) && code == FaultReason.badArg.word
  | _ => false

/-- The root makes a child, and then an event of no mode for it: the child ends. -/
theorem child_ends_for_its_parent :
    ¬∀ s : K, Reachable s → ∀ c, Calls c s → ∀ (handle op arg0 arg1 arg2 : Word) (polls lapse : List Nat) (n : Nat),
      ∀ e ∈ (act ⟨.syscall handle op arg0 arg1 arg2, polls, lapse⟩ n s).trace,
        Justified c handle.val op.val arg0.val s e := by
  intro all
  obtain ⟨s, reached, found⟩ := reachable_of_played (i := [.call 1 4 4 5 0]) (G := fun _ => True)
    (c := fun s => rootRuns s && (act (.call 6 4 9 0 0) 64 s).trace.any endsChild)
    (g := fun _ => true) (by decide +kernel) fun _ _ => trivial
  rw [Bool.and_eq_true, List.any_eq_true] at found
  obtain ⟨runs, e, told, ended⟩ := found
  have justified := all s reached rootProcess (calls_of_rootRuns runs) (.cut 6) (.cut 4) (.cut 9)
    (.cut 0) (.cut 0) [] []
    64 e told
  cases e with
  | ending p kind code =>
    simp only [endsChild, Bool.and_eq_true, beq_iff_eq, decide_eq_true_eq] at ended
    obtain ⟨⟨rfl, rfl⟩, rfl⟩ := ended
    exact not_justified (by decide) (by decide) justified
  | _ => cases ended

end

end Sawos
