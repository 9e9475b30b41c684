import Sawos.Kernel.Rules

/-! # Steps of the machine, for an invariant about memory, grants and devices

An invariant `I` holds from the start of a step until a process ends or another thread is switched to, and `B` from
there on; where both are one invariant, every step keeps it. What a step emits is in `V`, which decides who may be
ended. -/

namespace Sawos
open Exec

variable [Hal]

/-- `p` may be ended, in any way. -/
def Mortal (V : Ev → Prop) (p : Nat) : Prop := ∀ kind code, V (.ending p kind code)

/-- An invariant `I` about the ground that gives way to `N` at the end of a process and when the running thread stops,
    and to `B` at the switch to another. -/
structure Upkeep (G V : Ev → Prop) (n : Nat) (I N B : K → Prop) : Prop where
  deadlock : V (.ending rootProcess .faulted FaultReason.deadlock.word)
  ground : Serviced G n ⟨B, V⟩ I
  coarse : ∀ s, I s → B s
  still : Serviced G n ⟨B, V⟩ N
  idles : ∀ s, N s → s.readyHead = none → V (.mark .idle s)
  stuck : ∀ s, N s → s.readyHead = none → s.hasExternalWakeSource = false → V (.mark .stuck s)
  requeue : ∀ t, Leads G n ⟨B, V⟩ (fun s => I s ∧ s.currentThread = some t)
    (fun s => I s ∧ N s ∧ s.currentThread = some t) (requeueCurrent t)
  run : ∀ s t, N s → s.readyHead = some t → wp G n (runThread t) (fun _ => B) (.leaving ⟨B, V⟩) (s.popped t)
  join : ∀ t u, Keeps G n ⟨B, V⟩ I (blockOnJoin t u)
  wait : ∀ t w d, Keeps G n ⟨B, V⟩ I (blockOnWait t w d)
  room : ∀ t c a l d, Keeps G n ⟨B, V⟩ I (blockOnCallRoom t c a l d)
  exit : ∀ t c, Keeps G n ⟨B, V⟩ I (do
    mark (.move t)
    threads.modify t ({ · with state := .exited, exitCode := c }))
  current : ∀ s t, I s → s.currentThread = some t → Mortal V (s.threads.slot t).process
  teardown : ∀ p k c, p ≠ rootProcess → V (.ending p k c) → Leads G n ⟨B, V⟩ I N (teardown p k c)

/-- An invariant that a whole step keeps, whatever it ends. -/
abbrev Steady (G : Ev → Prop) (n : Nat) (I : K → Prop) : Prop := Upkeep G (fun _ => True) n I I I

theorem mortal_any {p : Nat} : Mortal (fun _ => True) p := fun _ _ => trivial

/-- What is promised of events is kept wherever `I` holds, and anyone may be ended. -/
structure Promised (V : Ev → Prop) (I : K → Prop) : Prop where
  quiet : ∀ e : Ev, e.quiet → V e
  mortal : ∀ p, Mortal V p
  idle : ∀ s, I s → V (.mark .idle s)
  stuck : ∀ s, I s → V (.mark .stuck s)

theorem Promised.any {I : K → Prop} : Promised (fun _ => True) I where
  quiet _ _ := trivial
  mortal _ := mortal_any
  idle _ _ := trivial
  stuck _ _ := trivial

/-- What is neither about the ready queue nor told when nothing runs. -/
def calmParts : List Part := bedrockParts ++ watchParts

/-- Invariants that have nothing to do with the ready queue. -/
theorem Upkeep.calm {G V : Ev → Prop} {n : Nat} {I B : K → Prop}
    (deadlock : V (.ending rootProcess .faulted FaultReason.deadlock.word))
    (idles : ∀ s, B s → V (.mark .idle s))
    (stuck : ∀ s, B s → s.readyHead = none → s.hasExternalWakeSource = false → V (.mark .stuck s))
    (about : ∀ s t, Agree calmParts s t → I s → I t) (ground : Serviced G n ⟨B, V⟩ I)
    (coarse : ∀ s, I s → B s) (about' : ∀ s t, Agree calmParts s t → B s → B t) (after : Serviced G n ⟨B, V⟩ B)
    (run : ∀ t, Keeps G n ⟨B, V⟩ B (runThread t))
    (current : ∀ s t, I s → s.currentThread = some t → Mortal V (s.threads.slot t).process)
    (teardown : ∀ p k c, p ≠ rootProcess → V (.ending p k c) → Leads G n ⟨B, V⟩ I B (Sawos.teardown p k c)) :
    Upkeep G V n I B B where
  deadlock := deadlock
  ground := ground
  coarse := coarse
  still := after
  idles s hs _ := idles s hs
  stuck := stuck
  requeue t s hs := by
    refine wp_sparesQuietly (S := calmParts) ground.quiet (by simp +decide) fun _ u same => ?_
    have hu := about s u same hs.1
    exact ⟨hu, coarse u hu, (show s.currentThread = u.currentThread from same (.machine .current) (by decide)) ▸ hs.2⟩
  run s t hs _ := run t _ (about' s _ (agree_popped (by decide) (by decide)) hs)
  join _ _ := Spares.keepsQuietly (S := calmParts) (by simp +decide) about ground.quiet
  wait _ _ _ := Spares.keepsQuietly (S := calmParts) (by simp +decide) about ground.quiet
  room _ _ _ _ _ := Spares.keepsQuietly (S := calmParts) (by simp +decide) about ground.quiet
  exit _ _ := Spares.keepsQuietly (S := calmParts)
    (.bind (by simp) fun _ => spares_threads (by simp +decide)) about ground.quiet
  current := current
  teardown := teardown

/-- An invariant that does not depend on which thread runs. -/
theorem Upkeep.steady {G V : Ev → Prop} {n : Nat} {I : K → Prop} (told : Promised V I)
    (about : ∀ s t, Agree (standingParts ++ watchParts) s t → I s → I t) (ground : Serviced G n ⟨I, V⟩ I)
    (load : ∀ p, Keeps G n ⟨I, V⟩ I (loadDomain p))
    (teardown : ∀ p k c, p ≠ rootProcess → Keeps G n ⟨I, V⟩ I (Sawos.teardown p k c)) : Upkeep G V n I I I := by
  have calm : ∀ s t, Agree calmParts s t → I s → I t := fun s t same => about s t (same.mono (by decide))
  refine .calm (told.mortal _ _ _) told.idle (fun s hs _ _ => told.stuck s hs) calm ground
    (fun _ => id) calm ground (fun t => ?_)
    (fun _ _ _ _ => told.mortal _) fun p k c root _ => (teardown p k c root).leads
  have spares : ∀ {α : Type} {m : M α}, Spares (standingParts ++ watchParts) m → Keeps G n ⟨I, V⟩ I m := fun h =>
    h.keepsQuietly about told.quiet
  unfold runThread
  refine .bind (spares (spares_machine (fun _ => rfl) ?_)) fun _ => ?_
  · simp +decide [K.shape]
  refine .bind (spares (spares_threads ?_)) fun _ => ?_
  · simp +decide
  refine .bind (spares (spares_machine (fun _ => rfl) ?_)) fun _ => ?_
  · simp +decide [K.shape]
  refine .bind (spares spares_read) fun _ => .bind (spares spares_reads) fun _ => .whenever (load _)

theorem Steady.and {G : Ev → Prop} {n : Nat} {I I' : K → Prop} (w : Steady G n I) (w' : Steady G n I') :
    Steady G n fun s => I s ∧ I' s where
  deadlock := trivial
  ground := w.ground.and w'.ground
  coarse _ := id
  still := w.still.and w'.still
  idles _ _ _ := trivial
  stuck _ _ _ _ := trivial
  requeue t := ((w.requeue t).and (w'.requeue t)).imp (fun _ hs => ⟨⟨hs.1.1, hs.2⟩, hs.1.2, hs.2⟩) fun _ hs =>
    ⟨⟨hs.1.1, hs.2.1⟩, ⟨hs.1.2.1, hs.2.2.1⟩, hs.1.2.2⟩
  run s t hs head := ((w.run s t hs.1 head).and (w'.run s t hs.2 head)).mono (fun _ => id) (fun _ _ => id)
    (fun _ => id) (fun _ _ => trivial)
    fun _ _ => trivial
  join t u := (w.join t u).and (w'.join t u)
  wait t v d := (w.wait t v d).and (w'.wait t v d)
  room t c a l d := (w.room t c a l d).and (w'.room t c a l d)
  exit t c := (w.exit t c).and (w'.exit t c)
  current _ _ _ _ := mortal_any
  teardown p k c root _ := (w.teardown p k c root trivial).and (w'.teardown p k c root trivial)

/-- `p` is the process that a system call comes from. -/
def Calls (p : Nat) (s : K) : Prop :=
  match s.currentThread with
  | none => p = rootProcess
  | some t => t < s.threads.cap ∧ p = (s.threads.slot t).process

/-- An interrupt can be bound to a line. -/
def Bindable (line : Nat) (s : K) : Prop :=
  line ≠ Hal.irqTimer ∧ Hal.irqLineValid line = true ∧
    s.interrupts.find (fun q => q.state = .live && q.line = line) = none

/-- A thread of process `q` may start at `entry`, or at its image's entry for 0, with this stack. -/
def Fits (q entry stackTop : Nat) (s : K) : Prop :=
  let slot := s.processes.slot q
  q < s.processes.cap → threadRangeOk slot (if entry = 0 then slot.entry else entry) stackTop = true

/-- What a call that names process `q` ends of it is in `V`. -/
def Aimed (V : Ev → Prop) (rights q raw arg0 arg1 : Nat) (s : K) : Prop :=
  match ProcessOp.ofRaw raw with
  | some .threadCreate => allows rights ProcessRight.threadCreate = true → Fits q arg0 arg1 s ∨ Mortal V q
  | some .exit => allows rights ProcessRight.exit = true → V (.ending q .exited arg0)
  | some .eventCreate =>
    allows rights ProcessRight.eventCreate = true → (EventMode.ofRaw arg0).isSome = true ∨ Mortal V q
  | some .interruptBind => allows rights ProcessRight.interruptBind = true → Bindable arg0 s ∨ Mortal V q
  | _ => True

/-- What a system call ends, for its caller's errors and on its order, is in `V`. -/
def Directed (V : Ev → Prop) (handle op arg0 arg1 : Nat) (s : K) : Prop :=
  ∀ p, Calls p s → Mortal V p ∧
    let entry := (s.processes.slot p).lookup handle
    (entry.objType = .process → Aimed V entry.rights entry.target op arg0 arg1 s)

theorem directed_any {V : Ev → Prop} (mortal : ∀ p, Mortal V p) {h o a b : Nat} {s : K} : Directed V h o a b s := by
  refine fun p _ => ⟨mortal p, fun _ => ?_⟩
  unfold Aimed
  split
  · exact fun _ => Or.inr (mortal _)
  · exact fun _ => mortal _ _ _
  · exact fun _ => Or.inr (mortal _)
  · exact fun _ => Or.inr (mortal _)
  · trivial

/-- An invariant that the system calls on boot sets, lines, clocks and timers keep. -/
structure Devices (G V : Ev → Prop) (n : Nat) (I B : K → Prop) : Prop where
  give : ∀ p c h t k, Mortal V p → Keeps G n ⟨B, V⟩ I (processGive p c h t k)
  nextHandle : ∀ p d c, Mortal V p → Leads G n ⟨B, V⟩ (fun s => I s ∧ Calls p s) I (bootHandleNext p d c)
  bind : ∀ q l, Leads G n ⟨B, V⟩ (fun s => I s ∧ (Bindable l s ∨ Mortal V q)) I (interruptBind q l)
  ack : ∀ p o r i, Mortal V p → Keeps G n ⟨B, V⟩ I (interruptOp p o r i)
  read : ∀ p d c, Mortal V p → Keeps G n ⟨B, V⟩ I (clockNow p d c)
  timerCreate : ∀ p c, Keeps G n ⟨B, V⟩ I (timerCreate p c)
  arm : ∀ p i s b, Mortal V p → Keeps G n ⟨B, V⟩ I (timerArm p i s b)
  disarm : ∀ i, Keeps G n ⟨B, V⟩ I (timerDisarm i)

/-- An invariant about the ground that the system calls keep which change it on purpose. -/
structure Grounded (G V : Ev → Prop) (n : Nat) (I N B : K → Prop) : Prop extends Upkeep G V n I N B where
  split : ∀ p r len, Mortal V p → Keeps G n ⟨B, V⟩ I (memorySplit p r len)
  map : ∀ p r i t a, Mortal V p → Keeps G n ⟨B, V⟩ I (memoryMap p r i t a)
  mapDevice : ∀ p i t, Mortal V p → Keeps G n ⟨B, V⟩ I (iomemoryMap p i t)
  mapStats : ∀ p d c, Mortal V p → Leads G n ⟨B, V⟩ (fun s => I s ∧ Calls p s) I (statsRegionMap p d c)
  unmap : ∀ p i, Mortal V p → Keeps G n ⟨B, V⟩ I (mappingUnmap p i)
  donate : ∀ p k h, Mortal V p → Keeps G n ⟨B, V⟩ I (slabDonate p k h)
  processCreate : ∀ p i m, Mortal V p → Keeps G n ⟨B, V⟩ I (processCreate p i m)
  start : ∀ p c f t, Mortal V p → Keeps G n ⟨B, V⟩ I (processStart p c f t)
  threadCreate : ∀ q e sp a, Leads G n ⟨B, V⟩ (fun s => I s ∧ (Fits q e sp s ∨ Mortal V q)) I (threadCreate q e sp a)
  devices : Devices G V n I B

abbrev SteadyGrounded (G : Ev → Prop) (n : Nat) (I : K → Prop) : Prop := Grounded G (fun _ => True) n I I I

theorem Devices.and {G : Ev → Prop} {n : Nat} {I I' : K → Prop} (h : Devices G (fun _ => True) n I I)
    (h' : Devices G (fun _ => True) n I' I') :
    Devices G (fun _ => True) n (fun s => I s ∧ I' s) fun s => I s ∧ I' s where
  give p c x t k hp := (h.give p c x t k hp).and (h'.give p c x t k hp)
  nextHandle p d c hp := ((h.nextHandle p d c hp).and (h'.nextHandle p d c hp)).imp
    (fun _ hs => ⟨⟨hs.1.1, hs.2⟩, hs.1.2, hs.2⟩)
    fun _ => id
  bind q l := ((h.bind q l).and (h'.bind q l)).imp (fun _ hs => ⟨⟨hs.1.1, hs.2⟩, hs.1.2, hs.2⟩) fun _ => id
  ack p o r i hp := (h.ack p o r i hp).and (h'.ack p o r i hp)
  read p d c hp := (h.read p d c hp).and (h'.read p d c hp)
  timerCreate p c := (h.timerCreate p c).and (h'.timerCreate p c)
  arm p i s b hp := (h.arm p i s b hp).and (h'.arm p i s b hp)
  disarm i := (h.disarm i).and (h'.disarm i)

/-- What the start of a process and the making of a thread change. -/
def startParts : List Part := [.process .boot, .process .state, .thread .state, .thread .process, .thread .exitCode,
  .thread .joiners, .thread .link, .thread .waitBuf, .thread .callPipe, .thread .callClaim,
    .thread .callArgs, .machine .ready]

/-- What filling a process's slot changes. -/
def fillParts : List Part := grantParts ++ [.process .state, .process .image, .process .exit, .process .refs,
  .process .attachment, .process .quota, .process .limits, .process .ration]

namespace Upkeep
variable {G V : Ev → Prop} {n : Nat} {I N B : K → Prop} (w : Upkeep G V n I N B)
include w

theorem spares {α : Type} {m : M α} (hm : Spares groundParts m) : Keeps G n ⟨B, V⟩ I m := w.ground.spares hm

theorem unref {k : ObjType} {i : Nat} : Keeps G n ⟨B, V⟩ I (unrefObject k i) := w.ground.unrefObject

theorem unrefWaitable {k : WaitableKind} {i : Nat} : Keeps G n ⟨B, V⟩ I (Sawos.unrefWaitable k i) := w.unref

theorem refObject {k : ObjType} {i : Nat} : Keeps G n ⟨B, V⟩ I (Sawos.refObject k i) := w.ground.refObject

theorem moveEntry {a b h k : Nat} {e : HandleEntry} : Keeps G n ⟨B, V⟩ I (Sawos.moveEntry a b h e k) :=
  w.ground.moveEntry

theorem signalEvent {e b : Nat} : Keeps G n ⟨B, V⟩ I (Sawos.signalEvent e b) := w.ground.signalEvent

theorem wake {v a : Nat} : Keeps G n ⟨B, V⟩ I (wakeOneWaiter v a) := w.ground.wake

theorem notify {k : WaitableKind} {i : Nat} : Keeps G n ⟨B, V⟩ I (notifyReady k i) := w.ground.notify

theorem deliverTo {p d a : Nat} : Keeps G n ⟨B, V⟩ I (deliverAttachment p d a) := w.ground.deliverTo

theorem mintStaged {x p : Nat} : Keeps G n ⟨B, V⟩ I (Sawos.mintStaged x p) := w.ground.mintStaged fun _ _ => w.unref

theorem holdStaged {p x : Nat} {a : PipeSendRecord} : Keeps G n ⟨B, V⟩ I (Sawos.holdStaged p x a) :=
  w.ground.holdStaged fun _ _ => w.unref

theorem stageMessage {p c x : Nat} {a : PipeSendRecord} : Keeps G n ⟨B, V⟩ I (Sawos.stageMessage p c x a) :=
  w.ground.stageMessage fun _ _ => w.unref

theorem notifyClaim {x : Nat} : Keeps G n ⟨B, V⟩ I (Sawos.notifyClaim x) := w.ground.notifyClaim fun _ _ => w.unref

theorem deliverLine {l : Nat} : Keeps G n ⟨B, V⟩ I (Sawos.deliverLine l) := w.ground.deliverLine

theorem runWoken : Leads G n ⟨B, V⟩ N B Sawos.runWoken := by
  refine (w.still.idleUntilRunnable w.idles).leads.bind fun _ s hs => ?_
  cases head : s.readyHead with
  | none => exact wp_bind.mpr (wp_readyPop_empty head (wp_halt.mpr trivial))
  | some t => exact wp_bind.mpr (wp_readyPop head fun _ => w.run s t hs head)

omit w in
theorem exitMachine_ends {α : Type} {A : Conduct K Ev} {J : K → Prop} {c : Nat} :
    Leads G n A J (fun _ => False) (exitMachine c : M α) :=
  .ite leads_halt leads_halt

/-- The machine goes down with the root process. -/
theorem rootEnds {α : Type} {c m : Nat} {k : ProcessStatusKind} {s : K} (told : V (.ending rootProcess k c)) :
    wp G n (do Sawos.teardown rootProcess k c; Sawos.exitMachine m : M α) (fun _ _ => False) (.leaving ⟨B, V⟩) s :=
  wp_bind.mpr ((teardown_returns w.still.quiet told s trivial).imp fun _ t _ =>
    exitMachine_ends (J := fun _ => True) t trivial)

theorem resumeAfterDeath_ends {α : Type} : Leads G n ⟨B, V⟩ N (fun _ => False) (resumeAfterDeath : M α) := by
  have left : Leads G n ⟨B, V⟩ B (fun _ => False) (leave : M α) := leads_leave fun _ => id
  intro s hs
  cases head : s.readyHead with
  | some t => exact wp_bind.mpr (wp_readyPop head fun _ => wp_bind.mpr ((w.run s t hs head).imp fun _ => left))
  | none =>
    refine wp_bind.mpr
      (wp_readyPop_empty head (wp_bind.mpr (wp_reads.mpr (wp_ite.mpr ⟨fun _ => ?_, fun asleep => ?_⟩))))
    · exact w.runWoken.bind (fun _ => left) s hs
    · refine wp_bind.mpr (wp_emits.mpr ⟨w.stuck s hs head (by simpa using asleep), fun _ => w.rootEnds w.deadlock⟩)

theorem endProcess_told {α : Type} {p c m : Nat} {k : ProcessStatusKind} (told : V (.ending p k c)) :
    Leads G n ⟨B, V⟩ I (fun _ => False) (endProcess p k c m : M α) := by
  unfold Sawos.endProcess
  by_cases root : p = rootProcess
  · subst root
    simp only [if_true]
    exact fun _ _ => w.rootEnds told
  · simp only [root, if_false]
    exact (w.teardown _ _ _ root told).bind fun _ => w.resumeAfterDeath_ends

theorem endProcess_ends {α : Type} {p : Nat} (hp : Mortal V p) {c m : Nat} {k : ProcessStatusKind} :
    Leads G n ⟨B, V⟩ I (fun _ => False) (endProcess p k c m : M α) := w.endProcess_told (hp k c)

theorem faultProcess_ends {α : Type} {p : Nat} (hp : Mortal V p) {r : FaultReason} :
    Leads G n ⟨B, V⟩ I (fun _ => False) (Sawos.faultProcess p r : M α) := w.endProcess_ends hp

omit w in
theorem exitMachine {α : Type} {c : Nat} : Keeps G n ⟨B, V⟩ I (exitMachine c : M α) := fun _ => exitMachine_ends.never

theorem endProcess {α : Type} {p : Nat} (hp : Mortal V p) {c m : Nat} {k : ProcessStatusKind} :
    Keeps G n ⟨B, V⟩ I (endProcess p k c m : M α) := fun _ => (w.endProcess_ends hp).never

theorem faultProcess {α : Type} {p : Nat} (hp : Mortal V p) {r : FaultReason} :
    Keeps G n ⟨B, V⟩ I (Sawos.faultProcess p r : M α) := w.endProcess hp

theorem faultTrap {α : Type} : Keeps G n ⟨B, V⟩ I (faultTrap : M α) := by
  intro s hs
  refine wp_bind.mpr (wp_reads.mpr ?_)
  cases cur : s.currentThread with
  | none => exact wp_halt.mpr trivial
  | some t => exact wp_bind.mpr (wp_readThread.mpr fun _ => w.endProcess (w.current s t hs cur) s hs)

omit w in
/-- What makes no other thread the running one keeps `I` together with which one runs. -/
theorem withCurrent {α : Type} {m : M α} {t : Nat} (h : Keeps G n ⟨B, V⟩ I m) (hm : Spares [.machine .current] m) :
    Keeps G n ⟨B, V⟩ (fun s => I s ∧ s.currentThread = some t) m :=
  h.andSpares hm fun _ _ same cur => (same (.machine .current) (List.mem_singleton_self _)).symm.trans cur

theorem wakeJoiners {c : Nat} {head : Option Nat} : Keeps G n ⟨B, V⟩ I (Sawos.wakeJoiners c head) := by
  unfold Sawos.wakeJoiners
  repeat' first
    | with_reducible refine .bind ?_ fun _ => ?_
    | with_reducible refine .loop fun _ => ?_
    | with_reducible exact w.ground.ready _
    | solve | refine w.spares ?_; simp +decide
    | split

/-- A thread exits, by its own call. -/
theorem exitThread {t c : Nat} :
    Leads G n ⟨B, V⟩ (fun s => I s ∧ s.currentThread = some t) I (Sawos.exitThread t c) := by
  have spare : ∀ {α : Type} {m : M α}, Spares groundParts m →
      Keeps G n ⟨B, V⟩ (fun s => I s ∧ s.currentThread = some t) m := fun h =>
        withCurrent (w.spares h) (h.mono (by decide))
  have exits := withCurrent (t := t) (w.exit t c)
    (.bind (by simp) fun _ => spares_threads (by simp +decide))
  refine fun s hs => ?_
  unfold Sawos.exitThread
  rw [← bind_assoc]
  refine wp_bind.mpr ((exits s hs).imp fun _ s₁ h₁ => wp_bind.mpr ((spare (by simp) s₁ h₁).imp fun _ s₂ h₂ => ?_))
  refine wp_bind.mpr ((spare (spares_threads (by simp +decide)) s₂ h₂).imp fun _ s₃ h₃ => ?_)
  refine wp_bind.mpr ((withCurrent w.wakeJoiners (by simp +decide) s₃ h₃).imp fun _ s₄ h₄ => ?_)
  refine wp_bind.mpr (wp_readThread.mpr fun _ => wp_bind.mpr (wp_reads.mpr ?_))
  refine wp_bind.mpr (wp_whenever.mpr ⟨fun _ => ?_, fun _ => ?_⟩)
  · exact (w.endProcess_ends (w.current s₄ t h₄.1 h₄.2)).never h₄.1
  · exact w.spares (by simp +decide) s₄ h₄.1

theorem pickNext : Leads G n ⟨B, V⟩ I B (Sawos.pickNext) := by
  intro s hs
  unfold Sawos.pickNext
  refine wp_bind.mpr (wp_reads.mpr ?_)
  cases cur : s.currentThread with
  | none => exact wp_pure.mpr (w.coarse s hs)
  | some t =>
    refine wp_bind.mpr (wp_sparesQuietly (S := groundParts) w.ground.quiet (by simp) fun stays s₁ h₁ => ?_)
    have same : s.currentThread = s₁.currentThread := h₁ (.machine .current) (by decide)
    have hs₁ := w.ground.about s s₁ h₁ hs
    refine wp_ite.mpr ⟨fun _ => wp_pure.mpr (w.coarse _ hs₁), fun _ => ?_⟩
    refine wp_bind.mpr ((w.requeue t s₁ ⟨hs₁, same ▸ cur⟩).imp fun _ s₂ h₂ => ?_)
    obtain ⟨hI, hN, cur₂⟩ := h₂
    cases head : s₂.readyHead with
    | some t' => exact wp_bind.mpr (wp_readyPop head fun _ => w.run s₂ t' hN head)
    | none =>
      refine wp_bind.mpr
        (wp_readyPop_empty head (wp_bind.mpr (wp_reads.mpr (wp_ite.mpr ⟨fun _ => w.runWoken s₂ hN, fun asleep => ?_⟩))))
      refine wp_bind.mpr
        (wp_emits.mpr
          ⟨w.stuck s₂ hN head (by simpa using asleep), fun _ => wp_bind.mpr (wp_readThread.mpr fun _ => ?_)⟩)
      exact (w.faultProcess_ends (w.current s₂ t hI cur₂)).never hI

/-! ### System calls -/

theorem require {p r t : Nat} (hp : Mortal V p) : Keeps G n ⟨B, V⟩ I (Sawos.require p r t) := by
  unfold Sawos.require
  repeat' first
    | with_reducible refine .bind ?_ fun _ => ?_
    | with_reducible refine .whenever ?_
    | with_reducible exact w.faultProcess hp

theorem refuse {p : Nat} (hp : Mortal V p) {o : Option FaultReason} : Keeps G n ⟨B, V⟩ I (Sawos.refuse p o) := by
  unfold Sawos.refuse
  repeat' first
    | with_reducible refine .bind ?_ fun _ => ?_
    | with_reducible refine .whenever ?_
    | with_reducible exact w.faultProcess hp
    | solve | refine w.spares ?_; simp +decide
    | split

theorem minted {p h : Nat} {done : M Unit} (hd : Keeps G n ⟨B, V⟩ I done) :
    Keeps G n ⟨B, V⟩ I (Sawos.minted p h done) := by
  unfold Sawos.minted
  repeat' first
    | with_reducible refine .bind ?_ fun _ => ?_
    | with_reducible exact hd
    | solve | refine w.spares ?_; simp +decide
    | split

theorem create {p r : Nat} {q : QuotaKind} {find : M (Option Nat)} {k : ObjType} {fill : Nat → M Unit}
    (hfind : Spares groundParts find) (hfill : ∀ i, Keeps G n ⟨B, V⟩ I (fill i)) :
    Keeps G n ⟨B, V⟩ I (Sawos.create p q find k r fill) := by
  unfold Sawos.create
  repeat' first
    | with_reducible refine .bind ?_ fun _ => ?_
    | with_reducible exact w.spares hfind
    | with_reducible exact w.minted (hfill _)
    | solve | refine w.spares ?_; simp +decide
    | split

/-- A creation, when filling the slot depends on what the search found and on what held before. -/
theorem createIn {p r : Nat} {q : QuotaKind} {find : M (Option Nat)} {k : ObjType} {fill : Nat → M Unit} {R : K → Prop}
    {P : Nat → K → Prop} (before : ∀ s t, Agree groundParts s t → R s → R t)
    (hfind : ∀ s, I s → R s → wp G n find (fun found t => I t ∧ ∀ i ∈ found, P i t) (.leaving ⟨B, V⟩) s)
    (about : ∀ i s t, Agree groundParts s t → P i s → P i t)
    (hfill : ∀ i, Leads G n ⟨B, V⟩ (fun s => I s ∧ P i s) I (fill i)) :
    Leads G n ⟨B, V⟩ (fun s => I s ∧ R s) I (Sawos.create p q find k r fill) := by
  rintro s ⟨hs, hr⟩
  have room : Spares groundParts (quotaRoom p q) := by simp
  refine wp_bind.mpr (wp_sparesQuietly w.ground.quiet room fun _ s₁ h₁ => ?_)
  have hs := w.ground.about s s₁ h₁ hs
  refine wp_ite.mpr ⟨fun _ => wp_bind.mpr ((hfind s₁ hs (before s s₁ h₁ hr)).imp fun found t ht => ?_),
    fun _ => wp_pure.mpr hs⟩
  cases found with
  | none => exact wp_pure.mpr ht.1
  | some i =>
    have mint : Spares groundParts (mintHandle p k r i) := by simp +decide
    refine wp_bind.mpr (wp_sparesQuietly w.ground.quiet mint fun handle u hu => ?_)
    have hs' : I u ∧ P i u := ⟨w.ground.about t u hu ht.1, about i t u hu (ht.2 i rfl)⟩
    refine wp_ite.mpr ⟨fun _ => ?_, fun _ => wp_bind.mpr ((hfill i u hs').imp fun _ _ done => wp_pure.mpr done)⟩
    exact (w.spares (by simp)).bind (fun _ => keeps_pure) u hs'.1

theorem memoryArg {p h : Nat} (hp : Mortal V p) : Keeps G n ⟨B, V⟩ I (Sawos.memoryArg p h) := by
  unfold Sawos.memoryArg
  repeat' first
    | with_reducible refine .bind ?_ fun _ => ?_
    | with_reducible refine .whenever ?_
    | with_reducible exact w.faultProcess hp
    | solve | refine w.spares ?_; simp +decide
    | split

theorem mapAccess {p a : Nat} (hp : Mortal V p) : Keeps G n ⟨B, V⟩ I (Sawos.mapAccess p a) := by
  unfold Sawos.mapAccess
  repeat' first
    | with_reducible refine .bind ?_ fun _ => ?_
    | with_reducible refine .whenever ?_
    | with_reducible exact w.faultProcess hp
    | solve | refine w.spares ?_; simp +decide

theorem mapTarget {p h : Nat} (hp : Mortal V p) : Keeps G n ⟨B, V⟩ I (Sawos.mapTarget p h) := by
  unfold Sawos.mapTarget
  repeat' first
    | with_reducible refine .bind ?_ fun _ => ?_
    | with_reducible refine .whenever ?_
    | with_reducible exact w.faultProcess hp
    | with_reducible exact w.require hp
    | solve | refine w.spares ?_; simp +decide
    | split

theorem mappedRow {p i : Nat} (hp : Mortal V p) : Keeps G n ⟨B, V⟩ I (Sawos.mappedRow p i) := by
  unfold Sawos.mappedRow
  repeat' first
    | with_reducible refine .bind ?_ fun _ => ?_
    | with_reducible exact w.faultProcess hp
    | solve | refine w.spares ?_; simp +decide
    | split

theorem giveFaults {p c t : Nat} (hp : Mortal V p) {e : HandleEntry} :
    Keeps G n ⟨B, V⟩ I (Sawos.giveFaults p c e t) := by
  unfold Sawos.giveFaults
  repeat' first
    | with_reducible refine .bind ?_ fun _ => ?_
    | with_reducible refine .whenever ?_
    | with_reducible exact w.faultProcess hp
    | solve | refine w.spares ?_; simp +decide
    | split

/-! What holds behind the checks of a system call, for the arguments that pass them. -/

section
variable {s : K}

theorem wp_check {c : Bool} {p : Nat} (hp : Mortal V p) {r : FaultReason} {Q : Unit → K → Prop} (hs : I s)
    (h : c = false → Q () s) :
    wp G n (whenever c (Sawos.faultProcess p r)) Q (.leaving ⟨B, V⟩) s :=
  wp_whenever.mpr ⟨fun _ => (w.faultProcess_ends hp).never hs, h⟩

theorem wp_require {p r t : Nat} (hp : Mortal V p) {Q : Unit → K → Prop} (hs : I s) (h : allows r t = true → Q () s) :
    wp G n (Sawos.require p r t) Q (.leaving ⟨B, V⟩) s :=
  w.wp_check hp hs fun ok => h (by simpa using ok)

theorem wp_refuse {p : Nat} (hp : Mortal V p) {o : Option FaultReason} {Q : Unit → K → Prop} (hs : I s)
    (h : o = none → Q () s) :
    wp G n (Sawos.refuse p o) Q (.leaving ⟨B, V⟩) s := by
  cases o with
  | none => exact wp_pure.mpr (h rfl)
  | some why => exact (w.faultProcess_ends hp).never hs

theorem wp_mapTarget {p h : Nat} (hp : Mortal V p) {Q : Nat → K → Prop} (hs : I s)
    (hQ : ∀ t < s.processes.cap, (s.processes.slot t).state = .created ∨
      (s.processes.slot t).state = .running → Q t s) :
    wp G n (Sawos.mapTarget p h) Q (.leaving ⟨B, V⟩) s := by
  refine wp_bind.mpr (wp_bind.mpr (wp_readProcess.mpr fun _ => wp_pure.mpr ?_))
  refine wp_ite.mpr ⟨fun _ => ?_, fun _ => (w.faultProcess_ends hp).never hs⟩
  refine wp_bind.mpr (w.wp_require hp hs fun _ => ?_)
  refine wp_bind.mpr (wp_readProcess.mpr fun ht => ?_)
  refine wp_bind.mpr (w.wp_check hp hs fun state => wp_pure.mpr (hQ _ ht ?_))
  simpa [imp_iff_or_not, or_comm] using state

/-- An access that `map` accepts, as the bits of a row. -/
theorem wp_mapAccess {p raw : Nat} (hp : Mortal V p) {Q : Nat → K → Prop} (hs : I s)
    (hQ : raw &&& mapAccessMask = raw → raw ≠ 0 → Q raw s) : wp G n (Sawos.mapAccess p raw) Q (.leaving ⟨B, V⟩) s := by
  refine wp_bind.mpr (w.wp_check hp hs fun mask => ?_)
  refine wp_bind.mpr (w.wp_check hp hs fun _ => wp_bind.mpr (w.wp_check hp hs fun _ => ?_))
  refine wp_bind.mpr (w.wp_check hp hs fun nonzero => wp_pure.mpr (hQ ?_ ?_))
  · simpa using mask
  · simpa using nonzero

theorem wp_memoryArg {p h : Nat} (hp : Mortal V p) {Q : Nat → K → Prop} (hs : I s)
    (hQ : ((s.processes.slot p).lookup h).objType = .memory → p < s.processes.cap →
      Q ((s.processes.slot p).lookup h).target s) :
    wp G n (Sawos.memoryArg p h) Q (.leaving ⟨B, V⟩) s := by
  refine wp_bind.mpr (wp_bind.mpr (wp_readProcess.mpr fun inCap => wp_pure.mpr ?_))
  exact wp_ite.mpr ⟨fun kind => wp_pure.mpr (hQ kind inCap), fun _ => (w.faultProcess_ends hp).never hs⟩

theorem wp_mappedRow {p i : Nat} (hp : Mortal V p) {Q : Nat → K → Prop} (hs : I s)
    (hQ : ∀ row, i < s.mappings.cap → (s.mappings.slot i).state = .live →
      (s.mappings.slot i).row = some row → Q row s) :
    wp G n (Sawos.mappedRow p i) Q (.leaving ⟨B, V⟩) s := by
  refine wp_bind.mpr (wp_readMapping.mpr fun hi => ?_)
  split
  · rename_i row state hrow
    exact wp_pure.mpr (hQ row hi state hrow)
  · exact (w.faultProcess_ends hp).never hs

end

/-- A donation, for an invariant that more slots and the end of a region leave alone. -/
theorem donate (grow : ∀ s t, Donated s t → I s → I t) (retire : ∀ r, Keeps G n ⟨B, V⟩ I (memoryRetireDonated r))
    {p k h : Nat} (hp : Mortal V p) : Keeps G n ⟨B, V⟩ I (slabDonate p k h) := by
  unfold Sawos.slabDonate
  cases SlabKind.ofRaw k with
  | none => exact w.faultProcess hp
  | some kind =>
    refine .bind (w.memoryArg hp) fun slot => .bind (w.spares (by simp)) fun region => ?_
    refine .bind (.whenever (w.faultProcess hp)) fun _ => .bind (.whenever (w.faultProcess hp)) fun _ => ?_
    refine .bind (.whenever (w.faultProcess hp)) fun _ => .bind (w.spares (by simp [slabGeometry])) fun _ => ?_
    refine .ite keeps_pure (.bind (w.spares (by simp)) fun _ => .ite keeps_pure ?_)
    refine .bind w.ground.longZero fun _ => .bind (fun s hs => wp_slabInstall fun _ t d => grow s t d hs) fun _ => ?_
    refine .bind (.whenever (w.spares (by simp))) fun _ => .bind (w.spares (by simp +decide)) fun _ => ?_
    exact .bind (retire _) fun _ => keeps_pure

/-! Invariants about parts that the installing of a row leaves alone. -/

section
variable {S : List Part} (about : ∀ s t, Agree S s t → I s → I t) (clear : ∀ x ∈ installParts, x ∉ S)
include about clear

theorem installRow {p t base top perms : Nat} {device : Bool} {region : Option Nat} :
    Keeps G n ⟨B, V⟩ I (installRow p t base top perms device region) :=
  (spares_installRow clear).keepsQuietly about w.ground.quiet

theorem map {p r i h raw : Nat} (hp : Mortal V p) : Keeps G n ⟨B, V⟩ I (memoryMap p r i h raw) := by
  refine .bind (w.mapTarget hp) fun _ => .bind (w.mapAccess hp) fun _ => .bind (.whenever (w.require hp)) fun _ => ?_
  refine .bind (w.spares (by simp)) fun _ => .bind (.whenever (w.faultProcess hp)) fun _ => ?_
  refine .bind (.whenever (w.faultProcess hp)) fun _ => .bind (w.spares (by simp)) fun _ => ?_
  exact .bind (.whenever (w.faultProcess hp)) fun _ => w.installRow about clear

theorem mapDevice {p i h : Nat} (hp : Mortal V p) : Keeps G n ⟨B, V⟩ I (iomemoryMap p i h) := by
  refine .bind (w.mapTarget hp) fun _ => .bind (w.spares (by simp)) fun _ => ?_
  refine .bind (.whenever (w.faultProcess hp)) fun _ => .bind (w.spares (by simp)) fun _ => ?_
  exact w.installRow about clear

theorem mapStats {p d c : Nat} (hp : Mortal V p) : Keeps G n ⟨B, V⟩ I (statsRegionMap p d c) := by
  refine .bind (.whenever (w.faultProcess hp)) fun _ => .bind (w.spares (by simp +decide)) fun _ => ?_
  exact .bind (w.refuse hp) fun _ => w.installRow about clear

end

/-! ### Boot sets, lines, clocks and timers

For an invariant about parts `S`, the calls that change others of the devices. -/

section
variable {S : List Part} (about : ∀ s t, Agree S s t → I s → I t)
include about

theorem sparesOnly {α : Type} {m : M α} (hm : Spares S m) : Keeps G n ⟨B, V⟩ I m := hm.keepsQuietly about w.ground.quiet

theorem processGive {p c h t k : Nat} (clear : .process .boot ∉ S) (hp : Mortal V p) :
    Keeps G n ⟨B, V⟩ I (Sawos.processGive p c h t k) := by
  unfold Sawos.processGive
  refine .bind (w.spares (by simp)) fun _ => .bind (w.giveFaults hp) fun _ => .bind (w.spares (by simp)) fun _ => ?_
  refine .ite (.bind w.moveEntry fun _ => .ite (.bind (w.spares (by simp)) fun _ => keeps_pure) ?_) keeps_pure
  exact .bind (w.sparesOnly about (by simp [clear])) fun _ => keeps_pure

theorem bootHandleNext {p d c : Nat} (clear : .process .boot ∉ S) (hp : Mortal V p) :
    Keeps G n ⟨B, V⟩ I (Sawos.bootHandleNext p d c) := by
  unfold Sawos.bootHandleNext
  refine .bind (.whenever (w.faultProcess hp)) fun _ => .bind (w.sparesOnly about (by simp [clear])) fun _ => ?_
  refine .bind (w.spares (by simp)) fun _ => ?_
  split
  · exact keeps_pure
  refine .bind (w.spares (by simp +decide)) fun _ => .bind (w.refuse hp) fun _ => .bind ?_ fun _ => keeps_pure
  exact w.sparesOnly about (spares_processes (by simp [clear]))

theorem interruptBind {q l : Nat} (clear : ∀ x ∈ [Part.interrupt .state, .interrupt .pending, .interrupt .attachment,
    .interrupt .refs, .machine .masks], x ∉ S) :
    Leads G n ⟨B, V⟩ (fun s => I s ∧ (Bindable l s ∨ Mortal V q)) I (Sawos.interruptBind q l) := by
  rintro s ⟨hs, may⟩
  unfold Sawos.interruptBind
  refine wp_bind.mpr (wp_whenever.mpr ⟨fun bad => ?_, fun _ => wp_bind.mpr (wp_reads.mpr ?_)⟩)
  · refine (w.faultProcess_ends (may.resolve_left fun can => ?_)).never hs
    simp [can.1, can.2.1] at bad
  refine wp_bind.mpr (wp_whenever.mpr ⟨fun bound => ?_, fun _ => ?_⟩)
  · refine (w.faultProcess_ends (may.resolve_left fun can => ?_)).never hs
    simp [can.2.2] at bound
  simp only [List.forall_mem_cons] at clear
  refine w.create (by simp) (fun _ => .bind (w.sparesOnly about (spares_interrupts ?_)) fun _ => ?_) s hs
  · simp [clear]
  · exact .bind (w.spares (by simp +decide)) fun _ => w.sparesOnly about (by simp [clear])

theorem interruptOp {p o r t : Nat} (clear : ∀ x ∈ [Part.interrupt .pending, .machine .masks], x ∉ S)
    (hp : Mortal V p) :
    Keeps G n ⟨B, V⟩ I (Sawos.interruptOp p o r t) := by
  simp only [List.forall_mem_cons] at clear
  unfold Sawos.interruptOp
  split
  · exact w.faultProcess hp
  refine .bind (w.require hp) fun _ => .bind (w.spares (by simp)) fun _ =>
    .bind (.whenever (w.faultProcess hp)) fun _ => ?_
  refine .bind (w.sparesOnly about (spares_interrupts ?_)) fun _ => ?_
  · simp [clear, InterruptSlot.ack]
  · exact .bind (w.sparesOnly about (by simp [clear])) fun _ => keeps_pure

theorem clockNow {p d c : Nat} (clear : ∀ x ∈ [Part.machine .clock, .machine .environment], x ∉ S) (hp : Mortal V p) :
    Keeps G n ⟨B, V⟩ I (Sawos.clockNow p d c) := by
  simp only [List.forall_mem_cons] at clear
  refine .bind (.whenever (w.faultProcess hp)) fun _ => .bind (w.sparesOnly about (by simp [clear])) fun _ => ?_
  exact .bind (w.spares (by simp +decide)) fun _ => .bind (w.refuse hp) fun _ => keeps_pure

theorem timerCreate {p c : Nat}
    (clear : ∀ x ∈ [Part.timer .state, .timer .time, .timer .attachment, .timer .refs], x ∉ S) :
    Keeps G n ⟨B, V⟩ I (Sawos.timerCreate p c) := by
  simp only [List.forall_mem_cons] at clear
  refine w.create (by simp) fun _ => .bind (w.sparesOnly about (spares_timers ?_)) fun _ => w.spares (by simp +decide)
  simp [clear]

variable (clear : ∀ x ∈ [Part.timer .time, .machine .comparator, .machine .clock, .machine .environment], x ∉ S)
include clear

theorem timerArm {p i s b : Nat} (hp : Mortal V p) : Keeps G n ⟨B, V⟩ I (Sawos.timerArm p i s b) := by
  simp only [List.forall_mem_cons] at clear
  refine .bind (.whenever (w.faultProcess hp)) fun _ => .bind (w.spares (by simp)) fun rec => ?_
  split
  · exact w.faultProcess hp
  refine .bind (w.sparesOnly about (by simp [clear])) fun _ => .bind (w.sparesOnly about (spares_timers ?_)) fun _ => ?_
  · simp [clear, TimerSlot.arm]
  · exact .bind (w.sparesOnly about (by simp [clear])) fun _ => keeps_pure

theorem timerDisarm {i : Nat} : Keeps G n ⟨B, V⟩ I (Sawos.timerDisarm i) := by
  simp only [List.forall_mem_cons] at clear
  refine .bind (w.sparesOnly about (spares_timers ?_)) fun _ => ?_
  · simp [clear, TimerSlot.disarm]
  · exact .bind (w.sparesOnly about (by simp [clear])) fun _ => keeps_pure

end

/-- Devices are nothing to an invariant about memory, grants, life and the ready queue. -/
theorem devices (about : ∀ s t, Agree (bedrockParts ++ queueParts) s t → I s → I t) : Devices G V n I B where
  give _ _ _ _ _ hp := w.processGive about (by decide) hp
  nextHandle _ _ _ hp s hs := w.bootHandleNext about (by decide) hp s hs.1
  bind _ _ := w.interruptBind about (by decide)
  ack _ _ _ _ hp := w.interruptOp about (by decide) hp
  read _ _ _ hp := w.clockNow about (by decide) hp
  timerCreate _ _ := w.timerCreate about (by decide)
  arm _ _ _ _ hp := w.timerArm about (by decide) hp
  disarm _ := w.timerDisarm about (by decide)

/-! ### The making of processes and threads

For an invariant about parts that they leave alone. -/

section
variable {S : List Part} (about : ∀ s t, Agree S s t → I s → I t) (clear : ∀ x ∈ startParts, x ∉ S)
include about clear

theorem start {p c f t : Nat} (hp : Mortal V p) : Keeps G n ⟨B, V⟩ I (processStart p c f t) := by
  have others : ∀ x : ThreadPart, .thread x ∉ S := fun x => clear _ (by cases x <;> decide)
  unfold Sawos.processStart
  split
  · exact w.faultProcess hp
  refine .bind (w.spares (by simp)) fun _ => .bind (.whenever (w.faultProcess hp)) fun _ =>
    .bind (w.spares (by simp)) fun _ => ?_
  refine .ite (.bind (w.spares (by simp)) fun found => ?_) keeps_pure
  split
  · exact keeps_pure
  refine .bind (w.sparesOnly about ?_) fun word => ?_
  · unfold bootWord
    split
    · exact spares_pure
    · exact .bind (spares_bootHandleTake (clear _ (by decide))) fun _ => spares_pure
  split
  · exact w.faultProcess hp
  refine .bind (w.spares (by simp +decide)) fun _ =>
    .bind (w.sparesOnly about (spares_threads fun x => .inr (others x))) fun _ => ?_
  have queued : ∀ i, Spares S (readyPush i) := fun _ => spares_readyPush (clear _ (by decide)) (clear _ (by decide))
  refine .bind (w.spares (by simp +decide)) fun _ => .bind (w.sparesOnly about (queued _)) fun _ => ?_
  refine .bind (w.sparesOnly about (spares_processes fun x => ?_)) fun _ => keeps_pure
  cases x with
  | state => exact .inr (clear _ (by decide))
  | _ => exact .inl fun _ => by simp

theorem threadCreate {q e sp a : Nat} :
    Leads G n ⟨B, V⟩ (fun s => I s ∧ (Fits q e sp s ∨ Mortal V q)) I (threadCreate q e sp a) := by
  have others : ∀ x : ThreadPart, .thread x ∉ S := fun x => clear _ (by cases x <;> decide)
  rintro s ⟨hs, may⟩
  refine wp_bind.mpr (wp_readProcess.mpr fun hq => wp_bind.mpr (wp_whenever.mpr ⟨fun bad => ?_, fun _ => ?_⟩))
  · refine (w.faultProcess_ends (may.resolve_left fun fits => ?_)).never hs
    simp [fits hq] at bad
  refine w.create (by simp) (fun _ => .bind (w.spares (by simp +decide)) fun _ => ?_) s hs
  exact .bind (w.sparesOnly about (spares_threads fun x => .inr (others x))) fun _ => w.spares (by simp +decide)

end

/-- An invariant about parts that a new process leaves alone. -/
theorem fillProcess {S : List Part} (about : ∀ s t, Agree S s t → I s → I t) (clear : ∀ x ∈ fillParts, x ∉ S)
    {slot img dst : Nat} {dest : LoadRegion} : Keeps G n ⟨B, V⟩ I (fillProcess slot img dest dst) := by
  have rows : ∀ b t a k d r, Keeps G n ⟨B, V⟩ I (recordGrant slot b t a k d r) := fun _ _ _ _ _ _ =>
    w.sparesOnly about (spares_recordGrant fun x hx => clear x (List.mem_append_left _ hx))
  refine .bind (w.ground.placeImage rows) fun _ => .bind (w.spares (by simp)) fun _ =>
    .bind (w.sparesOnly about ?_) fun _ => ?_
  · refine spares_processes fun x => ?_
    cases x with
    | table | handles | quota | limits | boot => exact .inl fun _ => by simp
    | _ => exact .inr (clear _ (by decide))
  refine .bind (w.spares (by simp +decide)) fun _ => .bind (w.spares (by simp)) fun _ => w.sparesOnly about ?_
  exact spares_installQuotaLimits (clear _ (by decide)) (clear _ (by decide)) (clear _ (by decide))

/-! ### Invariants about life

Operations on memory leave alone which processes and threads there are. -/

section
variable (about : ∀ s t, Agree (lifeParts ++ watchParts ++ queueParts) s t → I s → I t)
include about

theorem sparesLife {α : Type} {m : M α} (hm : Spares (lifeParts ++ watchParts ++ queueParts) m) :
    Keeps G n ⟨B, V⟩ I m :=
  hm.keepsQuietly about w.ground.quiet

theorem split {p r len : Nat} (hp : Mortal V p) : Keeps G n ⟨B, V⟩ I (memorySplit p r len) := by
  refine .bind (w.spares (by simp)) fun _ => .bind (.whenever (w.faultProcess hp)) fun _ => ?_
  refine .bind (.whenever (w.faultProcess hp)) fun _ => w.create (by simp) fun i => ?_
  refine .bind (w.sparesLife about (by simp +decide)) fun _ => .bind (w.spares (by simp)) fun _ => ?_
  refine .bind (w.sparesLife about (spares_memories ?_)) fun _ => w.spares (by simp +decide)
  simp +decide

theorem unmap {p i : Nat} (hp : Mortal V p) : Keeps G n ⟨B, V⟩ I (mappingUnmap p i) := by
  refine .bind (w.mappedRow hp) fun _ => .bind (w.spares (by simp)) fun _ => ?_
  refine .bind (w.sparesLife about (by simp +decide)) fun _ => ?_
  refine .bind (w.sparesLife about (spares_mappings ?_)) fun _ => ?_
  · simp +decide
  refine .bind (w.sparesLife about (by simp +decide)) fun _ => .bind (w.sparesLife about (by simp +decide)) fun _ => ?_
  exact .bind (w.sparesLife about (by simp +decide)) fun _ => keeps_pure

omit about in
/-- The slot of a new process is free until it is filled. -/
theorem processCreate (fill : ∀ slot img dest dst,
      Leads G n ⟨B, V⟩ (fun s => I s ∧ (s.processes.slot slot).state = .free) I (Sawos.fillProcess slot img dest dst))
        {p i m : Nat}
    (hp : Mortal V p) : Keeps G n ⟨B, V⟩ I (processCreate p i m) := by
  refine .bind (w.memoryArg hp) fun _ => .bind (w.memoryArg hp) fun _ => .bind (w.spares (by simp)) fun _ => ?_
  refine .bind (w.spares (by simp)) fun _ => .ite keeps_pure (.bind (w.spares (by simp)) fun _ => .ite keeps_pure ?_)
  refine fun s hs => wp_bind.mpr (wp_reads.mpr ?_)
  cases found : (List.range (min s.processes.cap Hal.protDomainSlots)).find? fun i =>
    (s.processes.slot i).state = .free with
  | none => exact wp_pure.mpr hs
  | some slot =>
    have free : (s.processes.slot slot).state = .free := by simpa using List.find?_some found
    have mint : Spares groundParts (mintHandle p .process processRights slot) := by simp +decide
    refine wp_bind.mpr (wp_sparesQuietly w.ground.quiet mint fun _ t same => ?_)
    have ht := w.ground.about s t same hs
    refine wp_ite.mpr ⟨fun _ => (w.spares (by simp)).bind (fun _ => keeps_pure) t ht, fun _ => wp_bind.mpr ?_⟩
    have still : (t.processes.slot slot).state = .free := (same (.process .state) (by decide) slot).symm.trans free
    exact (fill slot _ _ _ t ⟨ht, still⟩).imp fun _ _ hu => wp_pure.mpr hu

/-- What is left to show of an invariant about life and devices: that it comes through the making of a process and of a
    thread, and through the calls on devices. -/
theorem grounded (devices : Devices G V n I B) (grow : ∀ s t, Donated s t → I s → I t)
    (fill : ∀ slot img dest dst,
      Leads G n ⟨B, V⟩ (fun s => I s ∧ (s.processes.slot slot).state = .free) I (Sawos.fillProcess slot img dest dst))
    (start : ∀ p c f t, Mortal V p → Keeps G n ⟨B, V⟩ I (processStart p c f t))
    (threadCreate : ∀ q e sp a, Leads G n ⟨B, V⟩ (fun s => I s ∧ (Fits q e sp s ∨ Mortal V q)) I
      (Sawos.threadCreate q e sp a)) :
    Grounded G V n I N B where
  toUpkeep := w
  split _ _ _ hp := w.split about hp
  map _ _ _ _ _ hp := w.map about (by decide) hp
  mapDevice _ _ _ hp := w.mapDevice about (by decide) hp
  mapStats _ _ _ hp s hs := w.mapStats about (by decide) hp s hs.1
  unmap _ _ hp := w.unmap about hp
  donate _ _ _ hp := w.donate grow (fun _ => w.sparesLife about (by simp +decide)) hp
  processCreate _ _ _ hp := w.processCreate fill hp
  start := start
  threadCreate := threadCreate
  devices := devices

end

end Upkeep

namespace Grounded
variable {G V : Ev → Prop} {n : Nat} {I N B : K → Prop} (w : Grounded G V n I N B)
include w

theorem memoryOp {p o r i a b : Nat} (hp : Mortal V p) : Keeps G n ⟨B, V⟩ I (Sawos.memoryOp p o r i a b) := by
  unfold Sawos.memoryOp
  repeat' first
    | with_reducible refine .bind ?_ fun _ => ?_
    | with_reducible refine .whenever ?_
    | with_reducible exact w.faultProcess hp
    | with_reducible exact w.require hp
    | with_reducible exact w.split _ _ _ hp
    | with_reducible exact w.map _ _ _ _ _ hp
    | split

theorem iomemoryCarve {p i o l : Nat} (hp : Mortal V p) : Keeps G n ⟨B, V⟩ I (Sawos.iomemoryCarve p i o l) := by
  unfold Sawos.iomemoryCarve
  repeat' first
    | with_reducible refine .bind ?_ fun _ => ?_
    | with_reducible refine .whenever ?_
    | with_reducible exact w.faultProcess hp
    | solve | refine w.spares ?_; simp +decide
    | solve | with_reducible exact w.spares (spares_ioMemories (by simp +decide))
    | with_reducible refine w.create ?_ fun _ => ?_
    | solve | simp

theorem iomemoryOp {p o r i a b : Nat} (hp : Mortal V p) : Keeps G n ⟨B, V⟩ I (Sawos.iomemoryOp p o r i a b) := by
  unfold Sawos.iomemoryOp
  repeat' first
    | with_reducible refine .bind ?_ fun _ => ?_
    | with_reducible refine .whenever ?_
    | with_reducible exact w.faultProcess hp
    | with_reducible exact w.require hp
    | with_reducible exact w.iomemoryCarve hp
    | with_reducible exact w.mapDevice _ _ _ hp
    | split

theorem mappingOp {p o r i : Nat} (hp : Mortal V p) : Keeps G n ⟨B, V⟩ I (Sawos.mappingOp p o r i) := by
  unfold Sawos.mappingOp mappingBase
  repeat' first
    | with_reducible refine .bind ?_ fun _ => ?_
    | with_reducible refine .whenever ?_
    | with_reducible exact w.faultProcess hp
    | with_reducible exact w.require hp
    | with_reducible exact w.mappedRow hp
    | with_reducible exact w.unmap _ _ hp
    | solve | refine w.spares ?_; simp +decide
    | split

theorem processStats {p t d c : Nat} (hp : Mortal V p) : Keeps G n ⟨B, V⟩ I (Sawos.processStats p t d c) := by
  unfold Sawos.processStats
  repeat' first
    | with_reducible refine .bind ?_ fun _ => ?_
    | with_reducible refine .whenever ?_
    | with_reducible exact w.faultProcess hp
    | with_reducible exact w.refuse hp
    | solve | refine w.spares ?_; simp +decide

theorem eventCreate {q m : Nat} (hq : (EventMode.ofRaw m).isSome = true ∨ Mortal V q) :
    Keeps G n ⟨B, V⟩ I (Sawos.eventCreate q m) := by
  unfold Sawos.eventCreate
  cases mode : EventMode.ofRaw m with
  | none => exact w.faultProcess (hq.resolve_left (by simp [mode]))
  | some _ =>
    refine w.create (by simp) fun _ => .bind (w.spares (spares_events ?_)) fun _ => w.spares (by simp +decide)
    simp +decide

theorem waiterCreate {p : Nat} : Keeps G n ⟨B, V⟩ I (Sawos.waiterCreate p) := by
  unfold Sawos.waiterCreate
  repeat' first
    | with_reducible refine .bind ?_ fun _ => ?_
    | with_reducible refine .whenever ?_
    | solve | refine w.spares ?_; simp +decide
    | solve | with_reducible exact w.spares (spares_waiters (by simp +decide))
    | with_reducible refine w.create ?_ fun _ => ?_
    | solve | simp

theorem mintEnds {o s : Nat} : Keeps G n ⟨B, V⟩ I (Sawos.mintEnds o s) := by
  unfold Sawos.mintEnds
  repeat' first
    | with_reducible refine .bind ?_ fun _ => ?_
    | with_reducible refine .whenever ?_
    | solve | refine w.spares ?_; simp +decide
    | split

theorem pipeCreate {o p d c : Nat} (hp : Mortal V p) : Keeps G n ⟨B, V⟩ I (Sawos.pipeCreate o p d c) := by
  unfold Sawos.pipeCreate
  repeat' first
    | with_reducible refine .bind ?_ fun _ => ?_
    | with_reducible refine .whenever ?_
    | with_reducible exact w.faultProcess hp
    | with_reducible exact w.refuse hp
    | with_reducible exact w.mintEnds
    | solve | refine w.spares ?_; simp +decide
    | solve | with_reducible exact w.spares (spares_pipes (by simp +decide))
    | split

theorem threadSelf {p : Nat} (hp : Mortal V p) : Keeps G n ⟨B, V⟩ I (Sawos.threadSelf p) := by
  unfold Sawos.threadSelf
  repeat' first
    | with_reducible refine .bind ?_ fun _ => ?_
    | with_reducible refine .whenever ?_
    | with_reducible exact w.faultProcess hp
    | solve | refine w.spares ?_; simp +decide
    | with_reducible refine w.minted ?_
    | split

theorem processOp {p o r q a b c : Nat} (hp : Mortal V p) :
    Leads G n ⟨B, V⟩ (fun s => I s ∧ Calls p s ∧ Aimed V r q o a b s) I (Sawos.processOp p o r q a b c) := by
  rintro s ⟨hs, calls, aimed⟩
  have after : ∀ {t : Nat} {m : M SyscallResult}, Keeps G n ⟨B, V⟩ I m →
      wp G n (do Sawos.require p r t; m) (fun _ => I) (.leaving ⟨B, V⟩) s :=
    fun hm => wp_bind.mpr (w.wp_require hp hs fun _ => hm s hs)
  unfold Sawos.processOp
  unfold Aimed at aimed
  rcases decoded : ProcessOp.ofRaw o with _ | op
  · exact w.faultProcess hp s hs
  rw [decoded] at aimed
  cases op with
  | threadCreate => exact wp_bind.mpr (w.wp_require hp hs fun ok => w.threadCreate _ _ _ _ s ⟨hs, aimed ok⟩)
  | threadSelf => exact after (w.threadSelf hp)
  | exit => exact wp_bind.mpr (w.wp_require hp hs fun ok => (w.endProcess_told (aimed ok)).never hs)
  | getStatus => exact after (.bind (w.spares (by simp)) fun _ => keeps_pure)
  | eventCreate => exact wp_bind.mpr (w.wp_require hp hs fun ok => w.eventCreate (aimed ok) s hs)
  | waiterCreate => exact after w.waiterCreate
  | interruptBind => exact wp_bind.mpr (w.wp_require hp hs fun ok => w.devices.bind _ _ s ⟨hs, aimed ok⟩)
  | start => exact after (w.start _ _ _ _ hp)
  | bootHandleNext => exact wp_bind.mpr (w.wp_require hp hs fun _ => w.devices.nextHandle _ _ _ hp s ⟨hs, calls⟩)
  | give => exact after (w.devices.give _ _ _ _ _ hp)
  | pipeCreate => exact after (w.pipeCreate hp)
  | stats => exact after (w.processStats hp)

theorem processSelf {p k : Nat} : Keeps G n ⟨B, V⟩ I (Sawos.processSelf p k) := by
  unfold Sawos.processSelf
  repeat' first
    | with_reducible refine .bind ?_ fun _ => ?_
    | with_reducible refine .whenever ?_
    | solve | refine w.spares ?_; simp +decide
    | with_reducible refine w.minted ?_

theorem clockGet {p c : Nat} (hp : Mortal V p) : Keeps G n ⟨B, V⟩ I (Sawos.clockGet p c) := by
  unfold Sawos.clockGet
  repeat' first
    | with_reducible refine .bind ?_ fun _ => ?_
    | with_reducible refine .whenever ?_
    | with_reducible exact w.faultProcess hp
    | solve | refine w.spares ?_; simp +decide
    | with_reducible refine w.minted ?_
    | split

/-- A call on the system object, by the process that makes it. -/
theorem systemOp {p o r a b : Nat} (hp : Mortal V p) :
    Leads G n ⟨B, V⟩ (fun s => I s ∧ Calls p s) I (Sawos.systemOp p o r a b) := by
  have other : ∀ {m : M SyscallResult}, Keeps G n ⟨B, V⟩ I m → Leads G n ⟨B, V⟩ (fun s => I s ∧ Calls p s) I m :=
    fun h s hs => h s hs.1
  unfold Sawos.systemOp
  rcases SystemOp.ofRaw o with _ | op
  · exact other (w.faultProcess hp)
  cases op with
  | statsRegionMap => exact fun s hs => wp_bind.mpr (w.wp_require hp hs.1 fun _ => w.mapStats _ _ _ hp s hs)
  | _ =>
    refine other (.bind (w.require hp) fun _ => ?_)
    repeat' first
      | with_reducible refine .bind ?_ fun _ => ?_
      | exact Upkeep.exitMachine
      | with_reducible exact w.processSelf
      | with_reducible exact w.clockGet hp
      | with_reducible exact w.processCreate _ _ _ hp
      | with_reducible exact w.donate _ _ _ hp
      | solve | refine w.spares ?_; simp +decide

theorem parking {p : Nat} (hp : Mortal V p) : Keeps G n ⟨B, V⟩ I (Sawos.parking p) := by
  unfold Sawos.parking
  repeat' first
    | with_reducible refine .bind ?_ fun _ => ?_
    | with_reducible refine .whenever ?_
    | with_reducible exact w.faultProcess hp
    | solve | refine w.spares ?_; simp +decide
    | split

theorem callReply {t x d : Nat} : Keeps G n ⟨B, V⟩ I (blockOnCallReply t x d) :=
  .bind (w.ground.tie _ _ _) fun _ => w.spares (by simp +decide)

theorem threadJoin {p t : Nat} (hp : Mortal V p) : Keeps G n ⟨B, V⟩ I (Sawos.threadJoin p t) := by
  unfold Sawos.threadJoin
  repeat' first
    | with_reducible refine .bind ?_ fun _ => ?_
    | with_reducible refine .whenever ?_
    | with_reducible exact w.faultProcess hp
    | with_reducible exact w.join _ _
    | solve | refine w.spares ?_; simp +decide
    | split

theorem threadOp {p o r t a : Nat} (hp : Mortal V p) : Keeps G n ⟨B, V⟩ I (Sawos.threadOp p o r t a) := by
  unfold Sawos.threadOp
  rcases ThreadOp.ofRaw o with _ | op
  · exact w.faultProcess hp
  cases op with
  | exit =>
    refine .bind (w.require hp) fun _ s hs => wp_bind.mpr (wp_reads.mpr (wp_bind.mpr (w.wp_check hp hs fun self => ?_)))
    have cur : some t = s.currentThread := by simpa using self
    exact wp_bind.mpr ((w.exitThread s ⟨hs, cur.symm⟩).imp fun _ _ hu => wp_pure.mpr hu)
  | _ =>
    repeat' first
      | with_reducible refine .bind ?_ fun _ => ?_
      | with_reducible refine .whenever ?_
      | with_reducible exact w.faultProcess hp
      | with_reducible exact w.require hp
      | with_reducible exact w.threadJoin hp
      | with_reducible exact w.ground.ready _
      | solve | refine w.spares ?_; simp +decide

theorem eventOp {p o r t a : Nat} (hp : Mortal V p) : Keeps G n ⟨B, V⟩ I (Sawos.eventOp p o r t a) := by
  unfold Sawos.eventOp
  repeat' first
    | with_reducible refine .bind ?_ fun _ => ?_
    | with_reducible refine .whenever ?_
    | with_reducible exact w.faultProcess hp
    | with_reducible exact w.require hp
    | with_reducible exact w.signalEvent
    | solve | refine w.spares ?_; simp +decide
    | solve | with_reducible exact w.spares (spares_events (by simp +decide))
    | split

theorem clockOp {p o r i a b : Nat} (hp : Mortal V p) : Keeps G n ⟨B, V⟩ I (Sawos.clockOp p o r i a b) := by
  unfold Sawos.clockOp
  repeat' first
    | with_reducible refine .bind ?_ fun _ => ?_
    | with_reducible refine .whenever ?_
    | with_reducible exact w.faultProcess hp
    | with_reducible exact w.require hp
    | with_reducible exact w.devices.read _ _ _ hp
    | with_reducible exact w.devices.timerCreate _ _
    | split

theorem timerOp {p o r i a b : Nat} (hp : Mortal V p) : Keeps G n ⟨B, V⟩ I (Sawos.timerOp p o r i a b) := by
  unfold Sawos.timerOp
  repeat' first
    | with_reducible refine .bind ?_ fun _ => ?_
    | with_reducible refine .whenever ?_
    | with_reducible exact w.faultProcess hp
    | with_reducible exact w.require hp
    | with_reducible exact w.devices.arm _ _ _ _ hp
    | with_reducible exact w.devices.disarm _
    | split

theorem waitableSlot {p h : Nat} (hp : Mortal V p) : Keeps G n ⟨B, V⟩ I (Sawos.waitableSlot p h) := by
  unfold Sawos.waitableSlot
  repeat' first
    | with_reducible refine .bind ?_ fun _ => ?_
    | with_reducible refine .whenever ?_
    | with_reducible exact w.faultProcess hp
    | with_reducible exact w.require hp
    | solve | refine w.spares ?_; simp +decide
    | split

theorem waiterAdd {p w' h k f : Nat} (hp : Mortal V p) : Keeps G n ⟨B, V⟩ I (Sawos.waiterAdd p w' h k f) := by
  refine .bind (.whenever (w.faultProcess hp)) fun _ => .bind (w.waitableSlot hp) fun found => ?_
  refine .bind (w.spares (by simp)) fun _ => .bind (.whenever (w.faultProcess hp)) fun _ => ?_
  refine .bind (w.spares (by simp)) fun _ => .bind (.whenever (w.faultProcess hp)) fun _ s hs => ?_
  refine wp_bind.mpr (wp_reads.mpr ?_)
  cases vacant : (attachments.get s).find (·.state = .free) with
  | none => exact wp_pure.mpr hs
  | some a =>
    have free : ((attachments.get s).slot a).state = .free := by simpa using List.find?_some vacant
    refine wp_bind.mpr (wp_read.mpr fun _ => ?_)
    refine wp_bind.mpr ((wp_bind.mp (w.ground.links.attach a _ rfl s ⟨hs, free⟩)).imp fun _ u hu => ?_)
    refine wp_bind.mpr ((wp_bind.mp hu).imp fun _ v hv => wp_bind.mpr (hv.imp fun _ t ht => ?_))
    refine Keeps.bind w.refObject (fun _ => .bind (.whenever ?_) fun _ => ?_) t ht
    · exact .bind (w.spares (by simp +decide)) fun _ => w.unrefWaitable
    · exact .bind (w.spares (by simp)) fun _ => .bind (.whenever w.wake) fun _ => keeps_pure

theorem waiterRemove {p w' k : Nat} (hp : Mortal V p) : Keeps G n ⟨B, V⟩ I (Sawos.waiterRemove p w' k) := by
  unfold Sawos.waiterRemove
  repeat' first
    | with_reducible refine .bind ?_ fun _ => ?_
    | with_reducible refine .whenever ?_
    | with_reducible exact w.faultProcess hp
    | with_reducible exact w.ground.detachAttachment
    | with_reducible exact w.unrefWaitable
    | solve | refine w.spares ?_; simp +decide
    | split

theorem deliverOrPark {p w' d : Nat} (hp : Mortal V p) : Keeps G n ⟨B, V⟩ I (Sawos.deliverOrPark p w' d) := by
  unfold Sawos.deliverOrPark
  repeat' first
    | with_reducible refine .bind ?_ fun _ => ?_
    | with_reducible refine .whenever ?_
    | with_reducible exact w.parking hp
    | with_reducible exact w.deliverTo
    | with_reducible exact w.wait _ _ _
    | solve | refine w.spares ?_; simp +decide
    | split

theorem waiterWait {p w' d c : Nat} (hp : Mortal V p) : Keeps G n ⟨B, V⟩ I (Sawos.waiterWait p w' d c) := by
  unfold Sawos.waiterWait
  repeat' first
    | with_reducible refine .bind ?_ fun _ => ?_
    | with_reducible refine .whenever ?_
    | with_reducible exact w.faultProcess hp
    | with_reducible exact w.refuse hp
    | with_reducible exact w.deliverOrPark hp
    | solve | refine w.spares ?_; simp +decide

theorem waiterOp {p o r w' a b c : Nat} (hp : Mortal V p) : Keeps G n ⟨B, V⟩ I (Sawos.waiterOp p o r w' a b c) := by
  unfold Sawos.waiterOp
  repeat' first
    | with_reducible refine .bind ?_ fun _ => ?_
    | with_reducible refine .whenever ?_
    | with_reducible exact w.faultProcess hp
    | with_reducible exact w.require hp
    | with_reducible exact w.waiterAdd hp
    | with_reducible exact w.waiterRemove hp
    | with_reducible exact w.waiterWait hp
    | split

/-! ### System calls on connections -/

theorem checkWord {p h : Nat} (hp : Mortal V p) : Keeps G n ⟨B, V⟩ I (Sawos.checkWord p h) := by
  unfold Sawos.checkWord
  repeat' first
    | with_reducible refine .bind ?_ fun _ => ?_
    | with_reducible refine .whenever ?_
    | with_reducible exact w.faultProcess hp
    | solve | refine w.spares ?_; simp +decide

theorem checkSend {p : Nat} (hp : Mortal V p) {a : PipeSendRecord} : Keeps G n ⟨B, V⟩ I (Sawos.checkSend p a) := by
  unfold Sawos.checkSend
  repeat' first
    | with_reducible refine .bind ?_ fun _ => ?_
    | with_reducible refine .whenever ?_
    | with_reducible exact w.faultProcess hp
    | with_reducible exact w.checkWord hp
    | solve | refine w.spares ?_; simp +decide
    | with_reducible refine .countUp fun _ => ?_

theorem sendArgs {p s b : Nat} (hp : Mortal V p) : Keeps G n ⟨B, V⟩ I (Sawos.sendArgs p s b) := by
  unfold Sawos.sendArgs
  repeat' first
    | with_reducible refine .bind ?_ fun _ => ?_
    | with_reducible refine .whenever ?_
    | with_reducible exact w.faultProcess hp
    | with_reducible exact w.checkSend hp
    | solve | refine w.spares ?_; simp +decide
    | split

theorem detachWatcher {k : WaitableKind} {i : Nat} : Keeps G n ⟨B, V⟩ I (Sawos.detachWatcher k i) := by
  unfold Sawos.detachWatcher
  repeat' first
    | with_reducible refine .bind ?_ fun _ => ?_
    | with_reducible exact w.ground.detachAttachment
    | with_reducible exact w.unrefWaitable
    | solve | refine w.spares ?_; simp +decide
    | split

theorem detachConsumed {k : ObjType} {i : Nat} : Keeps G n ⟨B, V⟩ I (Sawos.detachConsumed k i) := by
  cases k <;> unfold Sawos.detachConsumed
  repeat' first
    | with_reducible refine .bind ?_ fun _ => ?_
    | with_reducible refine .whenever ?_
    | with_reducible exact w.detachWatcher
    | solve | refine w.spares ?_; simp +decide

theorem consumeEntry {p h i : Nat} {k : ObjType} : Keeps G n ⟨B, V⟩ I (Sawos.consumeEntry p h k i) := by
  unfold Sawos.consumeEntry
  repeat' first
    | with_reducible refine .bind ?_ fun _ => ?_
    | with_reducible refine .whenever ?_
    | with_reducible exact w.detachConsumed
    | with_reducible exact w.unref
    | solve | refine w.spares ?_; simp +decide

theorem pipePost {p i s b : Nat} (hp : Mortal V p) : Keeps G n ⟨B, V⟩ I (Sawos.pipePost p i s b) := by
  unfold Sawos.pipePost
  repeat' first
    | with_reducible refine .bind ?_ fun _ => ?_
    | with_reducible refine .whenever ?_
    | with_reducible exact w.sendArgs hp
    | with_reducible exact w.refuse hp
    | with_reducible exact w.stageMessage
    | with_reducible exact w.notify
    | solve | refine w.spares ?_; simp +decide
    | with_reducible refine w.minted ?_
    | split

theorem pipeCall {p i s b d : Nat} (hp : Mortal V p) : Keeps G n ⟨B, V⟩ I (Sawos.pipeCall p i s b d) := by
  unfold Sawos.pipeCall
  repeat' first
    | with_reducible refine .bind ?_ fun _ => ?_
    | with_reducible refine .whenever ?_
    | with_reducible exact w.sendArgs hp
    | with_reducible exact w.refuse hp
    | with_reducible exact w.parking hp
    | with_reducible exact w.stageMessage
    | with_reducible exact w.notify
    | with_reducible exact w.room _ _ _ _ _
    | with_reducible exact w.callReply
    | solve | refine w.spares ?_; simp +decide
    | split

theorem pipeInletOp {p o r i a b c : Nat} (hp : Mortal V p) : Keeps G n ⟨B, V⟩ I (Sawos.pipeInletOp p o r i a b c) := by
  unfold Sawos.pipeInletOp
  repeat' first
    | with_reducible refine .bind ?_ fun _ => ?_
    | with_reducible refine .whenever ?_
    | with_reducible exact w.faultProcess hp
    | with_reducible exact w.require hp
    | with_reducible exact w.pipePost hp
    | with_reducible exact w.pipeCall hp
    | split

theorem copyRecord {p d o : Nat} (hp : Mortal V p) {l m : List UInt8} :
    Keeps G n ⟨B, V⟩ I (Sawos.copyRecord p d l o m) := by
  unfold Sawos.copyRecord
  repeat' first
    | with_reducible refine .bind ?_ fun _ => ?_
    | with_reducible refine .whenever ?_
    | with_reducible exact w.refuse hp
    | solve | refine w.spares ?_; simp +decide

theorem pipeTake {p i d c : Nat} (hp : Mortal V p) : Keeps G n ⟨B, V⟩ I (Sawos.pipeTake p i d c) := by
  unfold Sawos.pipeTake
  repeat' first
    | with_reducible refine .bind ?_ fun _ => ?_
    | with_reducible refine .whenever ?_
    | with_reducible exact w.faultProcess hp
    | with_reducible exact w.refuse hp
    | with_reducible exact w.mintStaged
    | with_reducible exact w.copyRecord hp
    | solve | refine w.spares ?_; simp +decide
    | solve | with_reducible exact w.spares (spares_exchanges (by simp +decide))
    | split

theorem pipeOutletOp {p o r i a b : Nat} (hp : Mortal V p) : Keeps G n ⟨B, V⟩ I (Sawos.pipeOutletOp p o r i a b) := by
  unfold Sawos.pipeOutletOp
  repeat' first
    | with_reducible refine .bind ?_ fun _ => ?_
    | with_reducible refine .whenever ?_
    | with_reducible exact w.faultProcess hp
    | with_reducible exact w.require hp
    | with_reducible exact w.pipeTake hp
    | split

theorem parkResolve {p h x d : Nat} (hp : Mortal V p) : Keeps G n ⟨B, V⟩ I (Sawos.parkResolve p h x d) := by
  unfold Sawos.parkResolve
  repeat' first
    | with_reducible refine .bind ?_ fun _ => ?_
    | with_reducible refine .whenever ?_
    | with_reducible exact w.parking hp
    | with_reducible exact w.detachConsumed
    | with_reducible exact w.callReply
    | solve | refine w.spares ?_; simp +decide

theorem resolveClosed {p h x : Nat} : Keeps G n ⟨B, V⟩ I (Sawos.resolveClosed p h x) := by
  unfold Sawos.resolveClosed
  repeat' first
    | with_reducible refine .bind ?_ fun _ => ?_
    | with_reducible refine .whenever ?_
    | with_reducible exact w.consumeEntry
    | solve | refine w.spares ?_; simp +decide

theorem resolveReplied {p h x d : Nat} (hp : Mortal V p) : Keeps G n ⟨B, V⟩ I (Sawos.resolveReplied p h x d) := by
  unfold Sawos.resolveReplied
  repeat' first
    | with_reducible refine .bind ?_ fun _ => ?_
    | with_reducible refine .whenever ?_
    | with_reducible exact w.consumeEntry
    | with_reducible exact w.mintStaged
    | with_reducible exact w.copyRecord hp
    | solve | refine w.spares ?_; simp +decide
    | split

theorem pipeResolve {p h x d c : Nat} (hp : Mortal V p) : Keeps G n ⟨B, V⟩ I (Sawos.pipeResolve p h x d c) := by
  unfold Sawos.pipeResolve
  repeat' first
    | with_reducible refine .bind ?_ fun _ => ?_
    | with_reducible refine .whenever ?_
    | with_reducible exact w.faultProcess hp
    | with_reducible exact w.refuse hp
    | with_reducible exact w.resolveReplied hp
    | with_reducible exact w.resolveClosed
    | with_reducible exact w.parkResolve hp
    | solve | refine w.spares ?_; simp +decide
    | split

theorem pipeReady {x : Nat} : Keeps G n ⟨B, V⟩ I (Sawos.pipeReady x) := by
  unfold Sawos.pipeReady
  repeat' first
    | with_reducible refine .bind ?_ fun _ => ?_
    | with_reducible refine .whenever ?_
    | solve | refine w.spares ?_; simp +decide
    | split

theorem pipeReplyOp {p o r h x a b : Nat} (hp : Mortal V p) : Keeps G n ⟨B, V⟩ I (Sawos.pipeReplyOp p o r h x a b) := by
  unfold Sawos.pipeReplyOp
  repeat' first
    | with_reducible refine .bind ?_ fun _ => ?_
    | with_reducible refine .whenever ?_
    | with_reducible exact w.faultProcess hp
    | with_reducible exact w.require hp
    | with_reducible exact w.pipeResolve hp
    | with_reducible exact w.pipeReady
    | split

theorem replyClosed {p h x : Nat} : Keeps G n ⟨B, V⟩ I (Sawos.replyClosed p h x) := by
  unfold Sawos.replyClosed
  repeat' first
    | with_reducible refine .bind ?_ fun _ => ?_
    | with_reducible refine .whenever ?_
    | with_reducible exact w.consumeEntry
    | solve | refine w.spares ?_; simp +decide

theorem pipeReplyStatus {p h x : Nat} (hp : Mortal V p) {a : PipeSendRecord} :
    Keeps G n ⟨B, V⟩ I (Sawos.pipeReplyStatus p h x a) := by
  unfold Sawos.pipeReplyStatus
  repeat' first
    | with_reducible refine .bind ?_ fun _ => ?_
    | with_reducible refine .whenever ?_
    | with_reducible exact w.refuse hp
    | with_reducible exact w.replyClosed
    | with_reducible exact w.holdStaged
    | with_reducible exact w.notifyClaim
    | with_reducible exact w.consumeEntry
    | solve | refine w.spares ?_; simp +decide
    | solve | with_reducible exact w.spares (spares_exchanges (by simp +decide))
    | split

theorem replyWaitWaiter {p h : Nat} (hp : Mortal V p) : Keeps G n ⟨B, V⟩ I (Sawos.replyWaitWaiter p h) := by
  unfold Sawos.replyWaitWaiter
  repeat' first
    | with_reducible refine .bind ?_ fun _ => ?_
    | with_reducible refine .whenever ?_
    | with_reducible exact w.faultProcess hp
    | with_reducible exact w.require hp
    | solve | refine w.spares ?_; simp +decide
    | split

theorem pipeReplyWait {p h x s b d : Nat} (hp : Mortal V p) : Keeps G n ⟨B, V⟩ I (Sawos.pipeReplyWait p h x s b d) := by
  unfold Sawos.pipeReplyWait
  repeat' first
    | with_reducible refine .bind ?_ fun _ => ?_
    | with_reducible refine .whenever ?_
    | with_reducible exact w.faultProcess hp
    | with_reducible exact w.refuse hp
    | with_reducible exact w.checkSend hp
    | with_reducible exact w.replyWaitWaiter hp
    | with_reducible exact w.pipeReplyStatus hp
    | with_reducible exact w.deliverOrPark hp
    | solve | refine w.spares ?_; simp +decide
    | split

theorem pipeRequestOp {p o r h x a b c : Nat} (hp : Mortal V p) :
    Keeps G n ⟨B, V⟩ I (Sawos.pipeRequestOp p o r h x a b c) := by
  unfold Sawos.pipeRequestOp
  repeat' first
    | with_reducible refine .bind ?_ fun _ => ?_
    | with_reducible refine .whenever ?_
    | with_reducible exact w.faultProcess hp
    | with_reducible exact w.require hp
    | with_reducible exact w.sendArgs hp
    | with_reducible exact w.pipeReplyStatus hp
    | with_reducible exact w.pipeReplyWait hp
    | solve | refine w.spares ?_; simp +decide
    | split

/-! ### Traps -/

theorem releaseHandle {p h : Nat} (hp : Mortal V p) {e : HandleEntry} :
    Keeps G n ⟨B, V⟩ I (Sawos.releaseHandle p h e) := by
  unfold Sawos.releaseHandle
  repeat' first
    | with_reducible refine .bind ?_ fun _ => ?_
    | with_reducible refine .whenever ?_
    | with_reducible exact w.faultProcess hp
    | with_reducible exact w.unref
    | solve | refine w.spares ?_; simp +decide

theorem mintSibling {p k : Nat} (hp : Mortal V p) {e : HandleEntry} : Keeps G n ⟨B, V⟩ I (Sawos.mintSibling p e k) := by
  unfold Sawos.mintSibling
  repeat' first
    | with_reducible refine .bind ?_ fun _ => ?_
    | with_reducible refine .whenever ?_
    | with_reducible exact w.faultProcess hp
    | with_reducible exact w.refObject
    | solve | refine w.spares ?_; simp +decide
    | with_reducible refine w.minted ?_

theorem objectOp {p h o a b c : Nat} (hp : Mortal V p) {e : HandleEntry} :
    Leads G n ⟨B, V⟩ (fun s => I s ∧ Calls p s ∧ (e.objType = .process → Aimed V e.rights e.target o a b s)) I
      (Sawos.objectOp p h o a b c e) := by
  have other : ∀ {m : M SyscallResult}, Keeps G n ⟨B, V⟩ I m → Leads G n ⟨B, V⟩
      (fun s => I s ∧ Calls p s ∧ (e.objType = .process → Aimed V e.rights e.target o a b s)) I m :=
    fun h s hs => h s hs.1
  unfold Sawos.objectOp
  cases kind : e.objType with
  | system => exact fun s hs => w.systemOp hp s ⟨hs.1, hs.2.1⟩
  | process => exact fun s hs => w.processOp hp s ⟨hs.1, hs.2.1, hs.2.2 rfl⟩
  | unbound => exact fun s hs => w.faultProcess hp s hs.1
  | thread => exact fun s hs => w.threadOp hp s hs.1
  | event => exact fun s hs => w.eventOp hp s hs.1
  | waiter => exact fun s hs => w.waiterOp hp s hs.1
  | interrupt => exact fun s hs => w.devices.ack _ _ _ _ hp s hs.1
  | clock => exact fun s hs => w.clockOp hp s hs.1
  | timer => exact fun s hs => w.timerOp hp s hs.1
  | memory => exact fun s hs => w.memoryOp hp s hs.1
  | ioMemory => exact fun s hs => w.iomemoryOp hp s hs.1
  | mapping => exact fun s hs => w.mappingOp hp s hs.1
  | pipeInlet => exact fun s hs => w.pipeInletOp hp s hs.1
  | pipeOutlet => exact fun s hs => w.pipeOutletOp hp s hs.1
  | pipeReply => exact fun s hs => w.pipeReplyOp hp s hs.1
  | pipeRequest => exact fun s hs => w.pipeRequestOp hp s hs.1

omit w in
theorem wp_callingProcess {A : Conduct K Ev} {Q : Nat → K → Prop} {s : K} (hQ : ∀ p, Calls p s → Q p s) :
    wp G n callingProcess Q (.leaving A) s := by
  unfold callingProcess
  refine wp_bind.mpr (wp_reads.mpr ?_)
  cases cur : s.currentThread with
  | none => exact wp_pure.mpr (hQ 0 (by simp [Calls, cur, rootProcess]))
  | some t =>
    refine wp_bind.mpr (wp_readThread.mpr fun ht => wp_pure.mpr (hQ _ ?_))
    simp [Calls, cur, ht]

theorem dispatch {h o a b c : Nat} :
    Leads G n ⟨B, V⟩ (fun s => I s ∧ Directed V h o a b s) I (Sawos.dispatch h o a b c) := by
  rintro s ⟨hs, directed⟩
  refine wp_bind.mpr (wp_callingProcess fun p calls => wp_bind.mpr (wp_bind.mpr (wp_readProcess.mpr fun _ => ?_)))
  obtain ⟨hp, aimed⟩ := directed p calls
  refine wp_pure.mpr (wp_ite.mpr ⟨fun _ => w.releaseHandle hp s hs, fun _ => ?_⟩)
  exact wp_ite.mpr ⟨fun _ => w.mintSibling hp s hs, fun _ => w.objectOp hp s ⟨hs, calls, aimed⟩⟩

theorem countTrap {k : TrapKind} : Keeps G n ⟨B, V⟩ I (Sawos.countTrap k) := w.spares (by simp +decide)

omit w in
theorem wp_countTrap {A : Conduct K Ev} {k : TrapKind} {Q : Unit → K → Prop} {s : K}
    (hQ : ∀ rows, Q () { s with stats := rows }) : wp G n (Sawos.countTrap k) Q (.leaving A) s := by
  unfold Sawos.countTrap
  refine wp_bind.mpr (wp_reads.mpr ?_)
  cases s.currentThread with
  | none => exact wp_pure.mpr (hQ s.stats)
  | some t => exact wp_bind.mpr (wp_readThread.mpr fun _ => wp_modifies.mpr (hQ _))

/-- The end of a system call, with the switch to the thread that runs next. -/
theorem finishTrap {t : Option Nat} {r : SyscallResult} : Leads G n ⟨B, V⟩ I B (Sawos.finishTrap t r) := by
  have answered : Keeps G n ⟨B, V⟩ I (answerTrapped t r) := by
    cases t with
    | none => exact keeps_pure
    | some t => exact .whenever (w.spares (by simp +decide))
  exact answered.leads.bind fun _ => w.pickNext

theorem ktrapSyscall {h o a b c : Nat} :
    Leads G n ⟨B, V⟩ (fun s => I s ∧ Directed V h o a b s) B (Sawos.ktrapSyscall h o a b c) := by
  rintro s ⟨hs, directed⟩
  refine wp_bind.mpr (wp_countTrap fun rows => ?_)
  have counted : I { s with stats := rows } := w.ground.about s _ (agree_around (by decide) (by decide)) hs
  exact wp_bind.mpr
    (wp_reads.mpr (wp_bind.mpr ((w.dispatch _ ⟨counted, directed⟩).imp fun r v hv => w.finishTrap v hv)))

theorem ktrapInterrupt {l : Nat} : Leads G n ⟨B, V⟩ I B (Sawos.ktrapInterrupt l) :=
  w.countTrap.leads.bind fun _ => w.deliverLine.leads.bind fun _ => w.pickNext

theorem ktrapFault : Keeps G n ⟨B, V⟩ I (Sawos.ktrapFault) := .bind w.countTrap fun _ => w.faultTrap

theorem userStore {va : Nat} {b : UInt8} : Keeps G n ⟨B, V⟩ I (Sawos.userStore va b) := by
  unfold Sawos.userStore
  repeat' first
    | with_reducible refine .bind ?_ fun _ => ?_
    | with_reducible refine .whenever ?_
    | solve | refine w.spares ?_; simp +decide
    | solve | exact w.spares (spares_machine (fun _ => rfl) (by simp +decide [K.shape]))
    | split

end Grounded

/-! ### Whole runs -/

namespace Grounded
variable {G V : Ev → Prop} {n : Nat} {I N : K → Prop} (w : Grounded G V n I N I) (mortal : ∀ p, Mortal V p)
include w mortal

theorem handle {i : Input} : Keeps G n ⟨I, V⟩ I (Sawos.handle i) := by
  cases i with
  | syscall => exact fun s hs => w.ktrapSyscall s ⟨hs, directed_any mortal⟩
  | fault => exact w.ktrapFault
  | interrupt => exact w.ktrapInterrupt
  | store => exact w.userStore

theorem act {i : Stimulus} : Keeps G n ⟨I, V⟩ I (Sawos.act i) := by
  refine .bind (w.spares (spares_machine (fun _ => rfl) ?_)) fun _ => w.handle mortal
  simp +decide [K.shape]

end Grounded

theorem boot_leads {G : Ev → Prop} {n : Nat} {A : Conduct K Ev} {I J L N : K → Prop}
    (place : ∀ img, Leads G n A I J (placeImage rootProcess img rootRegion none))
    (load : Leads G n A J L (loadDomain rootProcess))
    (start : ∀ e a b c d f, Leads G n A L N (startProcess e a b c d f)) : Leads G n A I N loadRootAndEnter := by
  intro s hs
  refine wp_bind.mpr (wp_whenever.mpr ⟨fun _ => wp_halt.mpr trivial, fun _ => wp_bind.mpr (wp_reads.mpr ?_)⟩)
  refine wp_bind.mpr (wp_whenever.mpr ⟨fun _ => wp_halt.mpr trivial, fun _ => wp_bind.mpr (wp_reads.mpr ?_)⟩)
  refine wp_bind.mpr ((place _ s hs).imp fun _ s₁ h₁ => wp_bind.mpr ((load s₁ h₁).imp fun _ s₂ h₂ => ?_))
  exact start _ _ _ _ _ _ s₂ h₂

/-- What the boot establishes and every step keeps holds in every state that a run reaches. -/
theorem Grounded.reachable {G : Ev → Prop} {I : K → Prop} {s : K} (w : ∀ n, SteadyGrounded G n I)
    (boot : ∀ n, Leads G n Conduct.stays K.Fresh I loadRootAndEnter) (h : ReachableWith G s) : I s :=
  h.ofPrograms (fun n s₀ h₀ => boot n s₀ h₀) fun _ n => (w n).act fun _ => mortal_any

end Sawos
