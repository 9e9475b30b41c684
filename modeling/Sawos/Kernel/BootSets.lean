import Sawos.Kernel.Mapped
import Sawos.Lib.Handout

/-! # Boot sets

The set of a process is a tray of records: a launcher puts handles in while the process is only created, the start
closes it and may take one by its tag, and the process drains the others in the order in which they were given. -/

namespace Sawos
open Exec Handout

instance : Record BootHandleSlot Nat where
  tag := BootHandleSlot.tag
  taken := BootHandleSlot.taken
  take rec := { rec with taken := true }
  tag_take _ := rfl
  taken_take _ := rfl
  take_take _ := rfl

def BootDoor.door : BootDoor → Door
  | .start => .tag
  | .next => .turn

/-- The boot set of a process, closed once it is no longer only created. -/
def ProcessSlot.tray (a : ProcessSlot) : Tray BootHandleSlot :=
  ⟨a.bootHandles, a.bootNext, a.bootLog.map fun e => (e.1, e.2.door), decide (a.state ≠ .created)⟩

/-- A boot set gets to be another in one step, with words that name something and in the room that there is. -/
structure BootStep (a b : ProcessSlot) : Prop where
  step : a.tray.Step b.tray
  words : (∀ r ∈ a.bootHandles, r.handle ≠ noHandle) → ∀ r ∈ b.bootHandles, r.handle ≠ noHandle
  room : a.bootHandles.length ≤ maxHandles → b.bootHandles.length ≤ maxHandles

section
variable {a b : ProcessSlot}

theorem ProcessSlot.tray_closed (h : a.state ≠ .created) : a.tray.closed = true := decide_eq_true h

theorem created_of_open (h : a.tray.closed = false) : a.state = .created := by
  simpa [ProcessSlot.tray] using h

theorem open_of_created (h : a.state = .created) : a.tray.closed = false := by
  simp [ProcessSlot.tray, h]

/-- A launcher gives a handle. -/
theorem BootStep.give {tag : Nat} {kind : BootHandleKind} {handle : Nat} (created : a.state = .created)
    (fresh : ∀ r ∈ a.bootHandles, r.tag ≠ tag) (word : handle ≠ noHandle) (room : a.bootHandles.length < maxHandles) :
    BootStep a { a with bootHandles := a.bootHandles ++ [⟨tag, kind, handle, false⟩] } where
  step := .put a.tray ⟨tag, kind, handle, false⟩ (open_of_created created) rfl fresh
  words words r member := by
    rcases List.mem_append.mp member with old | new
    · exact words r old
    · rw [List.mem_singleton.mp new]
      exact word
  room _ := by
    rw [List.length_append]
    exact room

/-- The process starts, with no word of its set. -/
theorem BootStep.start (created : a.state = .created) : BootStep a { a with state := .running } where
  step := .close a.tray (open_of_created created)
  words := id
  room := id

/-- A boot set whose record `i` was taken. -/
def ProcessSlot.takeBoot (a : ProcessSlot) (i : Nat) : ProcessSlot :=
  { a with bootHandles := a.bootHandles.modify i ({ · with taken := true }), bootLog := (i, .start) :: a.bootLog }

/-- The process starts with the word of a record. -/
theorem BootStep.startWith {i : Nat} {r : BootHandleSlot} (created : a.state = .created)
    (found : a.bootHandles[i]? = some r)
    (untaken : r.taken = false) : BootStep a { a.takeBoot i with state := .running } where
  step := .take a.tray i r (open_of_created created) found untaken
  words words r' member := by
    obtain ⟨j, found'⟩ := List.getElem?_of_mem member
    simp only [ProcessSlot.takeBoot, List.getElem?_modify] at found'
    obtain ⟨old, there, rfl⟩ := Option.map_eq_some_iff.mp found'
    have word := words old (List.mem_of_getElem? there)
    split <;> exact word
  room room := by
    simp only [ProcessSlot.takeBoot, List.length_modify]
    exact room

/-- The cursor of a drain passes the record that was taken. -/
theorem BootStep.pass : BootStep a { a with bootNext := a.tray.cursor } where
  step := .pass a.tray
  words := id
  room := id

/-- The process drains a record. -/
theorem BootStep.next {r : BootHandleSlot} (found : a.bootHandles[a.bootNext]? = some r) (untaken : r.taken = false) :
    BootStep a { a with bootNext := a.bootNext + 1, bootLog := (a.bootNext, .next) :: a.bootLog } where
  step := .turn a.tray r found untaken
  words := id
  room := id

end

section
variable [Hal]

/-- What is done to its boot set keeps `D` of each process. -/
structure Fosters (G : Ev → Prop) (D : Nat → ProcessSlot → Prop) : Prop where
  words : ∀ p a, D p a → ∀ r ∈ a.bootHandles, r.handle ≠ noHandle
  same : ∀ p a b, a.tray = b.tray → (a.Lives ↔ b.Lives) → D p a → D p b
  serve : ∀ p a b, a.Lives → b.Lives → BootStep a b → D p a → D p b
  born : ∀ p a b, ¬a.Lives → b.Lives → b.tray = .empty false → D p a → D p b
  ends : ∀ s p b, G (.mark (.ends p) s) → ¬b.Lives → b.tray = .empty true → D p (s.processes.slot p) → D p b

/-- `D` of every process but the one, `E`, that is being dismantled; those that do not live have no boot set. -/
structure Boots (D : Nat → ProcessSlot → Prop) (E : Option Nat) (s : K) : Prop where
  holds : ∀ p, some p ≠ E → D p (s.processes.slot p)
  bare : ∀ p, some p ≠ E → ¬(s.processes.slot p).Lives → (s.processes.slot p).tray = .empty true
  beyond : ∀ p, s.processes.cap ≤ p → ¬(s.processes.slot p).Lives
  ended : ∀ p, some p = E → ¬(s.processes.slot p).Lives ∧ ∀ b : ProcessSlot, ¬b.Lives → b.tray = .empty true → D p b

/-- What it is read off. -/
def bootSetParts : List Part := [.process .boot, .process .state, .machine .slabs]

section
variable {G : Ev → Prop} {n : Nat} {A : K → Prop} {D : Nat → ProcessSlot → Prop} {E : Option Nat} {s t : K} {p : Nat}

theorem agree_tray (same : Agree bootSetParts s t) : s.processes.cap = t.processes.cap ∧
    ∀ p, (s.processes.slot p).tray = (t.processes.slot p).tray ∧
      ((s.processes.slot p).Lives ↔ (t.processes.slot p).Lives) := by
  have shape : s.shape = t.shape := same (.machine .slabs) (by decide)
  simp only [K.shape, List.cons.injEq, Prod.mk.injEq] at shape
  refine ⟨shape.1.1, fun p => ?_⟩
  obtain ⟨items, next, log⟩ := same (.process .boot) (by decide) p
  have state : (s.processes.slot p).state = (t.processes.slot p).state := same (.process .state) (by decide) p
  exact ⟨by simp only [ProcessSlot.tray, items, next, log, state], by simp only [ProcessSlot.Lives, state]⟩

theorem Boots.alike (f : Fosters G D) (hs : Boots D E s) (cap : s.processes.cap = t.processes.cap)
    (same : ∀ p, (s.processes.slot p).tray = (t.processes.slot p).tray ∧
      ((s.processes.slot p).Lives ↔ (t.processes.slot p).Lives)) :
    Boots D E t where
  holds p hE := f.same p _ _ (same p).1 (same p).2 (hs.holds p hE)
  bare p hE dead := (same p).1 ▸ hs.bare p hE fun live => dead ((same p).2.mp live)
  beyond p hp live := hs.beyond p (cap ▸ hp) ((same p).2.mpr live)
  ended p hE := (hs.ended p hE).imp_left fun dead live => dead ((same p).2.mpr live)

theorem Boots.agree (f : Fosters G D) (same : Agree bootSetParts s t) (hs : Boots D E s) : Boots D E t :=
  hs.alike f (agree_tray same).1 (agree_tray same).2

theorem Boots.spares (f : Fosters G D) {α : Type} {m : M α} (hm : Spares bootSetParts m) : Keeps G n A (Boots D E) m :=
  hm.keeps fun _ _ => Boots.agree f

/-- The slot of a process changes. -/
theorem Boots.setProcess {E' : Option Nat} (hs : Boots D E s) {v : ProcessSlot} (hp : p < s.processes.cap)
    (other : ∀ q, q ≠ p → (some q = E ↔ some q = E')) (holds : some p ≠ E' → D p v)
    (bare : some p ≠ E' → ¬v.Lives → v.tray = .empty true)
    (ended : some p = E' → ¬v.Lives ∧ ∀ b : ProcessSlot, ¬b.Lives → b.tray = .empty true → D p b) :
    Boots D E' { s with processes := s.processes.set p v } := by
  refine ⟨fun q hE => ?_, fun q hE dead => ?_, fun q hq => ?_, fun q hE => ?_⟩ <;> by_cases own : q = p
  · subst own
    simpa using holds hE
  · simpa [own] using hs.holds q fun h => hE ((other q own).mp h)
  · subst own
    simp only [Slab.set_slot, if_true] at dead ⊢
    exact bare hE dead
  · simp only [Slab.set_slot, own, if_false] at dead ⊢
    exact hs.bare q (fun h => hE ((other q own).mp h)) dead
  · subst own
    exact absurd hp (Nat.not_lt.mpr hq)
  · simpa [own] using hs.beyond q hq
  · subst own
    simpa using ended hE
  · simpa [own] using hs.ended q ((other q own).mpr hE)

/-- A process that lives is served. -/
theorem Boots.served (f : Fosters G D) (hs : Boots D none s) (hp : p < s.processes.cap) {v : ProcessSlot}
    (live : (s.processes.slot p).Lives) (lives : v.Lives) (served : BootStep (s.processes.slot p) v) :
    Boots D none { s with processes := s.processes.set p v } :=
  hs.setProcess hp (fun _ _ => Iff.rfl) (fun hE => f.serve p _ v live lives served (hs.holds p hE))
    (fun _ dead => absurd lives dead) fun h => by cases h

theorem Boots.reclaim (f : Fosters G D) : Keeps G n A (Boots D E) (reclaimProcessSlot p) := by
  refine fun s hs => wp_modifyProcess.mpr fun _ => hs.alike f rfl fun q => ?_
  by_cases own : q = p
  · simp only [Slab.set_slot, own, if_true]
    split
    · rename_i gone
      refine ⟨by simp [ProcessSlot.tray, gone.1], iff_of_false (fun live => live.2 gone.1) fun live => live.1 rfl⟩
    · exact ⟨rfl, Iff.rfl⟩
  · simp [own]

/-- What is about boot sets is about the ground, if the reclaiming of a slot keeps it. -/
theorem serviced_of_sets {I : K → Prop} (about : ∀ s t, Agree bootSetParts s t → I s → I t)
    (reclaim : ∀ p, Keeps G n A I (reclaimProcessSlot p)) : Serviced G n A I := by
  have spares : ∀ {α : Type} {m : M α}, Spares bootSetParts m → Keeps G n A I m := fun hm => hm.keeps about
  have ground : Ground G n A I := {
    quiet := fun _ _ => trivial
    about := fun s t same => about s t (same.mono (by decide))
    release := fun _ => spares (by simp +decide)
    unmapped := fun _ => spares (spares_mappings (by simp +decide))
    reclaim := reclaim
    consume := fun _ _ => spares (by simp +decide)
    freeInterrupt := fun _ _ => spares (spares_freeInterrupt (by decide))
    freeTimer := fun _ _ => spares (spares_freeTimer (by decide))
    ready := fun _ => spares (by simp +decide)
    take := fun _ => spares (by simp +decide)
    tie := fun _ _ _ => spares (by simp +decide)
    links := .plain (fun _ _ => trivial) about (by decide) }
  exact ground.serviced (S := bootSetParts) (by decide) about

theorem Boots.serviced (f : Fosters G D) : Serviced G n A (Boots D E) :=
  serviced_of_sets (fun _ _ => Boots.agree f) fun _ => Boots.reclaim f

/-! ### The end of a process -/

theorem Boots.enter (f : Fosters G D) {k : ProcessStatusKind} {c : Nat} :
    Leads G n A (fun s => Boots D none s ∧ G (.mark (.ends p) s)) (Boots D (some p))
      (processes.modify p ({ · with state := .gone, exitKind := k, exitCode := c })) := by
  rintro s ⟨hs, mark⟩
  refine wp_modifyProcess.mpr fun hp => hs.setProcess hp (fun q hq => by simp [hq]) (fun h => absurd rfl h)
    (fun h => absurd rfl h) ?_
  exact fun _ => ⟨fun live => live.2 rfl, fun b dead bare => f.ends s p b mark dead bare (hs.holds p (by simp))⟩

theorem Boots.clear : Leads G n A (Boots D (some p)) (Boots D none) (clearBootHandles p) := by
  refine fun s hs => wp_modifyProcess.mpr fun hp => ?_
  obtain ⟨dead, ended⟩ := hs.ended p rfl
  have dead' : ¬{ s.processes.slot p with bootHandles := [], bootNext := 0, bootLog := [] }.Lives := dead
  have bare : { s.processes.slot p with bootHandles := [], bootNext := 0, bootLog := [] }.tray = .empty true := by
    have closed : (s.processes.slot p).state ≠ .created := fun created => dead (by simp [ProcessSlot.Lives, created])
    simp [ProcessSlot.tray, Tray.empty, closed]
  exact hs.setProcess hp (fun q hq => by simp [hq]) (fun _ => ended _ dead' bare) (fun _ _ => bare) fun h => by cases h

theorem Boots.teardown (f : Fosters G D) {k : ProcessStatusKind} {c : Nat} :
    Keeps G n A (Boots D none) (Sawos.teardown p k c) := by
  have h : Ground G n A (Boots D (some p)) := (Boots.serviced f).toGround
  have spares : ∀ {E' : Option Nat} {α : Type} {m : M α}, Spares bootSetParts m → Keeps G n A (Boots D E') m :=
    fun hm => Boots.spares f hm
  unfold Sawos.teardown
  refine Leads.bind (J := fun s => Boots D none s ∧ G (.mark (.ends p) s))
    (fun s hs => wp_emits.mpr ⟨trivial, fun mark => ⟨hs, mark⟩⟩) fun _ => ?_
  refine Leads.bind (J := fun s => Boots D none s ∧ G (.mark (.ends p) s))
    (keeps_emits fun _ => trivial).leads fun _ => ?_
  refine (Boots.enter f).bind fun _ => ?_
  refine h.notify.leads.bind fun _ => ?_
  refine h.releasePendingCalls.leads.bind fun _ => ?_
  refine h.closeHandles.leads.bind fun _ => ?_
  refine (spares (by simp +decide)).leads.bind fun _ => ?_
  refine (spares (spares_sweep (fun _ => spares_pure) fun _ => spares_threads (by simp +decide))).leads.bind fun _ => ?_
  refine (spares (spares_idle (by decide))).leads.bind fun _ => ?_
  refine (spares (spares_sweep (fun _ => by simp +decide) fun _ => spares_interrupts (by simp +decide))).leads.bind
    fun _ => ?_
  refine h.sweepAttachments.leads.bind fun _ => ?_
  refine (spares (spares_sweep (fun _ => spares_pure) fun _ => spares_events (by simp +decide))).leads.bind fun _ => ?_
  refine (spares (spares_sweep (fun _ => spares_pure) fun _ => spares_waiters (by simp +decide))).leads.bind fun _ => ?_
  refine (spares (spares_sweep (fun _ => spares_pure) fun _ => spares_timers (by simp +decide))).leads.bind fun _ => ?_
  refine (spares (by simp +decide)).leads.bind fun _ => ?_
  refine h.reapUnreferenced.leads.bind fun _ => ?_
  refine (spares (by simp +decide)).leads.bind fun _ => ?_
  refine (spares (by simp +decide)).leads.bind fun _ => ?_
  refine Boots.clear.bind fun _ => ?_
  refine (spares (by simp +decide)).leads.bind fun _ => ?_
  exact (Boots.reclaim f).leads

theorem Boots.upkeep (f : Fosters G D) : Steady G n (Boots D none) :=
  .steady .any (fun _ _ same hs => hs.agree f (same.mono (by decide))) (Boots.serviced f)
    (fun _ => Boots.spares f (by simp +decide)) fun _ _ _ _ => Boots.teardown f

/-! ### Giving -/

/-- The set of `p` is `T`. -/
def Holding (p : Nat) (T : Tray BootHandleSlot) (s : K) : Prop := (s.processes.slot p).tray = T

/-- A cascade leaves the set of a process that is only created alone. -/
theorem Holding.serviced {T : Tray BootHandleSlot} (isOpen : T.closed = false) : Serviced G n A (Holding p T) := by
  refine serviced_of_sets (fun s t same hs => ((agree_tray same).2 p).1.symm.trans hs) fun q s hs =>
    wp_modifyProcess.mpr fun _ => ?_
  have created : (s.processes.slot p).state = .created := created_of_open (by rw [hs, isOpen])
  by_cases own : p = q
  · subst own
    simp only [Holding, Slab.set_slot, if_true]
    rw [if_neg (by simp [created])]
    exact hs
  · simpa [Holding, own] using hs

/-- What a give that is not faulted knows of the child. -/
theorem Boots.wp_giveFaults (f : Fosters G D) (hs : Boots D none s) {c tag : Nat} {entry : HandleEntry}
    {Q : BootHandleKind → K → Prop}
    (hQ : ∀ kind, (s.processes.slot c).state = .created →
      (∀ r ∈ (s.processes.slot c).bootHandles, r.tag ≠ tag) → Q kind s) :
    wp G n (giveFaults p c entry tag) Q (.leaving ⟨Boots D none, fun _ => True⟩) s := by
  have w : Steady G n (Boots D none) := Boots.upkeep f
  refine wp_bind.mpr (w.wp_check mortal_any hs fun _ => wp_bind.mpr (w.wp_check mortal_any hs fun _ => ?_))
  split
  · exact (w.faultProcess_ends mortal_any).never hs
  refine wp_bind.mpr (wp_readProcess.mpr fun _ => wp_bind.mpr (w.wp_check mortal_any hs fun created => ?_))
  refine wp_bind.mpr
    (wp_bind.mpr (wp_readProcess.mpr fun _ => wp_pure.mpr (wp_bind.mpr (w.wp_check mortal_any hs fun fresh => ?_))))
  exact wp_pure.mpr (hQ _ (by simpa using created) (by simpa using fresh))

theorem Boots.give (f : Fosters G D) {c h tag keep : Nat} :
    Keeps G n (Boots D none) (Boots D none) (processGive p c h tag keep) := by
  have w : Steady G n (Boots D none) := Boots.upkeep f
  refine fun s hs => wp_bind.mpr (wp_bind.mpr (wp_readProcess.mpr fun _ => wp_pure.mpr (wp_bind.mpr ?_)))
  refine hs.wp_giveFaults f fun kind created fresh =>
    wp_bind.mpr (wp_bind.mpr (wp_readProcess.mpr fun _ => wp_pure.mpr ?_))
  refine wp_ite.mpr ⟨fun room => wp_bind.mpr ?_, fun _ => wp_pure.mpr hs⟩
  have still : Serviced G n (fun _ => True : K → Prop) (Holding c (s.processes.slot c).tray) :=
    Holding.serviced (open_of_created created)
  have moves : Keeps G n (Boots D none) (Boots D none)
    (moveEntry p c h ((s.processes.slot p).lookup h) (truncate32 keep)) := w.moveEntry
  have stays : Keeps G n (fun _ => True : K → Prop) _
    (moveEntry p c h ((s.processes.slot p).lookup h) (truncate32 keep)) := still.moveEntry
  refine ((moves.and stays) s ⟨hs, rfl⟩).mono (fun _ => id) (fun given t ht => ?_) (fun _ => And.left)
    (fun _ _ => trivial) fun _ _ => trivial
  obtain ⟨ht, same⟩ := ht
  refine wp_ite.mpr ⟨fun _ => Boots.spares f (.bind (by simp) fun _ => spares_pure) t ht, fun named => wp_bind.mpr ?_⟩
  have items : (t.processes.slot c).bootHandles = (s.processes.slot c).bootHandles := congrArg Tray.items same
  have created' : (t.processes.slot c).state = .created := created_of_open (by rw [same]; exact open_of_created created)
  have served : BootStep (t.processes.slot c)
      { t.processes.slot c with bootHandles := (t.processes.slot c).bootHandles ++ [⟨tag, kind, given, false⟩] } :=
    .give created' (items ▸ fresh) named (items ▸ of_decide_eq_true room)
  refine wp_bind.mpr (wp_readProcess.mpr fun _ => wp_ite.mpr ⟨fun _ => ?_, fun _ => wp_halt.mpr trivial⟩)
  have live : (t.processes.slot c).Lives := lives_of_mapTarget (.inl created')
  exact wp_modifyProcess.mpr fun hc => wp_pure.mpr (ht.served f hc live live served)

/-! ### Draining -/

/-- Where a drain goes on: at a record that was not taken. -/
theorem Boots.wp_cursor (f : Fosters G D) (hs : Boots D none s) (live : (s.processes.slot p).Lives) {Q : Nat → K → Prop}
    (hQ : ∀ t, Boots D none t → (t.processes.slot p).Lives →
      (∀ r, (t.processes.slot p).bootHandles[(t.processes.slot p).bootNext]? = some r → r.taken = false) →
      Q (t.processes.slot p).bootNext t) : wp G n (bootHandleCursor p) Q (.leaving A) s := by
  refine wp_bind.mpr (wp_readProcess.mpr fun _ => wp_bind.mpr (wp_modifyProcess.mpr fun hp => wp_pure.mpr ?_))
  have passed := hs.served f hp (v := { s.processes.slot p with bootNext := (s.processes.slot p).tray.cursor })
    live live .pass
  have here :
      ({ s with processes :=
        s.processes.set p { s.processes.slot p with bootNext := (s.processes.slot p).tray.cursor } } :
          K).processes.slot p =
      { s.processes.slot p with bootNext := (s.processes.slot p).tray.cursor } := if_pos rfl
  have next := hQ _ passed
  rw [here] at next
  exact next live fun r found => Tray.untaken_at_cursor (t := (s.processes.slot p).tray) found

theorem Boots.nextHandle (f : Fosters G D) {dst cap : Nat} :
    Leads G n (Boots D none) (fun s => Boots D none s ∧ (s.processes.slot p).Lives) (Boots D none)
      (bootHandleNext p dst cap) := by
  have w : Steady G n (Boots D none) := Boots.upkeep f
  rintro s ⟨hs, live⟩
  refine wp_bind.mpr (w.wp_check mortal_any hs fun _ => wp_bind.mpr (hs.wp_cursor f live fun t ht live untaken => ?_))
  refine wp_bind.mpr (wp_readProcess.mpr fun _ => ?_)
  split
  · exact wp_pure.mpr ht
  rename_i rec found
  refine wp_bind.mpr (wp_spares (S := bootSetParts) (spares_copyOut (by decide)) fun _ u same => ?_)
  have hu := ht.agree f same
  refine wp_bind.mpr (w.wp_refuse mortal_any hu fun _ => wp_bind.mpr (wp_modifyProcess.mpr fun hp => wp_pure.mpr ?_))
  obtain ⟨tray, lives⟩ := (agree_tray same).2 p
  have next : (t.processes.slot p).bootNext = (u.processes.slot p).bootNext := congrArg Tray.next tray
  have items : (t.processes.slot p).bootHandles = (u.processes.slot p).bootHandles := congrArg Tray.items tray
  rw [next]
  exact hu.served f hp (lives.mp live) (lives.mp live)
    (.next (r := rec) (by rw [← items, ← next]; exact found) (untaken rec found))

/-! ### Starting -/

/-- What the word is that a child starts with. -/
theorem wp_bootWord {c tag : Nat} {form : BootTagForm} {Q : Option Nat → K → Prop} (bare : Q (some noHandle) s)
    (none : Q none s)
    (found : ∀ (i : Nat) (r : BootHandleSlot), c < s.processes.cap → (s.processes.slot c).bootHandles[i]? = some r →
      r.taken = false → Q (if r.handle = noHandle then Option.none else some r.handle)
        { s with processes := s.processes.set c ((s.processes.slot c).takeBoot i) }) :
    wp G n (bootWord c form tag) Q (.leaving A) s := by
  unfold bootWord
  split
  · exact wp_pure.mpr bare
  refine wp_bind.mpr (wp_bind.mpr (wp_readProcess.mpr fun _ => ?_))
  split
  · exact wp_pure.mpr (wp_pure.mpr (by simpa using none))
  rename_i i at'
  obtain ⟨inside, here, -⟩ := List.findIdx?_eq_some_iff_getElem.mp at'
  have there := List.getElem?_eq_getElem inside
  simp only [Bool.and_eq_true, Bool.not_eq_true'] at here
  refine wp_bind.mpr (wp_modifyProcess.mpr fun hc => wp_pure.mpr (wp_pure.mpr ?_))
  rw [there]
  exact found i _ hc there here.2

/-- What holds of `s` once process `p` runs. -/
def Running (D : Nat → ProcessSlot → Prop) (p : Nat) (s : K) : Prop :=
  Boots D none { s with processes := s.processes.set p { s.processes.slot p with state := .running } }

theorem Running.agree (f : Fosters G D) (same : Agree bootSetParts s t) (hs : Running D p s) : Running D p t := by
  obtain ⟨cap, each⟩ := agree_tray same
  refine Boots.alike f hs cap fun q => ?_
  by_cases own : q = p
  · obtain ⟨tray, -⟩ := each p
    have same' : { (s.processes.slot p).tray with closed := true } =
      { (t.processes.slot p).tray with closed := true } := by rw [tray]
    subst own
    simp only [Slab.set_slot, if_true]
    exact ⟨same', by simp [ProcessSlot.Lives]⟩
  · simpa [own] using each q

theorem Boots.start (f : Fosters G D) {c form tag : Nat} :
    Keeps G n (Boots D none) (Boots D none) (processStart p c form tag) := by
  have w : Steady G n (Boots D none) := Boots.upkeep f
  unfold Sawos.processStart
  split
  · exact w.faultProcess mortal_any
  rename_i form _
  refine fun s hs => wp_bind.mpr (wp_readProcess.mpr fun hc => wp_bind.mpr (w.wp_check mortal_any hs fun created => ?_))
  have state : (s.processes.slot c).state = .created := by simpa using created
  refine wp_bind.mpr (wp_spares (S := bootSetParts) spares_quotaRoom fun _ s₁ h₁ => ?_)
  refine wp_ite.mpr ⟨fun _ => wp_bind.mpr ?_, fun _ => wp_pure.mpr (hs.agree f h₁)⟩
  refine wp_spares (S := bootSetParts) spares_allocThread fun found s₂ h₂ => ?_
  have same := h₁.trans h₂
  have hs₂ := hs.agree f same
  cases found with
  | none => exact wp_pure.mpr hs₂
  | some t =>
    have state₂ : (s₂.processes.slot c).state = .created := (same (.process .state) (by decide) c).symm.trans state
    have live : (s₂.processes.slot c).Lives := lives_of_mapTarget (.inl state₂)
    have runs : ∀ a : ProcessSlot, { a with state := .running }.Lives := fun _ => by simp [ProcessSlot.Lives]
    -- The rest keeps what holds once the child runs, up to the line that says that it does.
    have rest : ∀ word, Leads G n (Boots D none) (Running D c) (Boots D none) (do
        frameInit t (s.processes.slot c).entry (s.processes.slot c).stackTop word
        threads.write t { ThreadSlot.vacant with state := .runnable, process := c }
        quotaCharge c .thread
        readyPush t
        processes.modify c ({ · with state := .running })
        return opOk) := by
      intro word
      have spares : ∀ {α : Type} {m : M α}, Spares bootSetParts m → Keeps G n (Boots D none)
        (Running D c) m := fun hm =>
        hm.keeps fun _ _ => Running.agree f
      refine (spares (by simp +decide)).leads.bind fun _ => (spares (spares_threads ?_)).leads.bind fun _ => ?_
      · simp +decide
      refine (spares (by simp +decide)).leads.bind fun _ => (spares (by simp +decide)).leads.bind fun _ u hu => ?_
      exact wp_bind.mpr (wp_modifyProcess.mpr fun _ => wp_pure.mpr hu)
    refine wp_bind.mpr (wp_bootWord ?_ ?_ fun i r hc there untaken => ?_)
    · refine rest _ s₂ ?_
      exact hs₂.served f (by have := (agree_tray same).1; omega) live (runs _) (.start state₂)
    · exact w.faultProcess mortal_any s₂ hs₂
    · have named : r.handle ≠ noHandle := f.words c _ (hs₂.holds c (by simp)) r (List.mem_of_getElem? there)
      rw [if_neg named]
      refine rest _ _ ?_
      have served := hs₂.served f hc live (runs _) (.startWith state₂ there untaken)
      simpa [Running, Slab.set_set] using served

theorem Boots.threadCreate (f : Fosters G D) {q e sp a : Nat} :
    Keeps G n (Boots D none) (Boots D none) (threadCreate q e sp a) := by
  have w : Steady G n (Boots D none) := Boots.upkeep f
  refine .bind (w.spares (by simp)) fun _ => .bind (.whenever (w.faultProcess mortal_any)) fun _ =>
    w.create (by simp) fun i => ?_
  refine .bind (w.spares (by simp +decide)) fun _ => .bind (Boots.spares f (spares_threads ?_)) fun _ => ?_
  · simp +decide
  · exact w.spares (by simp +decide)

/-! ### New processes -/

/-- The slot `p` is nobody's. -/
def Nobody (D : Nat → ProcessSlot → Prop) (p : Nat) (s : K) : Prop := Boots D none s ∧ ¬(s.processes.slot p).Lives

theorem Nobody.agree (f : Fosters G D) (same : Agree bootSetParts s t) (hs : Nobody D p s) : Nobody D p t :=
  ⟨hs.1.agree f same, fun live => hs.2 (((agree_tray same).2 p).2.mpr live)⟩

theorem Nobody.serviced (f : Fosters G D) : Serviced G n A (Nobody D p) := by
  refine serviced_of_sets (fun _ _ => Nobody.agree f) fun q s hs => ?_
  have kept : Keeps G n A (Boots D none) (reclaimProcessSlot q) := Boots.reclaim f
  refine wp_modifyProcess.mpr fun hq => ⟨wp_modifyProcess.mp (kept s hs.1) hq, ?_⟩
  by_cases own : p = q
  · subst own
    simp only [Slab.set_slot, if_true]
    split
    · exact fun live => live.1 rfl
    · exact hs.2
  · simpa [own] using hs.2

theorem Boots.fillProcess (f : Fosters G D) {img dst : Nat} {dest : LoadRegion} :
    Leads G n A (fun s => Boots D none s ∧ (s.processes.slot p).state = .free) (Boots D none)
      (fillProcess p img dest dst) := by
  rintro s ⟨hs, free⟩
  have placed : Keeps G n A (Nobody D p) (placeImage p img dest (some dst)) :=
    (Nobody.serviced f).placeImage fun _ _ _ _ _ _ => Spares.keeps (S := bootSetParts) (by simp +decide) fun _ _ =>
      Nobody.agree f
  refine wp_bind.mpr ((placed s ⟨hs, fun live => live.1 free⟩).imp fun _ t ht =>
    wp_bind.mpr (wp_reads.mpr (wp_bind.mpr ?_)))
  refine wp_modifyProcess.mpr fun hp => Boots.spares f ?_ _
    (ht.1.setProcess hp (fun _ _ => Iff.rfl) (fun hE => ?_) (fun _ dead => ?_) fun h => ?_)
  · exact .bind (spares_statsClear (by decide)) fun _ => .bind (by simp) fun _ => by simp +decide
  · have bare := ht.1.bare p hE ht.2
    refine f.born p (t.processes.slot p) _ ht.2 (by simp [ProcessSlot.Lives]) ?_ (ht.1.holds p hE)
    exact congrArg (fun u : Tray BootHandleSlot => ({ u with closed := false } : Tray BootHandleSlot)) bare
  · exact absurd (by simp [ProcessSlot.Lives]) dead
  · cases h

theorem Boots.donated (f : Fosters G D) (d : Donated s t) (hs : Boots D none s) : Boots D none t := by
  have none : ¬ProcessSlot.vacant.Lives := fun live => live.1 rfl
  have each : ∀ q, t.processes.slot q = s.processes.slot q ∨ s.processes.cap ≤ q ∧ t.processes.slot q = .vacant := by
    intro q
    rw [d.processes.slot]
    split
    · rename_i new
      exact Or.inr ⟨new.1, rfl⟩
    · exact Or.inl rfl
  have same : ∀ q, (s.processes.slot q).tray = (t.processes.slot q).tray ∧
    ((s.processes.slot q).Lives ↔ (t.processes.slot q).Lives) := by
    intro q
    rcases each q with old | ⟨new, vacant⟩
    · exact old ▸ ⟨rfl, Iff.rfl⟩
    · rw [vacant]
      exact ⟨hs.bare q (by simp) (hs.beyond q new), iff_of_false (hs.beyond q new) none⟩
  refine ⟨fun q hE => f.same q _ _ (same q).1 (same q).2 (hs.holds q hE), fun q hE dead => ?_, fun q hq => ?_,
    fun q h => by cases h⟩
  · exact (same q).1 ▸ hs.bare q hE fun live => dead ((same q).2.mp live)
  · have := d.processes.cap
    exact fun live => hs.beyond q (by omega) ((same q).2.mpr live)

/-! ### Every step -/

theorem Boots.grounded (f : Fosters G D) : SteadyGrounded G n fun s => Owned none s ∧ Boots D none s := by
  have w : Steady G n (Boots D none) := Boots.upkeep f
  have about : ∀ s t, Agree bootSetParts s t → Boots D none s → Boots D none t := fun _ _ => Boots.agree f
  have own : SteadyGrounded G n (Owned none) := Owned.grounded
  have devices : Devices G (fun _ => True) n (fun s => Owned none s ∧ Boots D none s) fun s => Owned none s ∧
    Boots D none s := {
    give := fun p c h t k hp => (own.devices.give p c h t k hp).and (Boots.give f)
    nextHandle := fun p d c hp s hs => ((own.devices.nextHandle p d c hp).and (Boots.nextHandle f)) s
      ⟨⟨hs.1.1, hs.2⟩, hs.1.2, hs.1.1.callerLives hs.2⟩
    bind := fun q l => ((own.devices.bind q l).and (w.interruptBind about (by decide))).imp
      (fun _ hs => ⟨⟨hs.1.1, hs.2⟩, hs.1.2, hs.2⟩) fun _ => id
    ack := fun p o r i hp => (own.devices.ack p o r i hp).and (w.interruptOp about (by decide) hp)
    read := fun p d c hp => (own.devices.read p d c hp).and (w.clockNow about (by decide) hp)
    timerCreate := fun p c => (own.devices.timerCreate p c).and (w.timerCreate about (by decide))
    arm := fun p i s b hp => (own.devices.arm p i s b hp).and (w.timerArm about (by decide) hp)
    disarm := fun i => (own.devices.disarm i).and (w.timerDisarm about (by decide)) }
  have life : ∀ s t, Agree (lifeParts ++ watchParts ++ queueParts) s t → Boots D none s →
    Boots D none t := fun _ _ same =>
    Boots.agree f (same.mono (by decide))
  exact {
    toUpkeep := Steady.and own.toUpkeep w
    split := fun p r len hp => (own.split p r len hp).and (w.split life hp)
    map := fun p r i t a hp => (own.map p r i t a hp).and (w.map life (by decide) hp)
    mapDevice := fun p i t hp => (own.mapDevice p i t hp).and (w.mapDevice life (by decide) hp)
    mapStats := fun p d c hp s hs => ((own.mapStats p d c hp).and fun s hs => w.mapStats life (by decide) hp s hs) s
      ⟨⟨hs.1.1, hs.2⟩, hs.1.2⟩
    unmap := fun p i hp => (own.unmap p i hp).and (w.unmap life hp)
    donate := fun p k h hp => (own.donate p k h hp).and (w.donate (fun _ _ d hs => hs.donated f d)
      (fun _ => Boots.spares f (by simp +decide)) hp)
    processCreate := fun p i m hp => (own.processCreate p i m hp).and
      (w.processCreate (fun _ _ _ _ => Boots.fillProcess f) hp)
    start := fun p c form t hp => (own.start p c form t hp).and (Boots.start f)
    threadCreate := fun q e sp a s hs => (Owned.threadCreate.and (Boots.threadCreate f)) s hs.1
    devices := devices }

/-! ### What was given and what went out -/

/-- A boot set whose records went out as it says, with words that name something, in the room that there is. -/
structure InOrder (a : ProcessSlot) : Prop where
  fair : a.tray.Fair
  words : ∀ r ∈ a.bootHandles, r.handle ≠ noHandle
  room : a.bootHandles.length ≤ maxHandles

omit [Hal] in
theorem InOrder.of_tray {a b : ProcessSlot} (same : a.tray = b.tray) (h : InOrder a) : InOrder b := by
  have items : a.bootHandles = b.bootHandles := congrArg Tray.items same
  exact ⟨same ▸ h.fair, items ▸ h.words, items ▸ h.room⟩

omit [Hal] in
theorem InOrder.of_empty {b : ProcessSlot} {c : Bool} (bare : b.tray = .empty c) : InOrder b := by
  have items : b.bootHandles = [] := congrArg Tray.items bare
  refine ⟨bare ▸ .empty, fun r member => ?_, ?_⟩
  · rw [items] at member
    cases member
  · rw [items]
    exact Nat.zero_le _

omit [Hal] in
theorem InOrder.serve {a b : ProcessSlot} (h : InOrder a) (served : BootStep a b) : InOrder b :=
  ⟨served.step.fair h.fair, served.words h.words, served.room h.room⟩

theorem inOrder_fosters : Fosters G fun _ a => InOrder a where
  words _ _ h := h.words
  same _ _ _ same _ h := h.of_tray same
  serve _ _ _ _ _ served h := h.serve served
  born _ _ _ _ _ bare _ := .of_empty bare
  ends _ _ _ _ _ bare _ := .of_empty bare

/-- The set of `p`, while it is not ended, is what became of `T`. -/
theorem follows_fosters {T : Tray BootHandleSlot} :
    Fosters (Outlives p) fun q a => InOrder a ∧ (q = p → a.Lives ∧ T.Follows a.tray) where
  words _ _ h := h.1.words
  same _ _ _ same lives h := ⟨h.1.of_tray same, fun own => ⟨lives.mp (h.2 own).1, same ▸ (h.2 own).2⟩⟩
  serve _ _ _ _ lives served h := ⟨h.1.serve served, fun own => ⟨lives, (h.2 own).2.trans served.step.follows⟩⟩
  born _ _ _ dead _ bare h := ⟨.of_empty bare, fun own => absurd (h.2 own).1 dead⟩
  ends _ _ _ good _ bare _ := ⟨.of_empty bare, fun own => absurd own good⟩

/-! ### The boot, and whole runs -/

/-- The root has been given the first `i` regions, under their numbers. -/
def Collecting (i : Nat) (s : K) : Prop :=
  Boots (fun _ a => InOrder a) none s ∧ (s.processes.slot rootProcess).Lives ∧
    (s.processes.slot rootProcess).bootHandles.map (·.tag) = List.range i

theorem Collecting.agree {i : Nat} (same : Agree bootSetParts s t) (hs : Collecting i s) : Collecting i t := by
  obtain ⟨tray, lives⟩ := (agree_tray same).2 rootProcess
  have items : (s.processes.slot rootProcess).bootHandles = (t.processes.slot rootProcess).bootHandles :=
    congrArg Tray.items tray
  exact ⟨hs.1.agree (G := fun _ => True) inOrder_fosters same, lives.mp hs.2.1, items ▸ hs.2.2⟩

theorem Collecting.spares {i : Nat} {α : Type} {m : M α} (hm : Spares bootSetParts m) : Keeps G n A (Collecting i) m :=
  hm.keeps fun _ _ => Collecting.agree

theorem Collecting.queue {i handle : Nat} {kind : BootHandleKind} (named : handle ≠ noHandle) :
    Leads G n A (Collecting i) (Collecting (i + 1)) (queueBootHandle rootProcess i kind handle) := by
  rintro s ⟨hs, live, tags⟩
  refine wp_bind.mpr
    (wp_readProcess.mpr fun _ =>
      wp_ite.mpr ⟨fun room => wp_modifyProcess.mpr fun hp => ?_, fun _ => wp_halt.mpr trivial⟩)
  have ordered := hs.holds rootProcess (by simp)
  have fresh : ∀ r ∈ (s.processes.slot rootProcess).bootHandles, r.tag ≠ i := by
    intro r member own
    have below : r.tag ∈ List.range i := tags ▸ List.mem_map_of_mem member
    exact absurd (List.mem_range.mp below) (by omega)
  have put : InOrder { s.processes.slot rootProcess with
      bootHandles := (s.processes.slot rootProcess).bootHandles ++ [⟨i, kind, handle, false⟩] } := by
    refine ⟨ordered.fair.put (r := (⟨i, kind, handle, false⟩ : BootHandleSlot)) rfl fresh, fun r member => ?_, ?_⟩
    · rcases List.mem_append.mp member with old | new
      · exact ordered.words r old
      · rw [List.mem_singleton.mp new]
        exact named
    · rw [List.length_append]
      exact room
  refine ⟨hs.setProcess hp (fun _ _ => Iff.rfl) (fun _ => put) (fun _ dead => absurd live dead)
    (fun h => by cases h), ?_, ?_⟩
  · simp only [Slab.set_slot, if_true]
    exact live
  · simp [tags, List.range_succ]

theorem Collecting.mintBootRegion {i : Nat} {row : BootRegion} :
    Leads G n A (Collecting i) (Collecting (i + 1)) (mintBootRegion rootProcess i row) := by
  have spares : ∀ {α : Type} {m : M α}, Spares bootSetParts m → Leads G n A (Collecting i) (Collecting i) m :=
    fun hm => Collecting.spares hm
  refine (spares (.whenever spares_halt)).bind fun _ => (spares (.whenever spares_halt)).bind fun _ => ?_
  refine (spares (.bind spares_read fun _ => spares_pure)).bind fun _ =>
    (spares (.whenever spares_halt)).bind fun _ => ?_
  refine .ite ((spares spares_allocMemory).bind fun found => ?_) ((spares (by simp)).bind fun found => ?_)
  all_goals
    cases found with
    | none => exact leads_halt
    | some slot =>
      refine (spares ?_).bind fun _ => (spares (by simp +decide)).bind fun handle => ?_
      · first
        | exact spares_memories (by simp +decide)
        | exact spares_ioMemories (by simp +decide)
      refine fun s hs => wp_bind.mpr (wp_whenever.mpr ⟨fun _ => wp_halt.mpr trivial, fun named => ?_⟩)
      refine ((spares (by simp +decide)).bind fun _ => Collecting.queue ?_) s hs
      simpa using named

theorem Collecting.mintBootRegions :
    Leads G n A (Collecting 0) (Boots (fun _ a => InOrder a) none) (mintBootRegions rootProcess) := by
  refine Leads.bind (J := Collecting 0) (Collecting.spares (.whenever spares_halt)) fun _ s hs => ?_
  refine (wp_countUp (I := Collecting) hs fun j t _ inside ht => ?_).imp fun _ _ h => h.1
  have there : Build.bootRegions[j]? = some Build.bootRegions[j] := List.getElem?_eq_getElem (by omega)
  simp only [there]
  exact Collecting.mintBootRegion t ht

theorem Boots.fresh (hs : s.Fresh) : Boots (fun _ a => InOrder a) none s := by
  have slot : ∀ q, s.processes.slot q = .vacant := fun q => by rw [hs.processes]; rfl
  have dead : ¬ProcessSlot.vacant.Lives := fun live => live.1 rfl
  refine ⟨fun q _ => ?_, fun q _ _ => ?_, fun q _ => ?_, fun q h => by cases h⟩ <;> rw [slot]
  · exact .of_empty (c := true) rfl
  · rfl
  · exact dead

/-- The root starts with an empty set. -/
theorem Collecting.started (hs : Boots (fun _ a => InOrder a) none s) (hp : rootProcess < s.processes.cap)
    {v : ProcessSlot}
    (live : v.Lives) (bare : v.tray = .empty true) :
      Collecting 0 { s with processes := s.processes.set rootProcess v } := by
  have items : v.bootHandles = [] := congrArg Tray.items bare
  refine ⟨hs.setProcess hp (fun _ _ => Iff.rfl) (fun _ => .of_empty bare) (fun _ dead => absurd live dead)
    (fun h => by cases h), ?_, ?_⟩
  · simpa using live
  · simp [items]

theorem Boots.startProcess {e sp rb rt wb wt : Nat} :
    Leads G n A (Nobody (fun _ a => InOrder a) rootProcess) (Boots (fun _ a => InOrder a) none)
      (startProcess e sp rb rt wb wt) := by
  have f : Fosters G fun _ a => InOrder a := inOrder_fosters
  have spares : ∀ {α : Type} {m : M α}, Spares bootSetParts m → Leads G n A (Collecting 0) (Collecting 0) m :=
    fun hm => Collecting.spares hm
  refine Leads.bind (J := Collecting 0) (fun s hs => wp_modifyProcess.mpr fun hp => ?_) fun _ => ?_
  · have bare := hs.1.bare rootProcess (by simp) hs.2
    refine Collecting.started hs.1 hp (by simp [ProcessSlot.Lives]) ?_
    exact congrArg (fun u : Tray BootHandleSlot => ({ u with closed := true } : Tray BootHandleSlot)) bare
  refine (spares (spares_statsClear (by decide))).bind fun _ => (spares (by simp)).bind fun _ => ?_
  refine (spares (by simp +decide)).bind fun _ => (spares (by simp +decide)).bind fun _ => ?_
  refine (spares (by simp +decide)).bind fun _ => (spares (by simp +decide)).bind fun _ => ?_
  refine (spares spares_allocThread).bind fun found => ?_
  cases found with
  | none => exact leads_halt
  | some main =>
    refine (spares (by simp +decide)).bind fun _ => (spares (spares_threads ?_)).bind fun _ => ?_
    · simp +decide
    refine (spares (by simp +decide)).bind fun _ => (spares ?_).bind fun _ =>
      (spares (.whenever spares_halt)).bind fun _ => ?_
    · simp +decide
    refine Collecting.mintBootRegions.bind fun _ => (Boots.spares f (.bind ?_ fun _ => by simp +decide)).leads
    simp +decide

theorem Boots.boot : Leads G n A K.Fresh (Boots (fun _ a => InOrder a) none) loadRootAndEnter := fun s hs => by
  have f : Fosters G fun _ a => InOrder a := inOrder_fosters
  refine boot_leads (I := Nobody (fun _ a => InOrder a) rootProcess) (J := Nobody (fun _ a => InOrder a) rootProcess)
    (L := Nobody (fun _ a => InOrder a) rootProcess) (fun _ => ?_)
    (Spares.keeps (S := bootSetParts) (by simp +decide) fun _ _ => Nobody.agree f).leads
    (fun _ _ _ _ _ _ => Boots.startProcess) s ⟨Boots.fresh hs, ?_⟩
  · exact ((Nobody.serviced f).placeImage fun _ _ _ _ _ _ => Spares.keeps (S := bootSetParts) (by simp +decide)
      fun _ _ => Nobody.agree f).leads
  · rw [hs.processes]
    exact fun live => live.1 rfl

theorem Boots.reachable (h : Reachable s) : Owned none s ∧ Boots (fun _ a => InOrder a) none s :=
  Grounded.reachable (fun _ => Boots.grounded inOrder_fosters) (fun _ t ht =>
    ((Owned.boot (A := fun _ => False)).and (Boots.boot (A := fun _ => False)) t ⟨ht, ht⟩).mono
      (fun _ => id) (fun _ _ => id) (fun _ h => h.1) (fun _ => id) fun _ => id) h

/-- While a process is not ended, its set is what became of the one that it had. -/
theorem Boots.ahead {h : List Ev} (reached : Reachable s) (live : (s.processes.slot p).Lives)
    (ahead : machine.Ahead s t h) (outlives : ∀ e ∈ h, Outlives p e) :
    Boots (fun q a => InOrder a ∧ (q = p → a.Lives ∧ (s.processes.slot p).tray.Follows a.tray)) none t := by
  obtain ⟨owned, hs⟩ := Boots.reachable reached
  have now : Owned none s ∧
    Boots (fun q a => InOrder a ∧ (q = p → a.Lives ∧ (s.processes.slot p).tray.Follows a.tray)) none s := by
    refine ⟨owned, fun q hE => ⟨hs.holds q hE, fun own => ?_⟩, hs.bare, hs.beyond, fun q h => by cases h⟩
    subst own
    exact ⟨live, .refl _⟩
  exact (ahead.ofPrograms outlives now fun _ _ => (Boots.grounded follows_fosters).act fun _ => mortal_any).2

/-- A drain of a set that has nothing left answers that it has not. -/
theorem Boots.drained (f : Fosters G D) (hs : Boots D none s) (d : (s.processes.slot p).tray.Drained) {dst cap : Nat} :
    wp G n (bootHandleNext p dst cap) (fun r _ => r = opStatus .drained)
      (.leaving ⟨Boots D none, fun _ => True⟩) s := by
  have w : Steady G n (Boots D none) := Boots.upkeep f
  have none : (s.processes.slot p).bootHandles[(s.processes.slot p).tray.cursor]? = none := d.cursor
  refine wp_bind.mpr (w.wp_check mortal_any hs fun _ => wp_bind.mpr (wp_bind.mpr (wp_readProcess.mpr fun _ => ?_)))
  refine wp_bind.mpr (wp_modifyProcess.mpr fun _ => wp_pure.mpr (wp_bind.mpr (wp_readProcess.mpr fun _ => ?_)))
  simp only [Slab.set_slot, if_true]
  split
  · exact wp_pure.mpr rfl
  · rename_i rec found
    have found' : (s.processes.slot p).bootHandles[(s.processes.slot p).tray.cursor]? = some rec := found
    rw [none] at found'
    cases found'

/-- In every state that is reached a boot set has distinct tags, its records went out once by each door, those that were
    drained in the order in which they came and never after they were taken; they went out once in all where none was
    drained before the start; and only living processes have a set. While a process is not ended its set only grows, and
    not once it runs; what went out stays out, and a process that runs and has nothing left to drain is told so ever
    after. -/
theorem boot_sets_go_out_once (h : Reachable s) :
    (∀ p, InOrder (s.processes.slot p) ∧
      ((s.processes.slot p).tray.Late → ((s.processes.slot p).tray.log.map Prod.fst).Nodup) ∧
      (¬(s.processes.slot p).Lives → (s.processes.slot p).tray = .empty true)) ∧
    ∀ p, (s.processes.slot p).Lives → ∀ t es, machine.Ahead s t es → (∀ e ∈ es, Outlives p e) →
      (s.processes.slot p).tray.Follows (t.processes.slot p).tray ∧
      ((s.processes.slot p).state = .running → (s.processes.slot p).tray.Drained →
        ∀ dst cap n r u tr, bootHandleNext p dst cap n t = .ok r u tr → r = opStatus .drained) := by
  obtain ⟨-, hs⟩ := Boots.reachable h
  refine ⟨fun p => ⟨hs.holds p (by simp), (hs.holds p (by simp)).fair.once, hs.bare p (by simp)⟩,
    fun p live t es ahead outlives => ?_⟩
  have ht := Boots.ahead h live ahead outlives
  obtain ⟨ordered, follows⟩ := ht.holds p (by simp)
  obtain ⟨-, follows⟩ := follows rfl
  refine ⟨follows, fun running drained dst cap n r u tr run => ?_⟩
  have closed : (s.processes.slot p).tray.closed = true := ProcessSlot.tray_closed (by simp [running])
  have still := follows.drained (hs.holds p (by simp)).fair ordered.fair closed drained
  exact (Boots.drained (G := fun _ => True) inOrder_fosters
    (Boots.reachable (h.ahead ahead fun _ _ => trivial)).2 still).ok run

end
end

section

attribute [local instance] pairBuild sampleTarget Riscv32.board

/-- The root makes a child, gives it a handle on itself as 9 and a page of memory as 7, starts it with 9, and yields;
    the child drains its set once. -/
def furnished : List Stimulus := [.call 1 4 4 5 0, .call 6 mintOp 0xffffffff 0 0, .call 6 9 7 9 0xffffffff,
  .call 6 9 4 7 0xffffffff, .call 6 7 1 9 0, .call 3 3 0 0 0, .call 1 8 0x80500100 12 0]

/-- The child runs; its first record went out by its tag and then its second in its turn, and nothing is left. -/
def tookAndDrained (s : K) : Bool :=
  let child := s.processes.slot 1
  decide (child.state = .running) && decide (child.bootLog = [(1, .next), (0, .start)]) &&
    child.tray.items[child.tray.cursor]?.isNone

theorem boot_sets_go_out_once_child : ∃ s t : K, tookAndDrained s = true ∧ InOrder (s.processes.slot 1) ∧
    (s.processes.slot 1).tray.Follows (t.processes.slot 1).tray ∧
    ∀ n r u tr, bootHandleNext 1 0x80500100 12 n t = .ok r u tr → r = opStatus .drained := by
  obtain ⟨s, t, es, reached, ahead, found⟩ := ahead_of_played (i := furnished) (j := [.call 1 8 0x80500100 12 0])
    (c := fun s h _ => tookAndDrained s && h.all (outlivesTest 1)) (by decide +kernel)
  simp only [Bool.and_eq_true, List.all_eq_true] at found
  obtain ⟨there, spared⟩ := found
  have drained := there
  simp only [tookAndDrained, Bool.and_eq_true, decide_eq_true_eq, Option.isNone_iff_eq_none] at drained
  obtain ⟨⟨runs, -⟩, left⟩ := drained
  obtain ⟨ordered, on⟩ := boot_sets_go_out_once reached
  obtain ⟨follows, told⟩ := on 1 (by simp [ProcessSlot.Lives, runs]) t es ahead fun e he =>
    outlives_of_test (spared e he)
  exact ⟨s, t, there, (ordered 1).1, follows, told runs (Tray.drained_of_cursor left) _ _⟩

end

end Sawos
