import Sawos.Kernel.Delivered
import Sawos.Kernel.FreeRange

/-! # Whose limit a refusal names

An operation that mints handles is refused when a quota has no room (`QuotaExceeded`), or when a table, a slab or a
set of boot handles has none, or a map finds no place for its row (`NoResource`). Which of the two a refused mint was
is asked again after the fact, and of one handle only: an operation with more handles to mint hears of a full table
when its quota had room for some of them. -/

namespace Sawos
open Exec

section
variable [Hal]

/-! ### What an operation takes -/

/-- A status that names a limit. -/
def SosStatus.blames : SosStatus → Bool
  | .quotaExceeded | .noResource => true
  | _ => false

/-- What an operation takes: entries of the table of a process, and one more of some kinds of object, each of which is
    on the quota of a process. -/
structure Demand where
  process : Nat
  entries : Nat
  kinds : List (Nat × QuotaKind)
  /-- There are the slots for it. -/
  slots : Bool
  /-- A row that it installs may stand where it is to go. -/
  placed : Bool

namespace Demand

/-- A quota has no room for all that would be charged on it. -/
def OverQuota (d : Demand) (s : K) : Prop :=
  s.affords d.process .handle d.entries = false ∨ ∃ q ∈ d.kinds, s.affords q.1 q.2 1 = false

/-- The table has too few entries left, or a slot is missing. -/
def NoSlots (d : Demand) (s : K) : Prop := s.entriesLeft d.process < d.entries ∨ d.slots = false

/-- A slot is missing, or the place of a row. -/
def Lacks (d : Demand) (s : K) : Prop := d.NoSlots s ∨ d.placed = false

/-- The status of an answer names only a limit that has no room. -/
def Blames (d : Demand) (s : K) (status : SosStatus) : Prop :=
  (status = .quotaExceeded → d.OverQuota s) ∧ (status = .noResource → d.Lacks s)

/-- All that is missing is room in the handle quota, and it has room for one handle. -/
def Misled (d : Demand) (s : K) : Prop :=
  s.affords d.process .handle 1 = true ∧ s.affords d.process .handle d.entries = false ∧
    (∀ q ∈ d.kinds, s.affords q.1 q.2 1 = true) ∧ ¬d.Lacks s

/-- The status names the right limit, and that just when nothing misleads it. -/
def Judges (d : Demand) (s : K) (status : SosStatus) : Prop := d.Blames s status ↔ ¬d.Misled s

variable {d : Demand} {s : K} {status : SosStatus}

theorem not_misled_of_affords (room : s.affords d.process .handle d.entries = true) : ¬d.Misled s := fun misled =>
  Bool.false_ne_true (misled.2.1.symm.trans room)

theorem not_misled_of_few (few : d.entries ≤ 1) : ¬d.Misled s := by
  intro ⟨one, all, _⟩
  simp only [K.affords, Bool.or_eq_true, Bool.or_eq_false_iff, decide_eq_true_eq, decide_eq_false_iff_not] at one all
  rcases one with none | one
  · exact all.1 none
  · omega

theorem judges_accepted (plain : status.blames = false) (fine : ¬d.Misled s) : d.Judges s status := by
  refine iff_of_true ⟨?_, ?_⟩ fine
  · rintro rfl
    cases plain
  · rintro rfl
    cases plain

theorem judges_overKind {q : Nat × QuotaKind} (asked : q ∈ d.kinds) (full : s.affords q.1 q.2 1 = false) :
    d.Judges s .quotaExceeded := by
  refine iff_of_true ⟨fun _ => Or.inr ⟨q, asked, full⟩, nofun⟩ fun misled => ?_
  exact Bool.false_ne_true (full.symm.trans (misled.2.2.1 q asked))

theorem judges_lacks (missing : d.Lacks s) : d.Judges s .noResource :=
  iff_of_true ⟨nofun, fun _ => missing⟩ fun misled => misled.2.2.2 missing

theorem judges_noSlot (missing : d.slots = false) : d.Judges s .noResource := judges_lacks (Or.inl (Or.inr missing))

/-- What a refused mint answers. -/
def whyRefused (s : K) (p : Nat) : SosStatus := if s.affords p .handle 1 then .noResource else .quotaExceeded

/-- The refusal of a mint, when nothing else is missing. -/
theorem judges_refused (refused : s.affords d.process .handle d.entries = false ∨ s.entriesLeft d.process < d.entries)
    (kinds : ∀ q ∈ d.kinds, s.affords q.1 q.2 1 = true) : d.Judges s (whyRefused s d.process) := by
  unfold whyRefused
  cases one : s.affords d.process .handle 1 with
  | true =>
    rw [if_pos rfl]
    refine ⟨fun blames misled => misled.2.2.2 (blames.2 rfl), fun fine => ⟨nofun, fun _ => ?_⟩⟩
    rcases refused with all | full
    · exact Classical.byContradiction fun room => fine ⟨one, all, kinds, room⟩
    · exact Or.inl (Or.inl full)
  | false =>
    rw [if_neg Bool.false_ne_true]
    refine iff_of_true ⟨fun _ => Or.inl ?_, nofun⟩ fun misled => Bool.false_ne_true (one.symm.trans misled.1)
    rcases refused with all | full
    · exact all
    · simp only [K.affords, Bool.or_eq_false_iff, decide_eq_false_iff_not] at one ⊢
      exact ⟨one.1, by omega⟩

/-- Only processes have quotas and tables. -/
theorem Judges.about {t : K} (same : t.processes = s.processes) (h : d.Judges t status) : d.Judges s status := by
  simpa only [Judges, Blames, Misled, OverQuota, Lacks, NoSlots, K.affords, K.entriesLeft, same] using h

end Demand

/-! ### The operations that mint -/

/-- A slab has a slot left. -/
def Slab.room {α : Type} (c : Slab α) (free : α → Bool) : Bool := (c.find free).isSome

/-- How many handles an exchange carries. -/
def K.carried (s : K) (x : Nat) : Nat :=
  ((List.range pipeMsgHandles).filter fun i => ((s.exchanges.slot x).held i).objType ≠ .unbound).length

/-- The message at the head of a connection takes an entry for each handle it carries, and one for the obligation. -/
def K.messageEntries (s : K) (c : Nat) : Nat :=
  match (s.pipes.slot c).staged with
  | none => 0
  | some x => s.carried x + 1

/-- A reply that has come takes an entry for each handle it carries. -/
def K.replyEntries (s : K) (x : Nat) : Nat := if (s.exchanges.slot x).state = .replied then s.carried x else 0

/-- A delivery takes a message only when its attachment owns what it watches. -/
def K.deliveryEntries (s : K) (att : Attachment) : Nat :=
  match att.kind with
  | .pipeOutlet => if att.owns then s.messageEntries att.target else 0
  | .pipeReply => s.replyEntries att.target
  | _ => 0

/-- A row for `[base, top)` may stand where it is to go in the address space of `t`. -/
def K.places (s : K) (t base top : Nat) (device : Bool) : Bool :=
  let vaBase := Hal.mapPlace ((s.processes.slot t).freeVa (top - base)) base device
  top - base ≤ wordMax - vaBase && (device || Hal.mapTargetOk vaBase (vaBase + (top - base)))

/-- A row for `[base, top)` of `t`, with a Mapping for `p`. -/
def K.rowDemand (s : K) (p t base top : Nat) (device : Bool) : Demand :=
  ⟨p, 1, [(t, .mapping)], s.mappings.room (·.state = .free), s.places t base top device⟩

/-- The process that a handle of `p` is on. -/
def K.handleTarget (s : K) (p word : Nat) : Nat := ((s.processes.slot p).lookup word).target

/-- An operation that mints handles. -/
inductive Minting where
  | eventCreate (p mode : Nat)
  | waiterCreate (p : Nat)
  | interruptBind (p line : Nat)
  | threadCreate (p entry stackTop arg : Nat)
  | timerCreate (p clock : Nat)
  | memorySplit (p region len : Nat)
  | iomemoryCarve (p parent offset len : Nat)
  | memoryMap (p rights slot target raw : Nat)
  | iomemoryMap (p slot target : Nat)
  | statsRegionMap (p dst cap : Nat)
  | processCreate (p image memory : Nat)
  | processSelf (p keep : Nat)
  | threadSelf (p : Nat)
  | clockGet (p raw : Nat)
  | mintSibling (p : Nat) (entry : HandleEntry) (keep : Nat)
  | pipeCreate (owner caller dst cap : Nat)
  | processGive (p child word tag keep : Nat)
  | pipePost (p slot src bytes : Nat)
  | pipeTake (p slot dst cap : Nat)
  | pipeResolve (p word x dst cap : Nat)
  | deliverAttachment (p dst a : Nat)
  | answerCallReply (t x : Nat)

def statusOf (m : M SyscallResult) : M SosStatus := do return (← m).status

def Minting.run : Minting → M SosStatus
  | .eventCreate p mode => statusOf (Sawos.eventCreate p mode)
  | .waiterCreate p => statusOf (Sawos.waiterCreate p)
  | .interruptBind p line => statusOf (Sawos.interruptBind p line)
  | .threadCreate p entry stackTop arg => statusOf (Sawos.threadCreate p entry stackTop arg)
  | .timerCreate p clock => statusOf (Sawos.timerCreate p clock)
  | .memorySplit p region len => statusOf (Sawos.memorySplit p region len)
  | .iomemoryCarve p parent offset len => statusOf (Sawos.iomemoryCarve p parent offset len)
  | .memoryMap p rights slot target raw => statusOf (Sawos.memoryMap p rights slot target raw)
  | .iomemoryMap p slot target => statusOf (Sawos.iomemoryMap p slot target)
  | .statsRegionMap p dst cap => statusOf (Sawos.statsRegionMap p dst cap)
  | .processCreate p image memory => statusOf (Sawos.processCreate p image memory)
  | .processSelf p keep => statusOf (Sawos.processSelf p keep)
  | .threadSelf p => statusOf (Sawos.threadSelf p)
  | .clockGet p raw => statusOf (Sawos.clockGet p raw)
  | .mintSibling p entry keep => statusOf (Sawos.mintSibling p entry keep)
  | .pipeCreate owner caller dst cap => statusOf (Sawos.pipeCreate owner caller dst cap)
  | .processGive p child word tag keep => statusOf (Sawos.processGive p child word tag keep)
  | .pipePost p slot src bytes => statusOf (Sawos.pipePost p slot src bytes)
  | .pipeTake p slot dst cap => statusOf (Sawos.pipeTake p slot dst cap)
  | .pipeResolve p word x dst cap => statusOf (Sawos.pipeResolve p word x dst cap)
  | .deliverAttachment p dst a => Sawos.deliverAttachment p dst a
  | .answerCallReply t x => statusOf (Cascade.answerCallReply unrefObject t x)

/-- What an operation takes when it is not refused. -/
def Minting.demand (s : K) : Minting → Demand
  | .eventCreate p _ => ⟨p, 1, [(p, .event)], s.events.room (·.state = .free), true⟩
  | .waiterCreate p => ⟨p, 1, [(p, .waiter)], s.waiters.room (·.state = .free), true⟩
  | .interruptBind p _ => ⟨p, 1, [(p, .interrupt)], s.interrupts.room (·.state = .free), true⟩
  | .threadCreate p _ _ _ => ⟨p, 1, [(p, .thread)], s.threads.room (·.state = .free), true⟩
  | .timerCreate p _ => ⟨p, 1, [(p, .timer)], s.timers.room (·.state = .free), true⟩
  | .memorySplit p _ _ => ⟨p, 1, [(p, .memory)], s.memories.room (·.state = .free), true⟩
  | .iomemoryCarve p _ _ _ => ⟨p, 1, [(p, .ioMemory)], s.ioMemories.room (·.state = .free), true⟩
  | .memoryMap p _ slot target _ =>
    let region := s.memories.slot slot
    s.rowDemand p (s.handleTarget p target) region.base (alignUp (region.base + region.len) Hal.protGrain) false
  | .iomemoryMap p slot target =>
    let region := s.ioMemories.slot slot
    s.rowDemand p (s.handleTarget p target) region.base (region.base + region.len) true
  | .statsRegionMap p _ _ => s.rowDemand p p Build.statsRegionBase (Build.statsRegionBase + Build.statsRegionLen) false
  | .processCreate p _ _ => ⟨p, 1, [], ((List.range (min s.processes.cap Hal.protDomainSlots)).find? fun i =>
      (s.processes.slot i).state = .free).isSome, true⟩
  | .processSelf p _ => ⟨p, 1, [], true, true⟩
  | .threadSelf p => ⟨p, 1, [], true, true⟩
  | .clockGet p _ => ⟨p, 1, [], true, true⟩
  | .mintSibling p _ _ => ⟨p, 1, [], true, true⟩
  | .pipeCreate owner _ _ _ => ⟨owner, 2, [(owner, .pipe)], s.pipes.room (·.state = .free), true⟩
  | .processGive _ child _ _ _ => ⟨child, 1, [], (s.processes.slot child).bootHandles.length < maxHandles, true⟩
  | .pipePost p _ _ _ => ⟨p, 1, [], true, true⟩
  | .pipeTake p slot _ _ => ⟨p, s.messageEntries slot, [], true, true⟩
  | .pipeResolve p _ x _ _ => ⟨p, s.replyEntries x, [], true, true⟩
  | .deliverAttachment p _ a => ⟨p, s.deliveryEntries (s.attachments.slot a), [], true, true⟩
  | .answerCallReply t x => ⟨(s.threads.slot t).process, s.replyEntries x, [], true, true⟩

/-! ### One handle -/

section
variable {G : Ev → Prop} {n : Nat} {s : K} {d : Demand} {α : Type}

theorem wp_whyRefused {p : Nat} {Q : SosStatus → K → Prop} (h : Q (Demand.whyRefused s p) s) :
    wp G n (mintRefusal p) Q Unasked s :=
  wp_bind.mpr (wp_quotaRoom (wp_pure.mpr h))

/-- Whatever is done before, the answer is none that names a limit. -/
theorem judges_done {m : M α} {r : SyscallResult} {u : K} (fine : ¬d.Misled s) (plain : r.status.blames = false) :
    wp G n (m >>= fun _ => pure r) (fun r _ => d.Judges s r.status) Unasked u :=
  wp_bind.mpr (wp_any (fun _ _ => wp_pure.mpr (Demand.judges_accepted plain fine)) (fun _ => trivial) (fun _ => trivial)
    fun _ => trivial)

theorem judges_minted {p rights target : Nat} {kind : ObjType} {done : Nat → M Unit} (table : d.process = p)
    (one : d.entries = 1) (kinds : ∀ q ∈ d.kinds, s.affords q.1 q.2 1 = true) :
    wp G n (do
      let handle ← mintHandle p kind rights target
      minted p handle (done handle)) (fun r _ => d.Judges s r.status) Unasked s := by
  subst table
  refine wp_bind.mpr (wp_mintHandle (fun refused => ?_) fun _ i hi _ _ => ?_)
  · refine wp_bind.mpr (wp_whyRefused (wp_pure.mpr (Demand.judges_refused ?_ kinds)))
    rw [one]
    exact refused.imp_right fun full => by omega
  · rw [minted, if_neg (handleWord_ne_zero hi)]
    exact judges_done (Demand.not_misled_of_few one.le) rfl

theorem judges_create {β : Type} {p rights : Nat} {q : QuotaKind} {kind : ObjType} {c : Column β} {free : β → Bool}
    {fill : Nat → M Unit} : wp G n (create p q (alloc c free) kind rights fill)
      (fun r _ => Demand.Judges ⟨p, 1, [(p, q)], (c.get s).room free, true⟩ s r.status) Unasked s := by
  refine wp_bind.mpr (wp_quotaRoom ?_)
  cases room : s.affords p q 1 with
  | false => exact wp_pure.mpr (Demand.judges_overKind List.mem_cons_self room)
  | true =>
    refine wp_bind.mpr (wp_reads.mpr ?_)
    cases found : (c.get s).find free with
    | none => exact wp_pure.mpr (Demand.judges_noSlot (by simp [Slab.room, found]))
    | some slot => exact judges_minted rfl rfl (by simpa using room)

/-- A check before an operation. -/
theorem judges_after {m : M α} (hm : Looks m) {k : α → M SyscallResult}
    (hk : ∀ a, wp G n (k a) (fun r _ => d.Judges s r.status) Unasked s) :
    wp G n (m >>= k) (fun r _ => d.Judges s r.status) Unasked s := wp_bind.mpr (hm.wp hk)

/-- A row that may stand where it goes is refused as its Mapping is. -/
theorem judges_mintRow {p t b top base perms : Nat} {dev : Bool} {r : Option Nat} (table : d.process = p)
    (one : d.entries = 1)
    (kinds : ∀ q ∈ d.kinds, s.affords q.1 q.2 1 = true) (slots : d.slots = s.mappings.room (·.state = .free)) :
    wp G n (mintRow p t b top base perms dev r) (fun r _ => d.Judges s r.status) Unasked s := by
  refine wp_bind.mpr (wp_reads.mpr ?_)
  cases found : (mappings.get s).find (·.state = .free) with
  | none => exact wp_pure.mpr (Demand.judges_noSlot
    (slots.trans (by simp [Slab.room, show s.mappings.find _ = none from found])))
  | some slot => exact judges_minted table one kinds

/-- A map that is refused for the place of its row is not refused for a quota. -/
theorem judges_installRow {p t base top perms : Nat} {dev : Bool} {r : Option Nat} :
    wp G n (installRow p t base top perms dev r) (fun r _ => (s.rowDemand p t base top dev).Judges s r.status)
      Unasked s := by
  refine wp_bind.mpr (wp_quotaRoom ?_)
  cases room : s.affords t .mapping 1 with
  | false => exact wp_pure.mpr (Demand.judges_overKind (q := (t, .mapping)) List.mem_cons_self room)
  | true =>
    refine wp_bind.mpr (wp_readProcess.mpr fun _ =>
      wp_bind.mpr (wp_whenever.mpr ⟨fun _ => wp_fatalKernel.mpr trivial, fun _ => ?_⟩))
    refine wp_bind.mpr (wp_freeUserVa.imp ?_)
    rintro _ u ⟨rfl, rfl⟩
    refine wp_ite.mpr ⟨fun leaves => wp_pure.mpr (Demand.judges_lacks (Or.inr ?_)), fun _ => ?_⟩
    · simp [K.rowDemand, K.places, Nat.not_le.mpr leaves]
    refine wp_ite.mpr ⟨fun off => wp_pure.mpr (Demand.judges_lacks (Or.inr ?_)), fun _ => ?_⟩
    · obtain ⟨memory, outside⟩ : dev = false ∧ Hal.mapTargetOk _ _ = false := by simpa using off
      simp [K.rowDemand, K.places, memory ▸ outside, memory]
    · exact judges_mintRow rfl rfl (by simpa [K.rowDemand] using room) rfl

/-- Which process a map is for. -/
theorem wp_mapTarget {p word : Nat} {Q : Nat → K → Prop} (h : Q (s.handleTarget p word) s) :
    wp G n (mapTarget p word) Q Unasked s := by
  refine wp_bind.mpr (wp_bind.mpr (wp_readProcess.mpr fun _ => wp_pure.mpr ?_))
  refine wp_ite.mpr ⟨fun _ => wp_bind.mpr (looks_require.wp fun _ => wp_bind.mpr (looks_read.wp fun _ => ?_)),
    fun _ => wp_fault_never⟩
  exact wp_bind.mpr ((Looks.whenever looks_faultProcess).wp fun _ => wp_pure.mpr h)

theorem judges_memoryMap {p rights slot target raw : Nat} : wp G n (memoryMap p rights slot target raw)
    (fun r _ => ((Minting.memoryMap p rights slot target raw).demand s).Judges s r.status) Unasked s := by
  refine wp_bind.mpr (wp_mapTarget (judges_after looks_mapAccess fun access => ?_))
  refine judges_after (.whenever looks_require) fun _ => wp_bind.mpr (wp_readMemory.mpr fun _ => ?_)
  refine judges_after (.whenever looks_faultProcess) fun _ => judges_after (.whenever looks_faultProcess) fun _ => ?_
  refine wp_bind.mpr (wp_alignUpWord.mpr fun _ => judges_after (.whenever looks_faultProcess) fun _ =>
    judges_installRow)

theorem judges_iomemoryMap {p slot target : Nat} : wp G n (iomemoryMap p slot target)
    (fun r _ => ((Minting.iomemoryMap p slot target).demand s).Judges s r.status) Unasked s := by
  refine wp_bind.mpr (wp_mapTarget (wp_bind.mpr (wp_readIoMemory.mpr fun _ => ?_)))
  exact judges_after (.whenever looks_faultProcess) fun _ => wp_bind.mpr (wp_addWord.mpr fun _ => judges_installRow)

theorem judges_statsRegionMap {p dst cap : Nat} : wp G n (statsRegionMap p dst cap)
    (fun r _ => ((Minting.statsRegionMap p dst cap).demand s).Judges s r.status) Unasked s := by
  refine judges_after (.whenever looks_faultProcess) fun _ => wp_bind.mpr (wp_copyOut (fun why => ?_) fun pa _ => ?_)
  · exact wp_bind.mpr wp_fault_never
  · exact wp_bind.mpr (wp_pure.mpr (judges_installRow.imp fun _ _ judged => judged.about rfl))

theorem judges_processCreate {p i m : Nat} : wp G n (processCreate p i m)
    (fun r _ => Demand.Judges ((Minting.processCreate p i m).demand s) s r.status) Unasked s := by
  have few : ¬((Minting.processCreate p i m).demand s).Misled s := Demand.not_misled_of_few (Nat.le_refl 1)
  refine judges_after looks_memoryArg fun img => judges_after looks_memoryArg fun dst => ?_
  refine judges_after looks_read fun imgRegion => judges_after looks_read fun dstRegion => ?_
  refine wp_ite.mpr
    ⟨fun _ => wp_pure.mpr (Demand.judges_accepted rfl few), fun _ => judges_after looks_reads fun why => ?_⟩
  refine wp_ite.mpr ⟨fun _ => wp_pure.mpr (Demand.judges_accepted rfl few), fun _ => wp_bind.mpr (wp_reads.mpr ?_)⟩
  split
  · rename_i found
    exact wp_pure.mpr (Demand.judges_noSlot (by simp [Minting.demand, found]))
  · exact judges_minted rfl rfl (List.forall_mem_nil _)

theorem looks_giveFaults {p child tag : Nat} {entry : HandleEntry} : Looks (giveFaults p child entry tag) := by
  refine .bind (.whenever looks_faultProcess) fun _ => .bind (.whenever looks_faultProcess) fun _ => ?_
  cases bootKindOf entry.objType with
  | none => exact looks_faultProcess
  | some kind =>
    refine .bind looks_read fun slot => .bind (.whenever looks_faultProcess) fun _ => ?_
    exact .bind (.bind looks_read fun _ => looks_pure) fun used =>
      .bind (.whenever looks_faultProcess) fun _ => looks_pure

/-- A handle that is moved is minted first. -/
theorem wp_moveEntry {p q word keep : Nat} {entry : HandleEntry} {Q : Nat → K → Prop}
    (no : s.affords q .handle 1 = false ∨ s.entriesLeft q = 0 → Q noHandle s) (yes : ∀ w t, w ≠ noHandle → Q w t) :
    wp G n (moveEntry p q word entry keep) Q Unasked s := by
  refine wp_bind.mpr (wp_mintHandle (fun refused => ?_) fun _ i hi _ _ => ?_)
  · exact wp_pure.mpr (no refused)
  · rw [if_neg (handleWord_ne_zero hi)]
    have free {α : Type} {m : M α} {u : K} {Q : α → K → Prop} (h : ∀ a t, Q a t) : wp G n m Q Unasked u :=
      wp_any h (fun _ => trivial) (fun _ => trivial) fun _ => trivial
    refine wp_bind.mpr (free fun _ _ => wp_bind.mpr (free fun _ _ => wp_bind.mpr (free fun _ _ => wp_pure.mpr ?_)))
    exact yes _ _ (handleWord_ne_zero hi)

theorem judges_processGive {p child word tag keep : Nat} : wp G n (processGive p child word tag keep)
    (fun r _ => Demand.Judges ((Minting.processGive p child word tag keep).demand s) s r.status) Unasked s := by
  refine judges_after (.bind looks_read fun _ => looks_pure) fun entry => judges_after looks_giveFaults fun kind => ?_
  refine wp_bind.mpr (wp_bind.mpr (wp_readProcess.mpr fun _ => wp_pure.mpr ?_))
  refine wp_ite.mpr ⟨fun _ => wp_bind.mpr (wp_moveEntry (fun refused => ?_) fun given t minted => ?_), fun full => ?_⟩
  · refine wp_ite.mpr ⟨fun _ => wp_bind.mpr (wp_whyRefused (wp_pure.mpr ?_)), fun other => absurd rfl other⟩
    refine Demand.judges_refused (d := (Minting.processGive p child word tag keep).demand s) ?_ (List.forall_mem_nil _)
    exact refused.imp_right fun full => by simp only [Minting.demand]; omega
  · rw [if_neg minted]
    exact judges_done (Demand.not_misled_of_few (Nat.le_refl 1)) rfl
  · exact wp_pure.mpr (Demand.judges_noSlot (by simpa [Minting.demand] using full))

/-! ### Both ends of a connection -/

theorem K.Matches.affords {t : K} (h : s.Matches t) (p : Nat) (kind : QuotaKind) (k : Nat) :
    t.affords p kind k = s.affords p kind k := by
  have used := congrArg ProcessSlot.quotaUsed (h.slots p).rest
  have limit := congrArg ProcessSlot.quotaLimit (h.slots p).rest
  dsimp only at used limit
  simp only [K.affords, used, limit]

theorem affords_minted {p i rights target k : Nat} {kind : ObjType} :
    (s.minted p i kind rights target).affords p .handle k = s.affords p .handle (k + 1) := by
  simp [K.affords, K.minted, ProcessSlot.mintAt, ProcessSlot.setHandle, ProcessSlot.setQuotaUsed,
    Nat.add_assoc, Nat.add_comm 1]

theorem entriesLeft_minted {p i rights target : Nat} {kind : ObjType} :
    s.entriesLeft p ≤ (s.minted p i kind rights target).entriesLeft p + 1 := by
  unfold K.entriesLeft
  refine (List.subperm_of_subset (List.nodup_range.filter _) fun h hh => ?_).length_le.trans_eq
    (List.length_cons (a := i))
  obtain ⟨inTable, free⟩ := List.mem_filter.mp hh
  by_cases here : h = i
  · exact here ▸ List.mem_cons_self
  · refine List.mem_cons_of_mem _ (List.mem_filter.mpr ⟨inTable, ?_⟩)
    simpa [K.minted, ProcessSlot.mintAt, ProcessSlot.setHandle, ProcessSlot.setQuotaUsed, here] using free

/-- Both ends are minted when there is room for both; when there is not, the quota is as it was. -/
theorem wp_mintBoth {p slot : Nat} {Q : Option (Nat × Nat) → K → Prop}
    (no : ∀ t, s.Matches t → s.affords p .handle 2 = false ∨ s.entriesLeft p < 2 → Q none t)
    (yes : s.affords p .handle 2 = true → ∀ ends t, Q (some ends) t) : wp G n (mintEnds p slot) Q Unasked s := by
  refine wp_bind.mpr (wp_mintHandle (fun refused => ?_) fun _ i hi _ free => ?_)
  · refine wp_pure.mpr (no s (.refl s) (refused.imp (fun one => ?_) fun full => by omega))
    simp only [K.affords, Bool.or_eq_false_iff, decide_eq_false_iff_not] at one ⊢
    exact ⟨one.1, by omega⟩
  rw [if_neg (handleWord_ne_zero hi)]
  refine wp_bind.mpr (wp_mintHandle (fun refused => ?_) fun one j hj _ _ => ?_)
  · rw [if_pos rfl, handleWordIndex_handleWord hi]
    have lacks : s.affords p .handle 2 = false ∨ s.entriesLeft p < 2 := by
      rw [affords_minted] at refused
      exact refused.imp_right fun full => by
        have left : s.entriesLeft p ≤ (s.minted p i .pipeInlet pipeInletRights slot).entriesLeft p + 1 :=
          entriesLeft_minted
        omega
    exact wp_bind.mpr ((matches_unwound hi free).imp fun _ t left => wp_pure.mpr (no t left lacks))
  · rw [if_neg (handleWord_ne_zero hj)]
    exact wp_pure.mpr (yes (affords_minted.symm.trans one) _ _)

theorem judges_pipeCreate {owner caller dst cap : Nat} : wp G n (pipeCreate owner caller dst cap)
    (fun r _ => Demand.Judges ((Minting.pipeCreate owner caller dst cap).demand s) s r.status) Unasked s := by
  refine judges_after (.whenever looks_faultProcess) fun _ => judges_after looks_copyOutCheck fun _ => ?_
  refine judges_after looks_refuse fun _ => wp_bind.mpr (wp_quotaRoom ?_)
  cases room : s.affords owner .pipe 1 with
  | false => exact wp_pure.mpr (Demand.judges_overKind List.mem_cons_self room)
  | true =>
    refine wp_bind.mpr (wp_reads.mpr ?_)
    split
    · rename_i found
      exact wp_pure.mpr
        (Demand.judges_noSlot (by simp [Minting.demand, Slab.room, show s.pipes.find _ = none from found]))
    · refine wp_bind.mpr (wp_mintBoth (fun t left lacks => ?_) fun both ends t => ?_)
      · refine wp_bind.mpr (wp_whyRefused (wp_pure.mpr ?_))
        rw [show Demand.whyRefused t owner = Demand.whyRefused s owner by simp only [Demand.whyRefused, left.affords]]
        exact Demand.judges_refused (d := (Minting.pipeCreate owner caller dst cap).demand s) lacks
          (by simpa [Minting.demand] using room)
      · obtain ⟨inlet, outlet⟩ := ends
        simp only [← bind_assoc]
        exact judges_done (Demand.not_misled_of_affords both) rfl

/-! ### Messages -/

theorem looks_copyIn {p src bytes : Nat} : Looks (copyIn p src bytes) := by
  refine .bind (.bind looks_read fun slot => ?_) fun refused => ?_
  · refine .ite looks_pure (.ite looks_pure (.bind looks_translateUser fun found => ?_))
    cases found <;> exact looks_pure
  · cases refused with
    | some why => exact looks_pure
    | none =>
      refine .bind looks_translateUser fun found => ?_
      cases found with
      | error why => exact looks_pure
      | ok pa => exact .bind looks_reads fun _ => looks_pure

theorem looks_checkWord {p word : Nat} : Looks (checkWord p word) :=
  .whenever (.bind (.bind looks_read fun _ => looks_pure) fun _ => .bind (.whenever looks_faultProcess) fun _ =>
    .bind (.whenever looks_faultProcess) fun _ => .whenever looks_faultProcess)

theorem looks_sendArgs {p src bytes : Nat} : Looks (sendArgs p src bytes) := by
  refine .bind (.whenever looks_faultProcess) fun _ => .bind looks_copyIn fun data => ?_
  cases data with
  | error why => exact looks_faultProcess
  | ok data =>
    refine .bind (.bind (.whenever looks_faultProcess) fun _ => ?_) fun _ => looks_pure
    exact fun G n s => Keeps.countUp fun i => looks_checkWord G n s

theorem looks_allocExchange {c : Nat} : Looks (allocExchange c) :=
  .loop fun _ => .ite (.bind looks_read fun _ => looks_pure) looks_pure

theorem wp_fillBody {p x : Nat} {args : PipeSendRecord} :
    wp G n (fillBody p x args) (fun _ t => t.processes = s.processes) Unasked s := by
  refine wp_ite.mpr ⟨fun _ => wp_pure.mpr rfl, fun _ => wp_bind.mpr (looks_copyIn.wp fun data => ?_)⟩
  cases data with
  | error why => exact wp_pure.mpr rfl
  | ok bytes =>
    refine wp_bind.mpr
      (wp_whenever.mpr ⟨fun _ => wp_halt.mpr trivial, fun _ => wp_bind.mpr (wp_modify.mpr fun _ => ?_)⟩)
    exact wp_pure.mpr rfl

theorem judges_pipePost {p slot src bytes : Nat} : wp G n (pipePost p slot src bytes)
    (fun r _ => Demand.Judges ⟨p, 1, [], true, true⟩ s r.status) Unasked s := by
  have few : ¬Demand.Misled ⟨p, 1, [], true, true⟩ s := Demand.not_misled_of_few (Nat.le_refl 1)
  refine judges_after looks_sendArgs fun args => judges_after looks_read fun pipe => ?_
  refine wp_ite.mpr ⟨fun _ => wp_pure.mpr (Demand.judges_accepted rfl few), fun _ => ?_⟩
  refine judges_after looks_allocExchange fun found => ?_
  cases found with
  | none => exact wp_pure.mpr (Demand.judges_accepted rfl few)
  | some x =>
    refine wp_bind.mpr (wp_fillBody.imp fun refused t same => wp_bind.mpr (looks_refuse.wp fun _ => ?_))
    exact (judges_minted (d := ⟨p, 1, [], true, true⟩) rfl rfl (List.forall_mem_nil _)).imp fun r _ judged =>
      judged.about same

/-- Room for a batch of handles is asked before any is minted. -/
theorem wp_batch {p k : Nat} {yes no : M α} {Q : α → K → Prop}
    (room : s.affords p .handle k = true → wp G n yes Q Unasked s)
    (lacks : s.affords p .handle k = false ∨ s.entriesLeft p < k → wp G n no Q Unasked s) :
    wp G n (do if ← tableRoom p k then yes else no) Q Unasked s := by
  refine wp_bind.mpr
    (wp_bind.mpr
      (wp_bind.mpr (wp_readProcess.mpr fun _ => wp_pure.mpr (wp_ite.mpr ⟨fun affords => ?_, fun over' => ?_⟩))))
  · refine wp_bind.mpr
      (wp_readProcess.mpr fun _ => wp_pure.mpr (wp_ite.mpr ⟨fun _ => room affords, fun full => lacks (Or.inr ?_)⟩))
    simpa [K.entriesLeft] using full
  · exact wp_pure.mpr (wp_ite.mpr ⟨nofun, fun _ => lacks (Or.inl (Bool.eq_false_iff.mpr over'))⟩)

theorem judges_refusedBatch {p k : Nat} (lacks : s.affords p .handle k = false ∨ s.entriesLeft p < k) :
    wp G n (mintRefusal p) (fun why _ => Demand.Judges ⟨p, k, [], true, true⟩ s why) Unasked s :=
  wp_whyRefused (Demand.judges_refused (d := ⟨p, k, [], true, true⟩) lacks (List.forall_mem_nil _))

theorem wp_stagedCount {x : Nat} {Q : Nat → K → Prop} (h : Q (s.carried x) s) : wp G n (stagedCount x) Q Unasked s :=
  wp_bind.mpr (wp_read.mpr fun _ => wp_pure.mpr h)

theorem judges_pipeTake {p slot dst cap : Nat} : wp G n (pipeTake p slot dst cap)
    (fun r _ => Demand.Judges ⟨p, s.messageEntries slot, [], true, true⟩ s r.status) Unasked s := by
  refine judges_after (.whenever looks_faultProcess) fun _ => judges_after looks_copyOutCheck fun _ => ?_
  refine judges_after looks_refuse fun _ => wp_bind.mpr (wp_bind.mpr (wp_read.mpr fun _ => wp_pure.mpr ?_))
  cases head : ((pipes.get s).slot slot).staged with
  | none =>
    have none' : s.messageEntries slot = 0 := by
      simp [K.messageEntries, show (s.pipes.slot slot).staged = none from head]
    have few : ¬Demand.Misled ⟨p, s.messageEntries slot, [], true, true⟩ s := Demand.not_misled_of_few (by simp [none'])
    refine judges_after looks_read fun pipe => wp_pure.mpr ?_
    by_cases gone : pipe.inletRefs = 0 <;> simp only [gone, if_true, if_false] <;> exact Demand.judges_accepted rfl few
  | some x =>
    rw [show s.messageEntries slot = s.carried x + 1
      by simp [K.messageEntries, show (s.pipes.slot slot).staged = some x from head]]
    refine wp_bind.mpr (wp_stagedCount (wp_batch (fun room => ?_) fun lacks => ?_))
    · simp only [← Exec.bind_assoc]
      exact judges_done (Demand.not_misled_of_affords room) rfl
    · exact wp_bind.mpr ((judges_refusedBatch lacks).imp fun _ _ judged => wp_pure.mpr judged)

theorem replyEntries_replied {x : Nat} (state : (s.exchanges.slot x).state = .replied) :
    s.replyEntries x = s.carried x :=
  if_pos state

theorem replyEntries_none {x : Nat} (state : (s.exchanges.slot x).state ≠ .replied) :
    s.replyEntries x = 0 := if_neg state

theorem judges_resolveReplied {p word x dst : Nat} : wp G n (resolveReplied p word x dst)
    (fun r _ => Demand.Judges ⟨p, s.carried x, [], true, true⟩ s r.status) Unasked s := by
  refine wp_bind.mpr (wp_stagedCount (wp_batch (fun room => judges_after looks_read fun ex => ?_) fun lacks => ?_))
  · simp only [← Exec.bind_assoc]
    exact judges_done (Demand.not_misled_of_affords room) rfl
  · refine wp_bind.mpr ((judges_refusedBatch lacks).imp fun why _ judged => wp_bind.mpr ?_)
    exact wp_any (fun _ _ => wp_pure.mpr judged) (fun _ => trivial) (fun _ => trivial) fun _ => trivial

theorem judges_pipeResolve {p word x dst cap : Nat} : wp G n (pipeResolve p word x dst cap)
    (fun r _ => Demand.Judges ⟨p, s.replyEntries x, [], true, true⟩ s r.status) Unasked s := by
  refine judges_after (.whenever looks_faultProcess) fun _ => judges_after looks_copyOutCheck fun _ => ?_
  refine judges_after looks_refuse fun _ => wp_bind.mpr (wp_read.mpr fun _ => ?_)
  by_cases replied : (s.exchanges.slot x).state = .replied
  · rw [replyEntries_replied replied, show ((exchanges.get s).slot x).state = .replied from replied]
    exact judges_resolveReplied
  rw [replyEntries_none replied]
  have fine : ¬Demand.Misled ⟨p, 0, [], true, true⟩ s := Demand.not_misled_of_few (Nat.zero_le 1)
  have closed : wp G n (resolveClosed p word x) (fun r _ => Demand.Judges ⟨p, 0, [], true, true⟩ s r.status)
    Unasked s :=
    judges_done fine rfl
  have parked : wp G n (parkResolve p word x dst) (fun r _ => Demand.Judges ⟨p, 0, [], true, true⟩ s r.status)
    Unasked s := by
    unfold parkResolve
    simp only [← Exec.bind_assoc]
    exact judges_done fine rfl
  split
  · rename_i state
    exact absurd state replied
  · exact wp_ite.mpr ⟨fun _ => closed, fun _ => parked⟩
  · exact judges_after looks_read fun pipe => wp_ite.mpr ⟨fun _ => closed, fun _ => parked⟩
  · exact closed
  · exact wp_fatalKernel.mpr trivial

/-! ### Deliveries -/

theorem wp_outletTakeDelivery {att : Attachment} : wp G n (outletTakeDelivery att.kind att.target att.owns)
    (fun taken t => t = s ∧ s.deliveryEntries att = if taken then s.messageEntries att.target
      else if att.kind = .pipeReply then s.replyEntries att.target else 0) Unasked s := by
  obtain ⟨state, kind, target, waiter, key, oneshot, owns, link⟩ := att
  cases kind with
  | pipeOutlet =>
    refine wp_bind.mpr (wp_read.mpr fun _ => wp_pure.mpr ⟨rfl, ?_⟩)
    cases owns with
    | false => rfl
    | true =>
      cases head : (s.pipes.slot target).staged <;> simp [K.deliveryEntries, K.messageEntries, head, pipes]
  | _ => exact wp_pure.mpr ⟨rfl, rfl⟩

/-- Only a reply that has come carries handles. -/
theorem wp_answerCarries {kind : WaitableKind} {slot : Nat} : wp G n (waitableAnswer kind slot)
    (fun answer t => t = s ∧ replyCarriesHandles kind answer =
      (decide (kind = .pipeReply) && decide ((s.exchanges.slot slot).state = .replied))) Unasked s := by
  cases kind with
  | pipeReply =>
    refine wp_bind.mpr (wp_read.mpr fun _ => wp_pure.mpr ⟨?_, ?_⟩)
    · rfl
    · by_cases replied : (s.exchanges.slot slot).state = .replied <;>
        simp [replyCarriesHandles, exchanges, replied, replyLevelData, replyLevelPeerClosed]
  | pipeRequest => exact wp_pure.mpr ⟨rfl, rfl⟩
  | _ => exact wp_bind.mpr (wp_read.mpr fun _ => wp_pure.mpr ⟨rfl, rfl⟩)

theorem judges_delivered {m : M α} {u : K} (fine : ¬d.Misled s) :
    wp G n (m >>= fun _ => pure SosStatus.ok) (fun why _ => d.Judges s why) Unasked u :=
  wp_bind.mpr (wp_any (fun _ _ => wp_pure.mpr (Demand.judges_accepted rfl fine)) (fun _ => trivial) (fun _ => trivial)
    fun _ => trivial)

theorem judges_deliverTake {p dst key waiter a c : Nat} {ends : Bool} :
    wp G n (Cascade.deliverTake unrefObject p dst key waiter a c ends)
      (fun why _ => Demand.Judges ⟨p, s.messageEntries c, [], true, true⟩ s why) Unasked s := by
  refine wp_bind.mpr (wp_bind.mpr (wp_read.mpr fun _ => wp_pure.mpr ?_))
  cases head : ((pipes.get s).slot c).staged with
  | none => exact wp_fatalKernel.mpr trivial
  | some x =>
    rw [show s.messageEntries c = s.carried x + 1
      by simp [K.messageEntries, show (s.pipes.slot c).staged = some x from head]]
    refine wp_bind.mpr (wp_stagedCount (wp_batch (fun room => ?_) fun lacks => judges_refusedBatch lacks))
    simp only [← Exec.bind_assoc]
    exact judges_delivered (Demand.not_misled_of_affords room)

/-- The handles of a reply are minted when there is room for all of them. -/
theorem wp_mintReply {carries : Bool} {x p : Nat} {Q : Option StagedHandles → K → Prop}
    (yes : (carries = true → s.affords p .handle (s.carried x) = true) → ∀ moved t, Q (some moved) t)
    (no : carries = true → s.affords p .handle (s.carried x) = false ∨ s.entriesLeft p < s.carried x → Q none s) :
    wp G n (Cascade.mintReply unrefObject carries x p) Q Unasked s := by
  cases carries with
  | false => exact wp_pure.mpr (yes nofun _ _)
  | true =>
    refine wp_bind.mpr (wp_stagedCount (wp_batch (fun room => wp_bind.mpr ?_) fun lacks => wp_pure.mpr (no rfl lacks)))
    exact wp_any (fun moved t => wp_pure.mpr (yes (fun _ => room) moved t)) (fun _ => trivial)
      (fun _ => trivial) fun _ => trivial

theorem judges_deliverAttachment {p dst a : Nat} : wp G n (deliverAttachment p dst a)
    (fun why _ => Demand.Judges ⟨p, s.deliveryEntries (s.attachments.slot a), [], true, true⟩ s why) Unasked s := by
  refine wp_bind.mpr (wp_read.mpr fun _ => wp_bind.mpr (wp_outletTakeDelivery.imp fun taken t ⟨same, entries⟩ => ?_))
  subst same
  rw [show t.deliveryEntries (t.attachments.slot a) = _ from entries]
  cases taken with
  | true => exact judges_deliverTake
  | false =>
    refine wp_bind.mpr (wp_answerCarries.imp fun answer u ⟨same, carries⟩ => wp_bind.mpr ?_)
    subst same
    rw [carries]
    refine wp_mintReply (fun room moved v => ?_) fun carried lacks => ?_
    · simp only [← Exec.bind_assoc]
      refine judges_delivered ?_
      by_cases reply : (u.attachments.slot a).kind = .pipeReply
      · by_cases replied : (u.exchanges.slot (u.attachments.slot a).target).state = .replied
        · refine Demand.not_misled_of_affords ?_
          simpa [attachments, reply, replyEntries_replied replied] using room (by simp [attachments, reply, replied])
        · exact Demand.not_misled_of_few (by simp [attachments, reply, replyEntries_none replied])
      · exact Demand.not_misled_of_few (by simp [attachments, reply])
    · simp only [Bool.and_eq_true, decide_eq_true_eq] at carried
      rw [if_neg Bool.false_ne_true, if_pos carried.1, replyEntries_replied carried.2]
      exact judges_refusedBatch lacks

theorem judges_answerCallReply {t x : Nat} : wp G n (Cascade.answerCallReply unrefObject t x)
    (fun r _ => Demand.Judges ⟨(s.threads.slot t).process, s.replyEntries x, [], true, true⟩ s r.status) Unasked s := by
  refine wp_bind.mpr (wp_readThread.mpr fun _ => wp_bind.mpr (wp_answerCarries.imp fun answer u ⟨same, carries⟩ => ?_))
  subst same
  simp only [decide_true, Bool.true_and] at carries
  by_cases replied : (u.exchanges.slot x).state = .replied
  · rw [replyEntries_replied replied, if_pos (by simpa [replyCarriesHandles, replied] using carries)]
    refine wp_bind.mpr (wp_stagedCount (wp_batch (fun room => ?_) fun lacks => ?_))
    · simp only [← Exec.bind_assoc]
      exact judges_done (Demand.not_misled_of_affords room) rfl
    · exact wp_bind.mpr ((judges_refusedBatch lacks).imp fun _ _ judged => wp_pure.mpr judged)
  · rw [replyEntries_none replied, if_neg (by simpa [replyCarriesHandles, replied] using carries)]
    exact wp_pure.mpr (Demand.judges_accepted rfl (Demand.not_misled_of_few (Nat.zero_le 1)))

/-! ### Every operation -/

theorem wp_statusOf {m : M SyscallResult} (h : wp G n m (fun r _ => d.Judges s r.status) Unasked s) :
    wp G n (statusOf m) (fun why _ => d.Judges s why) Unasked s :=
      wp_bind.mpr (h.imp fun _ _ judged => wp_pure.mpr judged)

theorem judges_minting (m : Minting) : wp G n m.run (fun why _ => (m.demand s).Judges s why) Unasked s := by
  have alone {p rights target : Nat} {kind : ObjType} {done : Nat → M Unit} : wp G n (do
      let handle ← mintHandle p kind rights target
      minted p handle (done handle)) (fun r _ => Demand.Judges ⟨p, 1, [], true, true⟩ s r.status) Unasked s :=
    judges_minted rfl rfl (List.forall_mem_nil _)
  cases m with
  | eventCreate p mode =>
    refine wp_statusOf ?_
    unfold eventCreate
    cases EventMode.ofRaw mode with
    | none => exact wp_fault_never
    | some mode => exact judges_create
  | waiterCreate p => exact wp_statusOf judges_create
  | interruptBind p line =>
    exact wp_statusOf (judges_after (.whenever looks_faultProcess) fun _ => judges_after looks_reads fun _ =>
      judges_after (.whenever looks_faultProcess) fun _ => judges_create)
  | threadCreate p entry stackTop arg =>
    exact wp_statusOf
      (judges_after looks_read fun _ => judges_after (.whenever looks_faultProcess) fun _ => judges_create)
  | timerCreate p clock => exact wp_statusOf judges_create
  | memorySplit p region len =>
    exact wp_statusOf (judges_after looks_poolCanServe fun _ => judges_after (.whenever looks_faultProcess) fun _ =>
      judges_after (.whenever looks_faultProcess) fun _ => judges_create)
  | iomemoryCarve p parent offset len =>
    exact wp_statusOf (judges_after looks_read fun _ => judges_after (.whenever looks_faultProcess) fun _ =>
      judges_after looks_addWord fun _ => judges_after (.whenever looks_faultProcess) fun _ => judges_create)
  | memoryMap p rights slot target raw => exact wp_statusOf judges_memoryMap
  | iomemoryMap p slot target => exact wp_statusOf judges_iomemoryMap
  | statsRegionMap p dst cap => exact wp_statusOf judges_statsRegionMap
  | processCreate p image memory => exact wp_statusOf judges_processCreate
  | processSelf p keep => exact wp_statusOf alone
  | threadSelf p =>
    refine wp_statusOf (judges_after looks_reads fun current => ?_)
    cases current with
    | none => exact wp_fault_never
    | some t => exact alone
  | clockGet p raw => exact wp_statusOf (wp_ite.mpr ⟨fun _ => alone, fun _ => wp_fault_never⟩)
  | mintSibling p entry keep =>
    exact wp_statusOf
      (judges_after (.whenever looks_faultProcess) fun _ => judges_after (.whenever looks_faultProcess) fun _ => alone)
  | pipeCreate owner caller dst cap => exact wp_statusOf judges_pipeCreate
  | processGive p child word tag keep => exact wp_statusOf judges_processGive
  | pipePost p slot src bytes => exact wp_statusOf judges_pipePost
  | pipeTake p slot dst cap => exact wp_statusOf judges_pipeTake
  | pipeResolve p word x dst cap => exact wp_statusOf judges_pipeResolve
  | deliverAttachment p dst a => exact judges_deliverAttachment
  | answerCallReply t x => exact wp_statusOf judges_answerCallReply

/-- What an operation that mints handles answers blames only a limit that has no room, just when it is not the case that
    nothing but the handle quota lacks room, and that has room for one handle. -/
theorem refusals_blame_rightly_iff (m : Minting) {s' : K} {status : SosStatus} {t : List Ev}
    (ran : m.run n s = .ok status s' t) : (m.demand s).Blames s status ↔ ¬(m.demand s).Misled s :=
  (judges_minting m).ok ran

end

end

section
variable [Hal]

/-- Every answer names a limit that has no room, where the place of a row is no limit. -/
def NamesLimits : Prop := ∀ (s : K), Reachable s →
  ∀ (m : Minting) (n : Nat) (status : SosStatus) (s' : K) (t : List Ev), m.run n s = .ok status s' t →
    (status = .quotaExceeded → (m.demand s).OverQuota s) ∧ (status = .noResource → (m.demand s).NoSlots s)

/-- An operation is refused for want of a resource. -/
def Minting.refused (m : Minting) (s : K) : Bool :=
  match m.run 64 s with
  | .ok status _ _ => status == .noResource
  | _ => false

theorem Minting.ran_of_refused {m : Minting} {s : K} (h : m.refused s = true) :
    ∃ s' t, m.run 64 s = .ok .noResource s' t := by
  unfold refused at h
  rcases run : m.run 64 s with ⟨status, s', t⟩ | ⟨s', t⟩ | ⟨w, t⟩ | t <;> rw [run] at h
  · exact ⟨s', t, by rw [eq_of_beq h]⟩
  all_goals cases h

/-- An operation is refused for want of a resource, rightly unless it is misled. -/
def Minting.Settled (m : Minting) : Prop := ∃ s s' t, m.run 64 s = .ok .noResource s' t ∧
  ((m.demand s).Blames s .noResource ↔ ¬(m.demand s).Misled s)

/-- A refusal for want of a resource, when the table has as many entries left as it takes, and there is every slot. -/
def Minting.strays (m : Minting) (s : K) : Bool :=
  m.refused s && decide ((m.demand s).entries ≤ s.entriesLeft (m.demand s).process) && (m.demand s).slots

theorem not_namesLimits {is : List Stimulus} {m : Minting}
    (h : (played is).any (fun (s, t) => m.strays s && t.all fun _ => true) = true) : ¬NamesLimits := by
  intro all
  obtain ⟨s, reached, found⟩ := reachable_of_played (G := fun _ => True) (c := m.strays)
    (g := fun _ => true) h fun _ _ => trivial
  simp only [Minting.strays, Bool.and_eq_true, decide_eq_true_eq] at found
  obtain ⟨⟨refused, entries⟩, slots⟩ := found
  obtain ⟨s', t, ran⟩ := Minting.ran_of_refused refused
  rcases (all s reached m 64 .noResource s' t ran).2 rfl with few | none'
  · exact absurd few (Nat.not_lt.mpr entries)
  · exact Bool.false_ne_true (none'.symm.trans slots)

end

/-- The machine on which a root has 64 KiB for a child. -/
@[reducible] def pairMachine : Hal := @Riscv32.board pairBuild sampleTarget

/-- A machine whose root has 2 MiB, more than is left behind its image of what may be mapped. -/
@[reducible] def wideMachine : Hal := @Arm64.board (smallBuild 2 0x20003000 [⟨0x40600000, 0x200000, 0⟩]) ⟨32⟩

/-- A connection that the root asks for in the name of its child. -/
def childPipe : Minting := .pipeCreate 1 rootProcess 0x80200000 8

/-- The root makes a child, and four events, two waiters, four threads and an interrupt for it: of its twelve handles it
    has eleven. -/
def nearlySpent [Hal] : List Stimulus :=
  .call 1 4 4 5 0 :: (List.replicate 4 (.call 6 4 0 0 0) ++ List.replicate 2 (.call 6 5 0 0 0) ++
    List.replicate 4 (.call 6 0 0 0x80510000 0) ++ [.call 6 6 1 0 0])

/-- The root maps all its memory into itself. -/
def wideMap : Minting := .memoryMap rootProcess memoryRights 0 2 3

/-- The connection is misled to blame the table, and the map finds no place for its row. -/
theorem refusals_blame_rightly_iff_pipe : @Minting.Settled pairMachine childPipe ∧
    @Minting.Settled wideMachine wideMap := by
  constructor
  · let _ := pairMachine
    obtain ⟨s, -, found⟩ := reachable_of_played (G := fun _ => True) (c := childPipe.refused) (i := nearlySpent)
      (g := fun _ => true) (by decide +kernel) fun _ _ => trivial
    obtain ⟨s', t, ran⟩ := Minting.ran_of_refused found
    exact ⟨s, s', t, ran, refusals_blame_rightly_iff childPipe ran⟩
  · let _ := wideMachine
    obtain ⟨s, -, found⟩ := reachable_of_played (G := fun _ => True) (c := wideMap.refused)
      (i := []) (g := fun _ => true) (by decide +kernel) fun _ _ => trivial
    obtain ⟨s', t, ran⟩ := Minting.ran_of_refused found
    exact ⟨s, s', t, ran, refusals_blame_rightly_iff wideMap ran⟩

/-- A map blames the place of its row, and a connection the table or the slot, when there are entries and slots
    enough. -/
theorem refusals_name_other_limits : ¬@NamesLimits wideMachine ∧ ¬@NamesLimits pairMachine :=
  ⟨@not_namesLimits wideMachine [] wideMap (by decide +kernel),
    @not_namesLimits pairMachine (@nearlySpent pairMachine) childPipe (by decide +kernel)⟩

end Sawos
