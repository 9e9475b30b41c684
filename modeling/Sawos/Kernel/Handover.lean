import Sawos.Kernel.Refusals
import Sawos.Sysapi.Records

/-! # What is handed over with a message

The handles of a message are minted in the receiver's table. Each was held with a reference of its own, which the minted
handle takes over, so nothing ends on the way, and nothing changes but the receiver's table. -/

namespace Sawos
open Exec

section
variable [Hal]

/-! ### References -/

/-- The references of an object. -/
def K.refs (s : K) : ObjType → Nat → Nat
  | .event, i => (s.events.slot i).refs
  | .waiter, i => (s.waiters.slot i).refs
  | .interrupt, i => (s.interrupts.slot i).refs
  | .timer, i => (s.timers.slot i).refs
  | .memory, i => (s.memories.slot i).refs
  | .ioMemory, i => (s.ioMemories.slot i).refs
  | .mapping, i => (s.mappings.slot i).refs
  | .process, i => (s.processes.slot i).refs
  | .pipeInlet, i => (s.pipes.slot i).inletRefs
  | .pipeOutlet, i => (s.pipes.slot i).outletRefs
  | .pipeReply, i => (s.exchanges.slot i).replyRefs
  | .pipeRequest, i => (s.exchanges.slot i).requestRefs
  | .unbound, _ | .system, _ | .thread, _ | .clock, _ => 0

def K.setRefs (s : K) (kind : ObjType) (i c : Nat) : K :=
  match kind with
  | .event => { s with events := s.events.set i { s.events.slot i with refs := c } }
  | .waiter => { s with waiters := s.waiters.set i { s.waiters.slot i with refs := c } }
  | .interrupt => { s with interrupts := s.interrupts.set i { s.interrupts.slot i with refs := c } }
  | .timer => { s with timers := s.timers.set i { s.timers.slot i with refs := c } }
  | .memory => { s with memories := s.memories.set i { s.memories.slot i with refs := c } }
  | .ioMemory => { s with ioMemories := s.ioMemories.set i { s.ioMemories.slot i with refs := c } }
  | .mapping => { s with mappings := s.mappings.set i { s.mappings.slot i with refs := c } }
  | .process => { s with processes := s.processes.set i { s.processes.slot i with refs := c } }
  | .pipeInlet => { s with pipes := s.pipes.set i { s.pipes.slot i with inletRefs := c } }
  | .pipeOutlet => { s with pipes := s.pipes.set i { s.pipes.slot i with outletRefs := c } }
  | .pipeReply => { s with exchanges := s.exchanges.set i { s.exchanges.slot i with replyRefs := c } }
  | .pipeRequest => { s with exchanges := s.exchanges.set i { s.exchanges.slot i with requestRefs := c } }
  | .unbound | .system | .thread | .clock => s

section
variable {G : Ev → Prop} {n p x : Nat} {s t u : K} {kind : ObjType} {i c d : Nat}

@[simp] theorem refs_setRefs (counted : kind.counted = true) : (s.setRefs kind i c).refs kind i = c := by
  cases kind <;> first | (simp [K.setRefs, K.refs]; done) | exact absurd counted (by decide)

@[simp] theorem setRefs_setRefs : (s.setRefs kind i c).setRefs kind i d = s.setRefs kind i d := by
  cases kind <;> simp [K.setRefs, Slab.set_set]

@[simp] theorem setRefs_refs : s.setRefs kind i (s.refs kind i) = s := by
  have same : ∀ {α : Type} (c : Column α) (own : c.put s (c.get s) = s),
      c.put s ((c.get s).set i ((c.get s).slot i)) = s := fun c own => by rw [Slab.set_same, own]
  cases kind with
  | event => exact same events rfl
  | waiter => exact same waiters rfl
  | interrupt => exact same interrupts rfl
  | timer => exact same timers rfl
  | memory => exact same memories rfl
  | ioMemory => exact same ioMemories rfl
  | mapping => exact same mappings rfl
  | process => exact same processes rfl
  | pipeInlet | pipeOutlet => exact same pipes rfl
  | pipeReply | pipeRequest => exact same exchanges rfl
  | _ => rfl

theorem counted_of_refs (some : 0 < s.refs kind i) : kind.counted = true := by
  cases kind <;> first | rfl | exact absurd some (Nat.lt_irrefl 0)

theorem wp_readRefs {Q : Nat → K → Prop} (h : Q (s.refs kind i) s) : wp G n (readRefs kind i) Q Unasked s := by
  cases kind <;> first | exact wp_bind.mpr (wp_read.mpr fun _ => wp_pure.mpr h) | exact wp_pure.mpr h

theorem wp_writeRefs {Q : Unit → K → Prop} (h : Q () (s.setRefs kind i c)) :
    wp G n (writeRefs kind i c) Q Unasked s := by
  cases kind <;> simp only [writeRefs] <;> first | exact wp_modify.mpr fun _ => h | exact wp_pure.mpr h

/-- An object that keeps a reference does not go. -/
theorem wp_dropped_more {unref : ObjType → Nat → M Unit} {Q : Bool → K → Prop} (more : 0 < s.refs kind i)
    (h : Q false s) :
    wp G n (Cascade.dropped unref false kind i) Q Unasked s := by
  cases kind with
  | pipeInlet =>
    refine wp_bind.mpr (wp_whenever.mpr ⟨nofun, fun _ => wp_bind.mpr (wp_read.mpr fun _ => ?_)⟩)
    refine wp_ite.mpr ⟨fun _ => wp_pure.mpr h, fun _ => wp_ite.mpr ⟨fun none => ?_, fun _ => wp_pure.mpr h⟩⟩
    exact absurd none.1 (Nat.ne_of_gt more)
  | pipeOutlet =>
    refine wp_bind.mpr (wp_whenever.mpr ⟨nofun, fun _ => wp_bind.mpr (wp_read.mpr fun _ => ?_)⟩)
    refine wp_ite.mpr ⟨fun _ => wp_pure.mpr h, fun _ => wp_ite.mpr ⟨fun none => ?_, fun _ => wp_pure.mpr h⟩⟩
    exact absurd none.2 (Nat.ne_of_gt more)
  | pipeReply =>
    refine wp_bind.mpr (wp_whenever.mpr ⟨nofun, fun _ => wp_bind.mpr (wp_read.mpr fun _ => ?_)⟩)
    have some : ((exchanges.get s).slot i).replyRefs ≠ 0 := Nat.ne_of_gt more
    exact wp_ite.mpr ⟨fun _ => wp_pure.mpr h, fun none => absurd none (by simp [some])⟩
  | pipeRequest =>
    refine wp_bind.mpr (wp_whenever.mpr ⟨nofun, fun _ => wp_bind.mpr (wp_read.mpr fun _ => ?_)⟩)
    have some : ((exchanges.get s).slot i).requestRefs ≠ 0 := Nat.ne_of_gt more
    exact wp_ite.mpr ⟨fun _ => wp_pure.mpr h, fun none => absurd none (by simp [some])⟩
  | _ => exact wp_pure.mpr h

theorem wp_unrefObject_more {Q : Unit → K → Prop} (more : 1 < s.refs kind i)
    (h : Q () (s.setRefs kind i (s.refs kind i - 1))) :
    wp G n (unrefObject kind i) Q Unasked s := by
  have drops : wp G n (unrefObject kind i) (fun _ t => t = s.setRefs kind i (s.refs kind i - 1)) Unasked s := by
    refine wp_recur (P := fun (o : ObjType × Nat) t => 1 < t.refs o.1 o.2)
      (Q := fun o _ t u => u = t.setRefs o.1 o.2 (t.refs o.1 o.2 - 1)) (A := fun _ _ => Unasked) ?_
      (k := (kind, i)) more
    rintro f - ⟨k, j⟩ t more
    dsimp only at more ⊢
    have counted := counted_of_refs (Nat.zero_lt_of_lt more)
    refine wp_bind.mpr ?_
    unfold Cascade.dropReference
    rw [if_pos counted]
    refine wp_bind.mpr
      (wp_readRefs (wp_ite.mpr ⟨fun none => absurd none (by omega), fun _ => wp_bind.mpr (wp_writeRefs ?_)⟩))
    rw [show decide (t.refs k j = 1) = false from decide_eq_false (by omega)]
    exact wp_dropped_more (by rw [refs_setRefs counted]; omega) (wp_whenever.mpr ⟨nofun, fun _ => rfl⟩)
  exact drops.imp fun _ t same => same ▸ h

/-- A reference is taken and dropped again. -/
theorem wp_refUnref {α : Type} {k : M α} {Q : α → K → Prop} (held : 0 < s.refs kind i) (h : wp G n k Q Unasked s) :
    wp G n (do
      refObject kind i
      unrefObject kind i
      k) Q Unasked s := by
  have counted := counted_of_refs held
  have taken : wp G n (refObject kind i) (fun _ t => t = s.setRefs kind i (s.refs kind i + 1)) Unasked s := by
    unfold refObject
    refine wp_whenever.mpr ⟨fun _ => ?_, fun no => absurd counted (Bool.eq_false_iff.mp no)⟩
    exact wp_bind.mpr (wp_readRefs (wp_bind.mpr (wp_bump.mpr fun _ => wp_writeRefs rfl)))
  refine wp_bind.mpr (taken.imp fun _ t same => ?_)
  subst same
  refine wp_bind.mpr (wp_unrefObject_more (by rw [refs_setRefs counted]; omega) ?_)
  rwa [refs_setRefs counted, setRefs_setRefs, Nat.add_sub_cancel, setRefs_refs]

/-! ### A table that gains handles -/

/-- From `s` to `t` the table of `p` gains handles, and nothing else changes. -/
structure Endowed (p : Nat) (s t : K) : Prop where
  only : ∃ handles history used, t = { s with
    processes := s.processes.set p
      { s.processes.slot p with handles := handles, history := history, quotaUsed := used } }
  old : ∀ i, ((s.processes.slot p).handles i).objType ≠ .unbound →
    (t.processes.slot p).handles i = (s.processes.slot p).handles i

theorem Endowed.refl : Endowed p s s := ⟨⟨_, _, _, by rw [Slab.set_same]⟩, fun _ _ => rfl⟩

theorem Endowed.trans (h : Endowed p s t) (h' : Endowed p t u) : Endowed p s u := by
  refine ⟨?_, fun i bound => ?_⟩
  · obtain ⟨handles, history, used, rfl⟩ := h.only
    obtain ⟨handles', history', used', rfl⟩ := h'.only
    exact ⟨handles', history', used', by simp [Slab.set_set]⟩
  · have first := h.old i bound
    rw [h'.old i (first ▸ bound), first]

theorem Endowed.mem (h : Endowed p s t) : t.mem = s.mem := by
  obtain ⟨handles, history, used, rfl⟩ := h.only
  rfl

theorem Endowed.rows (h : Endowed p s t) : (t.processes.slot p).rows = (s.processes.slot p).rows := by
  obtain ⟨handles, history, used, rfl⟩ := h.only
  simp [ProcessSlot.rows]

theorem Endowed.refs (h : Endowed p s t) : t.refs kind i = s.refs kind i := by
  obtain ⟨handles, history, used, rfl⟩ := h.only
  cases kind <;> try rfl
  show ((s.processes.set p _).slot i).refs = (s.processes.slot i).refs
  rw [Slab.set_slot]
  split
  · rename_i own
    rw [own]
  · rfl

theorem Endowed.minted {rights target : Nat} (free : ((s.processes.slot p).handles i).objType = .unbound) :
    Endowed p s (s.minted p i kind rights target) := by
  refine ⟨⟨_, _, _, rfl⟩, fun j bound => ?_⟩
  have other : j ≠ i := by
    rintro rfl
    exact bound free
  simp [K.minted, ProcessSlot.mintAt, ProcessSlot.setHandle, ProcessSlot.setQuotaUsed, other]

/-- A word names the object of a staged handle in the table of `p`, with its rights. -/
def Names (s : K) (p : Nat) (ref : StagedRef) (word : Nat) : Prop :=
  ∃ g, (s.processes.slot p).lookup word = ⟨ref.objType, ref.rights, ref.target, g⟩

theorem Names.congr {ref : StagedRef} {word : Nat} (same : (s.processes.slot p).handles = (t.processes.slot p).handles)
    (h : Names s p ref word) : Names t p ref word := by
  obtain ⟨g, there⟩ := h
  refine ⟨g, ?_⟩
  unfold ProcessSlot.lookup at there ⊢
  rwa [← same]

theorem Names.endowed {ref : StagedRef} {word : Nat} (bound : ref.objType ≠ .unbound) (h : Names s p ref word)
    (more : Endowed p s t) :
    Names t p ref word := by
  obtain ⟨g, there⟩ := h
  refine ⟨g, ?_⟩
  unfold ProcessSlot.lookup at there ⊢
  dsimp only at there ⊢
  split at there
  · exact absurd (congrArg HandleEntry.objType there).symm bound
  split at there
  · exact absurd (congrArg HandleEntry.objType there).symm bound
  split at there
  · exact absurd (congrArg HandleEntry.objType there).symm bound
  rename_i inTable entry gen
  rw [if_neg inTable, more.old _ entry, if_neg entry, if_neg gen]
  exact there

theorem Names.minted {rights target : Nat} (hi : i < maxHandles) (bound : kind ≠ .unbound) :
    Names (s.minted p i kind rights target) p ⟨kind, rights, target⟩
      (handleWord i ((s.processes.slot p).handles i).gen) := by
  refine ⟨((s.processes.slot p).handles i).gen, ?_⟩
  have index := handleWordIndex_handleWord (g := ((s.processes.slot p).handles i).gen) hi
  have gen := handleWordGeneration_handleWord (g := ((s.processes.slot p).handles i).gen) hi
  simp [ProcessSlot.lookup, index, gen, K.minted, ProcessSlot.mintAt, ProcessSlot.setHandle, ProcessSlot.setQuotaUsed,
    Nat.not_le.mpr hi, bound]

/-! ### Minting what was held -/

/-- What a slot of a record holds for a staged handle: nothing, or its kind and the word it was minted under. -/
def Suits (ref : StagedRef) (m : Nat × Nat) : Prop :=
  ref.objType = .unbound ∧ m = (0, noHandle) ∨
    ∃ kind, msgKindOf ref.objType = some kind ∧ m.1 = kind.word ∧ m.2 ≠ noHandle ∧ m.2 < wordModulus

/-- The slots of a record, filled with the handles that were held. -/
structure Filled (held : Nat → StagedRef) (moved : StagedHandles) : Prop where
  four : moved.length = pipeMsgHandles
  fills : ∀ i < pipeMsgHandles, Suits (held i) (moved.getD i (0, noHandle))

/-- Every handle that is held has its reference. -/
def Referenced (s : K) (held : Nat → StagedRef) : Prop :=
  ∀ i < pipeMsgHandles, (held i).objType ≠ .unbound → 0 < s.refs (held i).objType (held i).target

instance {held : Nat → StagedRef} : Decidable (Referenced s held) :=
  inferInstanceAs
    (Decidable (∀ i < pipeMsgHandles, (held i).objType ≠ .unbound → 0 < s.refs (held i).objType (held i).target))

/-- The generations of a table fit their field. -/
def Narrow (s : K) : Prop := ∀ p i, ((s.processes.slot p).handles i).gen < handleGenerationModulus

theorem Narrow.minted (h : Narrow s) {rights target : Nat} : Narrow (s.minted p i kind rights target) := by
  intro q j
  have old := h q j
  by_cases same : q = p
  · subst same
    by_cases entry : j = i
    · subst entry
      simpa [K.minted, ProcessSlot.mintAt, ProcessSlot.setHandle, ProcessSlot.setQuotaUsed] using old
    · simpa [K.minted, ProcessSlot.mintAt, ProcessSlot.setHandle, ProcessSlot.setQuotaUsed, entry] using old
  · simpa [K.minted, same] using old

theorem handleWord_lt (h : Sos.Profiled) {g : Nat} (hi : i < maxHandles) (hg : g < handleGenerationModulus) :
    handleWord i g < wordModulus := by
  have small : i + 1 < 2 ^ 8 := by unfold maxHandles at hi; omega
  have narrow : handleWord i g < 2 ^ 32 := by
    rw [handleWord, handleIndexBits, ← Nat.shiftLeft_add_eq_or_of_lt small, Nat.shiftLeft_eq]
    unfold handleGenerationModulus at hg
    omega
  rcases h with width | width
  · rw [wordModulus, width]; exact narrow
  · rw [wordModulus, width]; omega

/-- A staged handle that is minted: the table has it, under the word that the record says. -/
structure MintedAs (p : Nat) (ref : StagedRef) (m : Nat × Nat) (s t : K) : Prop where
  suits : Suits ref m
  names : ref.objType ≠ .unbound → Names t p ref m.2
  more : Endowed p s t
  narrow : Narrow t

theorem wp_mintRef (h : Sos.Profiled) (narrow : Narrow s) {ref : StagedRef}
    (held : ref.objType ≠ .unbound → 0 < s.refs ref.objType ref.target) :
    wp G n (Cascade.mintRef unrefObject p ref) (fun m t => MintedAs p ref m s t) Unasked s := by
  unfold Cascade.mintRef
  refine wp_ite.mpr ⟨fun unbound => wp_pure.mpr ⟨.inl ⟨unbound, rfl⟩, absurd unbound, .refl, narrow⟩, fun bound => ?_⟩
  refine wp_bind.mpr (wp_mintHandle (fun _ => ?_) fun _ i hi _ free => ?_)
  · exact wp_bind.mpr
      (wp_whenever.mpr ⟨fun _ => wp_fatalKernel.mpr trivial, fun no => absurd rfl (of_decide_eq_false no)⟩)
  have more : Endowed p s (s.minted p i ref.objType ref.rights ref.target) := .minted free
  refine wp_bind.mpr (wp_whenever.mpr ⟨fun _ => wp_fatalKernel.mpr trivial, fun _ => ?_⟩)
  refine wp_refUnref (more.refs ▸ held bound) ?_
  cases kind : msgKindOf ref.objType with
  | none => exact wp_fatalKernel.mpr trivial
  | some kind' =>
    refine wp_pure.mpr
      ⟨.inr ⟨kind', kind, rfl, handleWord_ne_zero hi, ?_⟩, fun _ => .minted hi bound, more, narrow.minted⟩
    exact handleWord_lt h hi (narrow p i)

theorem wp_mintRefs (h : Sos.Profiled) {held : Nat → StagedRef} {k i : Nat} (narrow : Narrow s)
    (refs : ∀ j < k, (held (i + j)).objType ≠ .unbound → 0 < s.refs (held (i + j)).objType (held (i + j)).target) :
    wp G n (Cascade.mintRefs unrefObject p held k i) (fun l t => l.length = k ∧ Endowed p s t ∧ ∀ j < k,
      Suits (held (i + j)) (l.getD j (0, noHandle)) ∧
        ((held (i + j)).objType ≠ .unbound → Names t p (held (i + j)) (l.getD j (0, noHandle)).2)) Unasked s := by
  induction k generalizing s i with
  | zero => exact wp_pure.mpr ⟨rfl, .refl, fun _ hj => absurd hj (Nat.not_lt_zero _)⟩
  | succ k ih =>
    refine wp_bind.mpr ((wp_mintRef h narrow (refs 0 (Nat.zero_lt_succ _))).imp fun m t first => ?_)
    have later : ∀ j < k, (held (i + 1 + j)).objType ≠ .unbound → 0 < t.refs (held (i + 1 + j)).objType
      (held (i + 1 + j)).target := by
      intro j hj bound
      rw [Nat.add_assoc, Nat.add_comm 1] at bound ⊢
      exact first.more.refs ▸ refs (j + 1) (by omega) bound
    refine wp_bind.mpr ((ih first.narrow later).imp fun l u ⟨length, more, rest⟩ => ?_)
    refine wp_pure.mpr ⟨by rw [List.length_cons, length], first.more.trans more, fun j hj => ?_⟩
    cases j with
    | zero => exact ⟨first.suits, fun bound => (first.names bound).endowed bound more⟩
    | succ j =>
      have fills := rest j (by omega)
      rwa [Nat.add_assoc, Nat.add_comm 1] at fills

/-- The state without what exchange `x` holds. -/
def K.emptied (s : K) (x : Nat) : K :=
  { s with exchanges := s.exchanges.set x { s.exchanges.slot x with held := fun _ => .none } }

/-- From `s` to `u` what exchange `x` held goes to `p`, which has it under the words of `moved`; nothing else
    changes. -/
structure Handed (p x : Nat) (moved : StagedHandles) (s u : K) : Prop where
  filled : Filled (s.exchanges.slot x).held moved
  names : ∀ i < pipeMsgHandles, ((s.exchanges.slot x).held i).objType ≠ .unbound →
    Names u p ((s.exchanges.slot x).held i) (moved.getD i (0, noHandle)).2
  only : Endowed p (s.emptied x) u

theorem refs_emptied : (s.emptied x).refs kind i = s.refs kind i := by
  cases kind <;> try rfl
  all_goals
    simp only [K.emptied, K.refs, Slab.set_slot]
    split
    · rename_i own
      rw [own]
    · rfl

theorem wp_mintStaged (h : Sos.Profiled) (narrow : Narrow s) (refs : Referenced s (s.exchanges.slot x).held) :
    wp G n (mintStaged x p) (fun moved u => Handed p x moved s u) Unasked s := by
  refine wp_bind.mpr (wp_bind.mpr (wp_read.mpr fun _ => wp_bind.mpr (wp_modify.mpr fun _ => wp_pure.mpr ?_)))
  have here : ∀ j < pipeMsgHandles, ((s.exchanges.slot x).held (0 + j)).objType ≠ .unbound →
      0 < (s.emptied x).refs ((s.exchanges.slot x).held (0 + j)).objType
        ((s.exchanges.slot x).held (0 + j)).target := by
    intro j hj bound
    rw [Nat.zero_add] at bound ⊢
    rw [refs_emptied]
    exact refs j hj bound
  refine (wp_mintRefs (s := s.emptied x) h narrow here).imp fun l u ⟨four, more, fills⟩ => ?_
  simp only [Nat.zero_add] at fills
  exact ⟨⟨four, fun i hi => (fills i hi).1⟩, fun i hi => (fills i hi).2, more⟩

theorem Handed.exchange {moved : StagedHandles} (h : Handed p x moved s u) :
    u.exchanges.slot x = { s.exchanges.slot x with held := fun _ => .none } := by
  obtain ⟨handles, history, used, rfl⟩ := h.only.only
  simp [K.emptied]

theorem Endowed.emptied (h : Endowed p s t) : Endowed p (s.emptied x) (t.emptied x) := by
  obtain ⟨⟨handles, history, used, rfl⟩, old⟩ := h
  exact ⟨⟨handles, history, used, rfl⟩, old⟩

/-- What exchange `x` held goes to `p`, which is asked for a reply under `request`. -/
structure Asked (p x request : Nat) (moved : StagedHandles) (s u : K) : Prop extends Handed p x moved s u where
  bound : request ≠ noHandle
  asked : Names u p ⟨.pipeRequest, pipeRequestRights, x⟩ request

theorem Names.emptied {ref : StagedRef} {word : Nat} (h : Names s p ref word) : Names (s.emptied x) p ref word := h

theorem Handed.after {moved : StagedHandles} (more : Endowed p s t) (h : Handed p x moved t u) :
    Handed p x moved s u := by
  have same : t.exchanges = s.exchanges := by
    obtain ⟨handles, history, used, rfl⟩ := more.only
    rfl
  exact ⟨same ▸ h.filled, same ▸ h.names, more.emptied.trans h.only⟩

/-- The obligation of a message and its handles, minted. -/
theorem wp_mintMessage (h : Sos.Profiled) (narrow : Narrow s) (refs : Referenced s (s.exchanges.slot x).held) {α : Type}
    {rest : Nat → StagedHandles → M α} {R : α → K → Prop}
    (hR : ∀ request moved u, request < wordModulus → Asked p x request moved s u →
      wp G n (rest request moved) R Unasked u) :
    wp G n (do
      let request ← mintHandle p .pipeRequest pipeRequestRights x
      whenever (request = noHandle) fatalKernel
      let moved ← mintStaged x p
      rest request moved) R Unasked s := by
  refine wp_bind.mpr (wp_mintHandle (fun _ => ?_) fun _ i hi _ free => ?_)
  · exact wp_bind.mpr
      (wp_whenever.mpr ⟨fun _ => wp_fatalKernel.mpr trivial, fun no => absurd rfl (of_decide_eq_false no)⟩)
  have more : Endowed p s (s.minted p i .pipeRequest pipeRequestRights x) := .minted free
  have named : Names (s.minted p i .pipeRequest pipeRequestRights x) p ⟨.pipeRequest, pipeRequestRights, x⟩
      (handleWord i ((s.processes.slot p).handles i).gen) := .minted hi nofun
  have narrow' : Narrow (s.minted p i .pipeRequest pipeRequestRights x) := narrow.minted
  have refs' : Referenced (s.minted p i .pipeRequest pipeRequestRights x) (s.exchanges.slot x).held :=
    fun j hj bound => more.refs ▸ refs j hj bound
  refine wp_bind.mpr (wp_whenever.mpr ⟨fun _ => wp_fatalKernel.mpr trivial, fun _ => ?_⟩)
  refine wp_bind.mpr ((wp_mintStaged h narrow.minted refs').imp fun moved u handed => ?_)
  exact hR _ moved u (handleWord_lt h hi (narrow p i))
    ⟨handed.after more, handleWord_ne_zero hi, named.emptied.endowed nofun handed.only⟩

end

end

end Sawos
