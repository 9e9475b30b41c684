import Sawos.Kernel.Handles

/-! # Refused creations

A creation checks, finds a slot and mints its handles before it writes anything, so one that is refused leaves the
machine as it was: every table, every quota and every mask. Only a pipe has two handles to mint, and a refused second
one unbinds the first, which costs its entry a generation. -/

namespace Sawos
open Exec

/-! ### What a refusal leaves -/

/-- Two entries of a table are the same, or neither names anything. -/
def HandleEntry.Matches (a b : HandleEntry) : Prop := a = b ∨ a.objType = .unbound ∧ b.objType = .unbound

/-- Two processes differ at most in the generations of their unbound entries, and in the history that counts these. -/
structure ProcessSlot.Matches (a b : ProcessSlot) : Prop where
  entries : ∀ h, (a.handles h).Matches (b.handles h)
  rest : { a with handles := b.handles, history := b.history } = b

theorem ProcessSlot.Matches.refl (a : ProcessSlot) : a.Matches a := ⟨fun _ => Or.inl rfl, rfl⟩

/-- The operations that create something, by the kind of object they are asked of. -/
def creates : ObjType → Nat → Bool
  | .system, op => match SystemOp.ofRaw op with
    | some .processCreate => true
    | _ => false
  | .process, op => match ProcessOp.ofRaw op with
    | some .threadCreate | some .eventCreate | some .waiterCreate | some .interruptBind | some .pipeCreate => true
    | _ => false
  | .clock, op => match ClockOp.ofRaw op with
    | some .timerCreate => true
    | _ => false
  | .memory, op => (MemoryOp.ofRaw op).isSome
  | .ioMemory, op => (IoMemoryOp.ofRaw op).isSome
  | _, _ => false

section
variable [Hal]

/-- Two states of the machine differ at most in the generations of unbound entries. -/
structure K.Matches (s t : K) : Prop where
  cap : s.processes.cap = t.processes.cap
  extents : s.processes.extents = t.processes.extents
  slots : ∀ p, (s.processes.slot p).Matches (t.processes.slot p)
  rest : { s with processes := t.processes } = t

theorem K.Matches.refl (s : K) : s.Matches s := ⟨rfl, rfl, fun _ => .refl _, rfl⟩

/-- A process whose slot is written anew, matching the old one. -/
theorem K.Matches.setProcess {s : K} {p : Nat} {v : ProcessSlot} (same : (s.processes.slot p).Matches v) :
    s.Matches { s with processes := s.processes.set p v } := by
  refine ⟨rfl, rfl, fun q => ?_, rfl⟩
  by_cases hq : q = p
  · subst hq
    simpa using same
  · simpa [hq] using ProcessSlot.Matches.refl _

/-- What a call answers when it is refused it answers in a state that matches `s`. -/
def Refuses (s : K) (r : SyscallResult) (t : K) : Prop := r.status ≠ .ok → s.Matches t

theorem Refuses.ok {s t : K} {r : SyscallResult} (h : r.status = .ok) : Refuses s r t := fun no => absurd h no

theorem Refuses.same {s : K} {r : SyscallResult} : Refuses s r s := fun _ => .refl s

section
variable {G : Ev → Prop} {n : Nat} {s : K} {α : Type}

/-- No invariant at all is kept by every step. -/
theorem Steady.true : Steady G n fun _ => True :=
  .steady .any (fun _ _ _ => id) (Bedrock.true fun _ _ => trivial).serviced
    (fun _ => keeps_true (fun _ _ => trivial) (by simp))
    fun _ _ _ _ => teardown_returns (fun _ _ => trivial) trivial

/-- How a call may end that is not answered: nothing is asked of it. -/
abbrev Unasked : Exits K Ev Stop := .leaving (fun _ => True : K → Prop)

/-- What follows may do as it likes, when what it answers is no refusal. -/
theorem wp_accepted {m : M α} {r : α → SyscallResult} {u : K} (h : ∀ a, (r a).status = .ok) :
    wp G n (m >>= fun a => pure (r a)) (Refuses s) Unasked u :=
  wp_bind.mpr (wp_any (fun a _ => wp_pure.mpr (.ok (h a))) (fun _ => trivial) (fun _ => trivial) fun _ => trivial)

/-- `m` looks at the state and leaves it as it is. -/
def Looks (m : M α) : Prop := ∀ (G : Ev → Prop) (n : Nat) (s : K), Keeps G n (fun _ => True : K → Prop) (· = s) m

theorem Looks.wp {m : M α} (h : Looks m) {Q : α → K → Prop} (hQ : ∀ a, Q a s) : wp G n m Q Unasked s :=
  (h G n s s rfl).imp fun a _ here => here ▸ hQ a

/-! ### Looking at the state -/

theorem looks_pure {a : α} : Looks (pure a : M α) := fun _ _ _ => keeps_pure

theorem looks_reads {f : K → α} : Looks (reads f : M α) := fun _ _ _ => keeps_reads

theorem looks_halt {w : Stop} : Looks (halt w : M α) := fun _ _ _ => keeps_halt

theorem Looks.bind {β : Type} {m : M α} {f : α → M β} (hm : Looks m) (hf : ∀ a, Looks (f a)) : Looks (m >>= f) :=
  fun G n s => Keeps.bind (hm G n s) fun a => hf a G n s

theorem Looks.ite {c : Prop} [Decidable c] {m k : M α} (hm : Looks m) (hk : Looks k) : Looks (if c then m else k) :=
  fun G n s => Keeps.ite (hm G n s) (hk G n s)

theorem Looks.whenever {c : Bool} {m : M Unit} (hm : Looks m) : Looks (whenever c m) := fun G n s =>
  Keeps.whenever (hm G n s)

theorem Looks.loop {κ : Type} {body : κ → M (κ ⊕ α)} (hb : ∀ k, Looks (body k)) {k : κ} : Looks (loop body k) :=
  fun G n s => Keeps.loop fun k => hb k G n s

theorem looks_read {c : Column α} {i : Nat} : Looks (c.read i) := .bind looks_reads fun _ => .ite looks_reads looks_halt

theorem looks_addWord {a b : Nat} : Looks (addWord a b) := .ite looks_pure looks_halt

theorem looks_alignUpWord {v a : Nat} : Looks (alignUpWord v a) := .ite looks_pure looks_halt

/-- Whoever is killed is not answered. -/
theorem looks_faultProcess {p : Nat} {r : FaultReason} : Looks (faultProcess p r : M α) := fun _ _ _ t _ =>
  (Steady.true.faultProcess_ends mortal_any t trivial).imp fun _ _ => False.elim

theorem wp_fault_never {p : Nat} {why : FaultReason} {Q : α → K → Prop} : wp G n (faultProcess p why) Q Unasked s :=
  (Steady.true.faultProcess_ends mortal_any s trivial).imp fun _ _ => False.elim

theorem looks_require {p rights right : Nat} : Looks (require p rights right) := .whenever looks_faultProcess

theorem looks_refuse {p : Nat} {refused : Option FaultReason} : Looks (refuse p refused) := by
  cases refused with
  | none => exact looks_pure
  | some why => exact looks_faultProcess

theorem looks_quotaRoom {p : Nat} {k : QuotaKind} : Looks (quotaRoom p k) := .bind looks_read fun _ => looks_pure

theorem looks_mintRefusal {p : Nat} : Looks (mintRefusal p) := .bind looks_quotaRoom fun _ => looks_pure

theorem looks_poolCanServe {r len : Nat} : Looks (poolCanServe r len) := by
  refine .bind looks_read fun region => .ite looks_pure (.ite looks_pure (.loop fun cur => ?_))
  cases cur with
  | none => exact looks_pure
  | some m => exact .bind looks_read fun _ => looks_pure

theorem looks_memoryArg {p h : Nat} : Looks (memoryArg p h) :=
  .bind (.bind looks_read fun _ => looks_pure) fun _ => .ite looks_pure looks_faultProcess

theorem looks_mapAccess {p raw : Nat} : Looks (mapAccess p raw) :=
  .bind (.whenever looks_faultProcess) fun _ => .bind (.whenever looks_faultProcess) fun _ =>
    .bind (.whenever looks_faultProcess) fun _ => .bind (.whenever looks_faultProcess) fun _ => looks_pure

theorem looks_mapTarget {p h : Nat} : Looks (mapTarget p h) := by
  refine .bind (.bind looks_read fun _ => looks_pure) fun _ => .ite ?_ looks_faultProcess
  exact .bind looks_require fun _ => .bind looks_read fun _ => .bind (.whenever looks_faultProcess) fun _ => looks_pure

theorem looks_bumpPastRows {slot : ProcessSlot} {len va : Nat} : Looks (bumpPastRows slot len va) := by
  refine .loop fun at' => .ite (.ite ?_ looks_pure) looks_pure
  exact .bind looks_addWord fun _ => .ite (.bind looks_alignUpWord fun _ => looks_pure) looks_pure

theorem looks_freeUserVa {p len : Nat} : Looks (freeUserVa p len) :=
  .bind looks_read fun _ => .loop fun _ => .ite looks_pure (.bind looks_bumpPastRows fun _ => looks_pure)

theorem looks_translateUser {p va bytes : Nat} : Looks (translateUser p va bytes) := by
  refine .bind looks_read fun slot => ?_
  split
  · exact looks_pure
  · exact .ite looks_pure (.bind looks_addWord fun _ => looks_pure)

theorem looks_copyOutCheck {p dst bytes : Nat} : Looks (copyOutCheck p dst bytes) := by
  refine .bind looks_read fun slot => .ite looks_pure (.ite looks_pure (.bind looks_translateUser fun found => ?_))
  cases found <;> exact looks_pure

/-! ### Minting -/


/-- The state after `p` was charged one more of a kind. -/
def K.charged (s : K) (p : Nat) (k : QuotaKind) : K :=
  let slot := s.processes.slot p
  { s with processes := s.processes.set p (slot.setQuotaUsed k (slot.quotaUsed k + 1)) }

theorem wp_quotaCharge {p : Nat} {k : QuotaKind} {Q : Unit → K → Prop} (h : Q () (s.charged p k)) :
    wp G n (quotaCharge p k) Q Unasked s :=
  wp_bind.mpr (wp_readProcess.mpr fun _ => wp_bind.mpr (wp_bump.mpr fun _ => wp_modifyProcess.mpr fun _ => h))

/-- The state after `p` was minted its entry `i`. -/
def K.minted (s : K) (p i : Nat) (kind : ObjType) (rights target : Nat) : K :=
  let slot := (s.processes.slot p).mintAt i kind rights target
  { s with processes := s.processes.set p (slot.setQuotaUsed .handle (slot.quotaUsed .handle + 1)) }

/-- A quota has room for `k` more of its kind. -/
def K.affords (s : K) (p : Nat) (kind : QuotaKind) (k : Nat) : Bool :=
  let slot := s.processes.slot p
  slot.quotaLimit kind = quotaUnlimited || slot.quotaUsed kind + k ≤ slot.quotaLimit kind

/-- How many entries of a table are unbound. -/
def K.entriesLeft (s : K) (p : Nat) : Nat :=
  ((List.range maxHandles).filter fun h => ((s.processes.slot p).handles h).objType = .unbound).length

theorem wp_quotaRoom {p : Nat} {kind : QuotaKind} {Q : Bool → K → Prop} (h : Q (s.affords p kind 1) s) :
    wp G n (quotaRoom p kind) Q Unasked s :=
  wp_bind.mpr (wp_readProcess.mpr fun _ => wp_pure.mpr h)

omit [Hal] in
theorem entriesLeft_eq_zero {slot : ProcessSlot} (h : slot.freeEntry = none) :
    ((List.range maxHandles).filter fun i => (slot.handles i).objType = .unbound).length = 0 := by
  rw [List.length_eq_zero_iff, List.filter_eq_nil_iff]
  intro i hi
  exact List.find?_eq_none.mp h i hi

/-- A handle is minted unless the quota has no room or the table is full. -/
theorem wp_mintHandle {p rights target : Nat} {kind : ObjType} {Q : Nat → K → Prop}
    (no : s.affords p .handle 1 = false ∨ s.entriesLeft p = 0 → Q noHandle s)
    (yes : s.affords p .handle 1 = true → ∀ i < maxHandles, p < s.processes.cap →
      ((s.processes.slot p).handles i).objType = .unbound →
        Q (handleWord i ((s.processes.slot p).handles i).gen) (s.minted p i kind rights target)) :
    wp G n (mintHandle p kind rights target) Q Unasked s := by
  refine wp_bind.mpr (wp_quotaRoom ?_)
  cases room : s.affords p .handle 1 with
  | false => exact wp_pure.mpr (no (Or.inl room))
  | true =>
    refine wp_bind.mpr (wp_readProcess.mpr fun hp => ?_)
    cases entry : (s.processes.slot p).freeEntry with
    | none => exact wp_pure.mpr (no (Or.inr (entriesLeft_eq_zero entry)))
    | some i =>
      obtain ⟨free, inTable, -⟩ := List.find?_range_eq_some.mp entry
      refine wp_bind.mpr (wp_modifyProcess.mpr fun _ => wp_bind.mpr (wp_quotaCharge (wp_pure.mpr ?_)))
      have done := yes room i (List.mem_range.mp inTable) hp (of_decide_eq_true free)
      simpa [K.minted, K.charged, Slab.set_set, ProcessSlot.mintAt, ProcessSlot.setHandle] using done

omit [Hal] in
theorem handleWord_ne_zero {i g : Nat} (hi : i < maxHandles) : handleWord i g ≠ noHandle := by
  intro zero
  have index := handleWordIndex_handleWord (g := g) hi
  rw [zero] at index
  have top : handleWordIndex noHandle = maxHandles := by decide
  omega

/-! ### Creations -/

theorem refuses_status {m : M SosStatus} (hm : Looks m) :
    wp G n (m >>= fun why => pure (opStatus why)) (Refuses s) Unasked s :=
  wp_bind.mpr (hm.wp fun _ => wp_pure.mpr .same)

/-- A creation with one handle to mint. -/
theorem refuses_minted {p rights target : Nat} {kind : ObjType} {done : Nat → M Unit} :
    wp G n (do
      let handle ← mintHandle p kind rights target
      minted p handle (done handle)) (Refuses s) Unasked s := by
  refine wp_bind.mpr (wp_mintHandle (fun _ => ?_) fun _ i hi _ _ => ?_)
  · unfold minted
    exact refuses_status looks_mintRefusal
  · rw [minted, if_neg (handleWord_ne_zero hi)]
    exact wp_accepted fun _ => rfl

theorem refuses_create {β : Type} {p rights : Nat} {q : QuotaKind} {kind : ObjType} {c : Column β} {free : β → Bool}
    {fill : Nat → M Unit} : wp G n (create p q (alloc c free) kind rights fill) (Refuses s) Unasked s := by
  refine wp_bind.mpr (looks_quotaRoom.wp fun room => ?_)
  cases room with
  | false => exact wp_pure.mpr .same
  | true =>
    refine wp_bind.mpr (wp_reads.mpr ?_)
    cases (c.get s).find free with
    | none => exact wp_pure.mpr .same
    | some slot => exact refuses_minted

/-- A check before a creation. -/
theorem refuses_after {m : M α} (hm : Looks m) {k : α → M SyscallResult}
    (hk : ∀ a, wp G n (k a) (Refuses s) Unasked s) : wp G n (m >>= k) (Refuses s) Unasked s :=
  wp_bind.mpr (hm.wp hk)

theorem refuses_fault {p : Nat} {r : FaultReason} : wp G n (faultProcess p r) (Refuses s) Unasked s :=
  looks_faultProcess.wp fun _ => .same

theorem refuses_eventCreate {p m : Nat} : wp G n (eventCreate p m) (Refuses s) Unasked s := by
  unfold eventCreate
  cases EventMode.ofRaw m with
  | none => exact refuses_fault
  | some mode => exact refuses_create

theorem refuses_interruptBind {p line : Nat} : wp G n (interruptBind p line) (Refuses s) Unasked s :=
  refuses_after (.whenever looks_faultProcess) fun _ => refuses_after looks_reads fun _ =>
    refuses_after (.whenever looks_faultProcess) fun _ => refuses_create

theorem refuses_threadCreate {p e sp a : Nat} : wp G n (threadCreate p e sp a) (Refuses s) Unasked s :=
  refuses_after looks_read fun _ => refuses_after (.whenever looks_faultProcess) fun _ => refuses_create

theorem refuses_memorySplit {p r len : Nat} : wp G n (memorySplit p r len) (Refuses s) Unasked s :=
  refuses_after looks_poolCanServe fun _ => refuses_after (.whenever looks_faultProcess) fun _ =>
    refuses_after (.whenever looks_faultProcess) fun _ => refuses_create

theorem refuses_iomemoryCarve {p r o len : Nat} : wp G n (iomemoryCarve p r o len) (Refuses s) Unasked s :=
  refuses_after looks_read fun _ => refuses_after (.whenever looks_faultProcess) fun _ =>
    refuses_after looks_addWord fun _ => refuses_after (.whenever looks_faultProcess) fun _ => refuses_create

theorem refuses_mintRow {p t b top base perms : Nat} {d : Bool} {r : Option Nat} :
    wp G n (mintRow p t b top base perms d r) (Refuses s) Unasked s := by
  refine wp_bind.mpr (wp_reads.mpr ?_)
  cases (mappings.get s).find (·.state = .free) with
  | none => exact wp_pure.mpr .same
  | some slot => exact refuses_minted

theorem refuses_installRow {p t base top perms : Nat} {d : Bool} {r : Option Nat} :
    wp G n (installRow p t base top perms d r) (Refuses s) Unasked s := by
  refine refuses_after looks_quotaRoom fun room => ?_
  cases room with
  | false => exact wp_pure.mpr .same
  | true =>
    refine refuses_after looks_read fun _ => refuses_after (.whenever looks_halt) fun _ => ?_
    refine refuses_after looks_freeUserVa fun va => wp_ite.mpr ⟨fun _ => wp_pure.mpr .same, fun _ => ?_⟩
    exact wp_ite.mpr ⟨fun _ => wp_pure.mpr .same, fun _ => refuses_mintRow⟩

theorem refuses_memoryMap {p rights slot h raw : Nat} : wp G n (memoryMap p rights slot h raw) (Refuses s) Unasked s :=
  refuses_after looks_mapTarget fun _ => refuses_after looks_mapAccess fun _ =>
    refuses_after (.whenever looks_require) fun _ => refuses_after looks_read fun _ =>
      refuses_after (.whenever looks_faultProcess) fun _ => refuses_after (.whenever looks_faultProcess) fun _ =>
        refuses_after looks_alignUpWord fun _ => refuses_after (.whenever looks_faultProcess) fun _ =>
          refuses_installRow

theorem refuses_iomemoryMap {p slot h : Nat} : wp G n (iomemoryMap p slot h) (Refuses s) Unasked s :=
  refuses_after looks_mapTarget fun _ => refuses_after looks_read fun _ =>
    refuses_after (.whenever looks_faultProcess) fun _ => refuses_after looks_addWord fun _ => refuses_installRow

theorem refuses_processCreate {p i m : Nat} : wp G n (processCreate p i m) (Refuses s) Unasked s := by
  refine refuses_after looks_memoryArg fun img => refuses_after looks_memoryArg fun dst => ?_
  refine refuses_after looks_read fun imgRegion => refuses_after looks_read fun dstRegion => ?_
  refine wp_ite.mpr ⟨fun _ => wp_pure.mpr .same, fun _ => refuses_after looks_reads fun bad => ?_⟩
  refine wp_ite.mpr ⟨fun _ => wp_pure.mpr .same, fun _ => refuses_after looks_reads fun free => ?_⟩
  cases free with
  | none => exact wp_pure.mpr .same
  | some slot => exact refuses_minted

/-! ### Connections

The second handle may be refused when the first is minted. -/

/-- An entry that was minted and unbound again has another generation, and no other trace of it is left. -/
theorem matches_unwound {p i rights target : Nat} {kind : ObjType} (hi : i < maxHandles)
    (free : ((s.processes.slot p).handles i).objType = .unbound) :
    wp G n (unbindHandle p i) (fun _ t => s.Matches t) Unasked (s.minted p i kind rights target) := by
  rw [unbindHandle, if_pos hi]
  refine wp_bind.mpr (wp_modifyProcess.mpr fun _ => wp_modifyProcess.mpr fun _ => ?_)
  simp only [K.minted, Slab.set_set, Slab.set_slot, if_true]
  refine .setProcess ⟨fun h => ?_, ?_⟩
  · by_cases here : h = i
    · subst here
      exact Or.inr
        ⟨free, by simp [ProcessSlot.setQuotaUsed, ProcessSlot.unbindAt, ProcessSlot.setHandle, HandleEntry.unbound]⟩
    · exact Or.inl
        (by simp [ProcessSlot.setQuotaUsed, ProcessSlot.unbindAt, ProcessSlot.mintAt, ProcessSlot.setHandle, here])
  · simp only [ProcessSlot.setQuotaUsed, ProcessSlot.unbindAt, ProcessSlot.mintAt, ProcessSlot.setHandle]
    congr 1
    funext k
    split
    · rename_i same
      simp [same]
    · rfl

/-- Both ends are minted, or what is left matches the state before. -/
theorem wp_mintEnds {p slot : Nat} {Q : Option (Nat × Nat) → K → Prop} (no : ∀ t, s.Matches t → Q none t)
    (yes : ∀ ends t, Q (some ends) t) : wp G n (mintEnds p slot) Q Unasked s := by
  refine wp_bind.mpr (wp_mintHandle (fun _ => ?_) fun _ i hi _ free => ?_)
  · exact wp_pure.mpr (no s (.refl s))
  rw [if_neg (handleWord_ne_zero hi)]
  refine wp_bind.mpr (wp_mintHandle (fun _ => ?_) fun _ j hj _ _ => ?_)
  · rw [if_pos rfl, handleWordIndex_handleWord hi]
    exact wp_bind.mpr ((matches_unwound hi free).imp fun _ t left => wp_pure.mpr (no t left))
  · rw [if_neg (handleWord_ne_zero hj)]
    exact wp_pure.mpr (yes _ _)

theorem refuses_pipeCreate {owner caller dst cap : Nat} :
    wp G n (pipeCreate owner caller dst cap) (Refuses s) Unasked s := by
  refine refuses_after (.whenever looks_faultProcess) fun _ => refuses_after looks_copyOutCheck fun _ => ?_
  refine refuses_after looks_refuse fun _ => refuses_after looks_quotaRoom fun room => ?_
  cases room with
  | false => exact wp_pure.mpr .same
  | true =>
    refine refuses_after looks_reads fun found => ?_
    cases found with
    | none => exact wp_pure.mpr .same
    | some slot =>
      refine wp_bind.mpr (wp_mintEnds (fun t left => ?_) fun ends t => ?_)
      · exact wp_bind.mpr (looks_mintRefusal.wp fun _ => wp_pure.mpr fun _ => left)
      · obtain ⟨inlet, outlet⟩ := ends
        simp only [← bind_assoc]
        exact wp_accepted fun _ => rfl

/-! ### Every creation -/

theorem refuses_processOp {p op rights q a b c : Nat} (creation : creates .process op = true) :
    wp G n (processOp p op rights q a b c) (Refuses s) Unasked s := by
  unfold processOp
  simp only [creates] at creation
  cases decoded : ProcessOp.ofRaw op with
  | none => exact refuses_fault
  | some kind =>
    rw [decoded] at creation
    cases kind with
    | threadCreate => exact refuses_after looks_require fun _ => refuses_threadCreate
    | eventCreate => exact refuses_after looks_require fun _ => refuses_eventCreate
    | waiterCreate => exact refuses_after looks_require fun _ => refuses_create
    | interruptBind => exact refuses_after looks_require fun _ => refuses_interruptBind
    | pipeCreate => exact refuses_after looks_require fun _ => refuses_pipeCreate
    | _ => cases creation

theorem refuses_systemOp {p op rights a b : Nat} (creation : creates .system op = true) :
    wp G n (systemOp p op rights a b) (Refuses s) Unasked s := by
  unfold systemOp
  simp only [creates] at creation
  cases decoded : SystemOp.ofRaw op with
  | none => exact refuses_fault
  | some kind =>
    rw [decoded] at creation
    cases kind with
    | processCreate => exact refuses_after looks_require fun _ => refuses_processCreate
    | _ => cases creation

theorem refuses_clockOp {p op rights c a b : Nat} (creation : creates .clock op = true) :
    wp G n (clockOp p op rights c a b) (Refuses s) Unasked s := by
  unfold clockOp
  simp only [creates] at creation
  cases decoded : ClockOp.ofRaw op with
  | none => exact refuses_fault
  | some kind =>
    rw [decoded] at creation
    cases kind with
    | timerCreate => exact refuses_after looks_require fun _ => refuses_create
    | now => cases creation

theorem refuses_memoryOp {p op rights r a b : Nat} : wp G n (memoryOp p op rights r a b) (Refuses s) Unasked s := by
  unfold memoryOp
  cases MemoryOp.ofRaw op with
  | none => exact refuses_fault
  | some kind =>
    cases kind with
    | split => exact refuses_after looks_require fun _ => refuses_memorySplit
    | map => exact refuses_after looks_require fun _ => refuses_memoryMap

theorem refuses_iomemoryOp {p op rights r a b : Nat} : wp G n (iomemoryOp p op rights r a b) (Refuses s) Unasked s := by
  unfold iomemoryOp
  cases IoMemoryOp.ofRaw op with
  | none => exact refuses_fault
  | some kind =>
    cases kind with
    | carve => exact refuses_after looks_require fun _ => refuses_iomemoryCarve
    | map => exact refuses_after looks_require fun _ => refuses_iomemoryMap

omit [Hal] in
/-- `releaseOp` and `mintOp` create nothing. -/
theorem creates_reserved {kind : ObjType} : creates kind releaseOp = false ∧ creates kind mintOp = false := by
  cases kind <;> exact ⟨rfl, rfl⟩

theorem refuses_objectOp {p handle op a b c : Nat} {entry : HandleEntry} (creation : creates entry.objType op = true) :
    wp G n (objectOp p handle op a b c entry) (Refuses s) Unasked s := by
  unfold objectOp
  cases kind : entry.objType <;> rw [kind] at creation
  case system => exact refuses_systemOp creation
  case process => exact refuses_processOp creation
  case clock => exact refuses_clockOp creation
  case memory => exact refuses_memoryOp
  case ioMemory => exact refuses_iomemoryOp
  all_goals cases creation

theorem refuses_dispatch {handle op a b c : Nat}
    (creation : ∀ p, Calls p s → creates ((s.processes.slot p).lookup handle).objType op = true) :
    wp G n (dispatch handle op a b c) (Refuses s) Unasked s := by
  refine wp_bind.mpr (Grounded.wp_callingProcess fun p calls =>
    wp_bind.mpr (wp_bind.mpr (wp_readProcess.mpr fun _ => ?_)))
  have creation := creation p calls
  refine wp_pure.mpr (wp_ite.mpr ⟨fun released => ?_, fun _ => wp_ite.mpr ⟨fun minted => ?_, fun _ => ?_⟩⟩)
  · rw [released, creates_reserved.1] at creation
    cases creation
  · rw [minted, creates_reserved.2] at creation
    cases creation
  · exact refuses_objectOp creation

/-- A creation that is answered with anything but `Ok` leaves the machine as it was before the call, but for the
    generation of an unbound entry. -/
theorem refused_creation_changes_nothing {p handle op a b c : Nat} {s' : K} {r : SyscallResult}
    {t : List Ev} (caller : Calls p s) (creation : creates ((s.processes.slot p).lookup handle).objType op = true)
    (ran : dispatch handle op a b c n s = .ok r s' t) (refused : r.status ≠ .ok) : s.Matches s' := by
  have every : ∀ q, Calls q s → creates ((s.processes.slot q).lookup handle).objType op = true := by
    intro q other
    have same : q = p := by
      unfold Calls at caller other
      split at caller <;> simp_all
    rwa [same]
  exact (refuses_dispatch every).ok ran refused

end

end

section
attribute [local instance] sampleBuild sampleTarget Riscv32.board

/-- The root's table has one entry left, and the root asks for a pipe. -/
def outOfEntries (s : K) : Bool :=
  s.currentThread == some 0 && decide (0 < s.threads.cap) && (s.threads.slot 0).process == rootProcess &&
    creates ((s.processes.slot rootProcess).lookup 2).objType 10 &&
    match dispatch 2 10 0x80200000 8 0 64 s with
    | .ok r s' _ => r.status == .noResource && ((s'.processes.slot rootProcess).handles 15).gen == 1
    | _ => false

/-- The root makes eight events and two waiters, and has one entry left: a pipe is refused when its first end is minted,
    and all that is left of that end is a generation. -/
theorem refused_creation_changes_nothing_pipe : ∃ (s s' : K) (r : SyscallResult) (t : List Ev), Reachable s ∧
    dispatch 2 10 0x80200000 8 0 64 s = .ok r s' t ∧ r.status = .noResource ∧ s.Matches s' ∧
    ((s'.processes.slot rootProcess).handles 15).gen = 1 := by
  obtain ⟨s, reached, found⟩ := reachable_of_played (G := fun _ => True) (c := outOfEntries)
    (i := List.replicate 8 (.call 2 4 0 0 0) ++ List.replicate 2 (.call 2 5 0 0 0)) (g := fun _ => true)
    (by decide +kernel)
    fun _ _ => trivial
  simp only [outOfEntries, Bool.and_eq_true, beq_iff_eq, decide_eq_true_eq] at found
  obtain ⟨⟨⟨⟨current, inCap⟩, process⟩, creation⟩, found⟩ := found
  have caller : Calls rootProcess s := by simp [Calls, current, inCap, process]
  rcases run : dispatch 2 10 0x80200000 8 0 64 s with ⟨r, s', t⟩ | ⟨s', t⟩ | ⟨w, t⟩ | t <;> rw [run] at found
  · simp only [Bool.and_eq_true, beq_iff_eq] at found
    have refused : r.status ≠ .ok := by simp [found.1]
    exact ⟨s, s', r, t, reached, run, found.1, refused_creation_changes_nothing caller creation run refused, found.2⟩
  all_goals cases found

end

end Sawos
