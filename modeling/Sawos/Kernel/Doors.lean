import Sawos.Kernel.Copies
import Sawos.Kernel.Tended
import Sawos.Kernel.Delivered
import Sawos.Kernel.Samples

/-! # Checked copy doors

A call that parks checks its buffers, and the kernel copies into them, or reads them again, later. In between other
threads map and unmap. The door to a buffer is the row in which it is found: the buffer stays open as long as that row
is not taken out. Which body a parked call has is read again, too, from memory that its process may write. -/

namespace Sawos
open Exec

/-- The addresses of a buffer; an empty one has the address it is at. -/
def InBuffer (addr len va : Nat) : Prop := addr ≤ va ∧ (va < addr + len ∨ va = addr)

section
variable {slot a b : ProcessSlot} {va i r : Nat}

/-- What row 0 has is found there. -/
theorem ProcessSlot.finds_first (some' : 0 < slot.grantCount) (memory : (slot.grants 0).device = false)
    (above : (slot.grants 0).base ≤ va) (below : va < (slot.grants 0).top) : slot.Finds va 0 :=
  ⟨some', GrantRow.covers_iff.mpr ⟨memory, above, below⟩, fun _ hj => absurd hj (Nat.not_lt_zero _)⟩

theorem ProcessSlot.Finds.push (h : slot.Finds va i) (row : GrantRow) : (slot.pushRow row).Finds va i := by
  obtain ⟨bound, covers, before⟩ := h
  have old : ∀ j ≤ i, (slot.pushRow row).grants j = slot.grants j := fun j hj => if_neg (by omega)
  refine ⟨Nat.lt_succ_of_lt bound, ?_, fun j hj => ?_⟩
  · rwa [old i (Nat.le_refl i)]
  · rw [old j (Nat.le_of_lt hj)]
    exact before j hj

/-- Where row `i` is after row `r` was taken out. -/
def ProcessSlot.shifted (r i : Nat) : Nat := if r < i then i - 1 else i

theorem ProcessSlot.shifted_grants (other : r ≠ i) (there : i < slot.grantCount) :
    (slot.dropRow r).grants (ProcessSlot.shifted r i) = slot.grants i := by
  unfold ProcessSlot.shifted
  rcases Nat.lt_or_gt_of_ne other with less | more
  · rw [if_pos less]
    refine (if_pos ⟨by omega, by omega⟩ : (slot.dropRow r).grants (i - 1) = slot.grants (i - 1 + 1)).trans ?_
    rw [Nat.sub_add_cancel (by omega)]
  · rw [if_neg (by omega)]
    exact if_neg (by omega)

/-- Taking another row out leaves the row that an address is found in, at its place or one further down. -/
theorem ProcessSlot.Finds.drop (h : slot.Finds va i) (other : r ≠ i) (bound : r < slot.grantCount) :
    (slot.dropRow r).Finds va (ProcessSlot.shifted r i) := by
  obtain ⟨there, covers, before⟩ := h
  refine ⟨?_, (ProcessSlot.shifted_grants other there).symm ▸ covers, fun j hj => ?_⟩
  · show _ < slot.grantCount - 1
    unfold ProcessSlot.shifted
    split <;> omega
  · unfold ProcessSlot.shifted at hj
    by_cases low : j < r
    · rw [show (slot.dropRow r).grants j = slot.grants j from if_neg (by omega)]
      refine before j ?_
      split at hj <;> omega
    · split at hj
      · rw [show (slot.dropRow r).grants j = slot.grants (j + 1) from if_pos ⟨by omega, by omega⟩]
        exact before (j + 1) (by omega)
      · omega

end

section
variable [Hal]

/-! ### What stays of a door -/

section
variable {G : Ev → Prop} {n p : Nat} {s : K}

/-- The buffer is in a row of the process that is `row`, and the windows of the process are those of `w`. -/
structure Standing (addr len : Nat) (row : GrantRow) (w a : ProcessSlot) : Prop where
  lives : a.Lives
  window : a.regionBase = w.regionBase ∧ a.regionTop = w.regionTop ∧ a.rwBase = w.rwBase ∧ a.rwTop = w.rwTop
  found : ∃ i, a.grants i = row ∧ ∀ va, InBuffer addr len va → a.Finds va i

/-- The process of the buffer is not ended, and the row that has the buffer not taken out. -/
def Spared (p addr : Nat) : Ev → Prop
  | .mark (.ends q) _ => q ≠ p
  | .mark (.revoke q r) s => q = p → ¬(s.processes.slot p).Finds addr r
  | _ => True

omit [Hal] in
theorem inBuffer_start {addr len : Nat} : InBuffer addr len addr := ⟨Nat.le_refl _, Or.inr rfl⟩

theorem standing_tends {p addr len : Nat} {row : GrantRow} {w : ProcessSlot} :
    Tends (Spared p addr) fun q a => q = p → Standing addr len row w a where
  same q a b same h own := by
    obtain ⟨lives, ⟨base, top, rwBase, rwTop⟩, i, there, found⟩ := h own
    obtain ⟨base', top', rwBase', rwTop'⟩ := same.window
    refine ⟨same.lives.mp lives,
      ⟨base'.symm.trans base, top'.symm.trans top, rwBase'.symm.trans rwBase, rwTop'.symm.trans rwTop⟩,
      i, same.rows ▸ there, fun va inside => (found va inside).same same.count same.rows⟩
  push q a row' _ _ h own := by
    obtain ⟨lives, window, i, there, found⟩ := h own
    have bound := (found addr inBuffer_start).1
    refine ⟨lives, window, i, (if_neg (Nat.ne_of_lt bound)).trans there, fun va inside => (found va inside).push row'⟩
  drop s q r _ _ bound good h own := by
    obtain ⟨lives, window, i, there, found⟩ := h own
    have here := found addr inBuffer_start
    have other : r ≠ i := by
      rintro rfl
      exact good own (own ▸ here)
    exact ⟨lives, window, _, (ProcessSlot.shifted_grants other here.1).trans there,
      fun va inside => (found va inside).drop other bound⟩
  dead q a b dead _ h own := absurd (h own).lives dead
  ends s q b good _ _ own := absurd own good
  place n q img dest region s free _ h A := by
    by_cases own : q = p
    · exact absurd free (h own).lives.1
    · have any : Keeps (Spared p addr) n A (fun _ => True) (placeImage q img dest region) :=
        (Bedrock.true fun _ _ => trivial).serviced.placeImage fun _ _ _ _ _ _ =>
          keeps_true (fun _ _ => trivial) (by simp +decide)
      exact (any s trivial).imp fun _ _ _ b _ same => absurd same own

/-- Nothing is asked of any record. -/
theorem tends_true : Tends G fun _ _ => True where
  same _ _ _ _ := id
  push _ _ _ _ _ := id
  drop _ _ _ _ _ _ _ := id
  dead _ _ _ _ _ := id
  ends _ _ _ _ _ := id
  place n p img dest region s _ _ _ A := by
    have any : Keeps G n A (fun _ => True) (placeImage p img dest region) :=
      (Bedrock.true fun _ _ => trivial).serviced.placeImage fun _ _ _ _ _ _ =>
        keeps_true (fun _ _ => trivial) (by simp +decide)
    exact (any s trivial).imp fun _ _ _ _ _ => trivial

/-- The record of a process has the buffer in its row `j`, from a run's state on. -/
theorem Standing.ahead {p addr len i : Nat} {t : K} {h : List Ev} (reached : Reachable s)
    (whole : ∀ va, InBuffer addr len va → (s.processes.slot p).Finds va i) (ahead : machine.Ahead s t h)
    (spared : ∀ e ∈ h, Spared p addr e) :
    p < t.processes.cap ∧ Standing addr len ((s.processes.slot p).grants i) (s.processes.slot p)
      (t.processes.slot p) := by
  obtain ⟨owned, tended⟩ := Tended.reachable tends_true (fun _ => trivial) reached
  have here := (whole addr inBuffer_start).1
  have lives : (s.processes.slot p).Lives := by
    refine Classical.byContradiction fun dead => ?_
    have bare := tended.vacant p (by simp) dead
    omega
  have now : Owned none s ∧
    Tended (fun q a => q = p → Standing addr len ((s.processes.slot p).grants i) (s.processes.slot p) a) none s := by
    refine ⟨owned, tended.toNamed, tended.behind, tended.image, tended.vacant, tended.beyond, fun q _ own => ?_,
      fun q hq => by cases hq⟩
    subst own
    exact ⟨lives, ⟨rfl, rfl, rfl, rfl⟩, i, rfl, whole⟩
  have then_ := ahead.ofPrograms spared now fun _ _ => (Tended.grounded standing_tends).act fun _ => mortal_any
  have stands := then_.2.holds p (by simp) rfl
  refine ⟨Nat.lt_of_not_le fun beyond => (then_.2.beyond p beyond).1 stands.lives, stands⟩

/-! ### What copies through a door -/

/-- The copies of a reply: its words, and its body behind them. -/
def copyReply (p dst bodyLen : Nat) (moved : StagedHandles) (body : List UInt8) : M Unit := do
  let refused ← copyOut p dst (msgPrefix bodyLen moved)
  whenever refused.isSome (halt .fatalDoor)
  whenever (bodyLen ≠ 0) do
    let refused ← copyOut p (← addWord dst pipeMsgBodyOffset) body
    whenever refused.isSome (halt .fatalDoor)

/-- `answerCallReply`, with its copies as a program of their own. -/
def answering (t x : Nat) : M SyscallResult := do
  let thread ← threads.read t
  let answer ← waitableAnswer .pipeReply x
  if answer.payload = replyLevelData then
    if ← tableRoom thread.process (← stagedCount x) then
      let moved ← mintStaged x thread.process
      copyReply thread.process thread.waitBuf answer.bodyLen moved answer.body
      return opValue answer.bodyLen
    else
      return opStatus (← mintRefusal thread.process)
  else
    return opStatus .peerClosed

theorem answerCallReply_eq {t x : Nat} : Cascade.answerCallReply unrefObject t x = answering t x := by
  unfold Cascade.answerCallReply answering
  refine congrArg _ (funext fun thread => congrArg _ (funext fun answer => ?_))
  refine if_congr Iff.rfl (congrArg _ (funext fun count => congrArg _ (funext fun room => ?_))) rfl
  cases room with
  | false => rfl
  | true =>
    rw [if_pos rfl, if_pos rfl]
    exact congrArg _ (funext fun moved => (bind_then fun _ => bind_then fun _ => rfl).symm)

/-- The record of a parked call and its body, read again. -/
def rereadCall (p x src len : Nat) : M PipeSendRecord := do
  match ← copyIn p src len with
  | .error _ => halt .fatalDoor
  | .ok bytes =>
    let args := PipeSendRecord.ofBytes bytes
    let refused ← fillBody p x args
    whenever refused.isSome (halt .fatalDoor)
    return args

/-- `resumeCallRoom`, with what it reads again as a program of its own. -/
def resuming (t c : Nat) : M Bool := do
  let thread ← threads.read t
  if (← pipes.read c).outletRefs = 0 then
    clearPendingCall t
    writeResult t (opStatus .peerClosed)
    makeRunnable t
    return true
  else
    match ← allocExchange c with
    | none => return false
    | some x =>
      let args ← rereadCall thread.process x thread.callSrc thread.callLen
      Cascade.stageMessage unrefObject thread.process c x args
      tieCallReply t x thread.waitBuf
      Cascade.notifyReady unrefObject .pipeOutlet c
      return true

theorem resumeCallRoom_eq {t c : Nat} : Cascade.resumeCallRoom unrefObject t c = resuming t c := by
  unfold Cascade.resumeCallRoom resuming
  refine congrArg _ (funext fun thread => congrArg _ (funext fun pipe => ?_))
  refine if_congr Iff.rfl rfl (congrArg _ (funext fun found => ?_))
  cases found with
  | none => rfl
  | some x =>
    refine (bind_then fun data => ?_).symm
    cases data with
    | error why => rfl
    | ok bytes => exact bind_then fun _ => bind_then fun _ => pure_then

/-- The out door of `p` to a buffer is open by row `j`: the buffer passes the check, every copy into it is made at the
    place that the row has it, and a record or a reply is delivered; a physical address that is no machine word stops
    the machine. -/
structure OpenOut (s : K) (p addr len j : Nat) : Prop where
  row : j < (s.processes.slot p).grantCount
  inside : ((s.processes.slot p).grants j).base ≤ addr ∧ addr + len ≤ ((s.processes.slot p).grants j).top
  checks : ∀ n, Lands n (copyOutCheck p addr len) (fun r t => r = none ∧ t = s) s
  copies : ∀ n va (data : List UInt8), InBuffer addr len va → va + data.length ≤ addr + len → va % wordBytes = 0 →
    LandsOr (· = .panic) n (copyOut p va data) (fun r t => r = none ∧
      t = { s with mem := storeBytes s.mem ((s.processes.slot p).physOf j va) data }) s
  delivers : Sos.Profiled → len = waitRecordBytes → ∀ n rec body, rec.Formed body →
    LandsOr (· = .panic) n (deliverWaitRecord p addr rec body) (fun _ _ => True) s
  replies : Sos.Profiled → len = pipeMsgRecordBytes → ∀ n (moved : StagedHandles) (body : List UInt8),
    moved.length = pipeMsgHandles →
    body.length ≤ pipeBodyBytes → LandsOr (· = .panic) n (copyReply p addr body.length moved body) (fun _ _ => True) s
  answers : ∀ t x, Cascade.answerCallReply unrefObject t x = answering t x

/-- The in door of `p` to a buffer is open by row `j`. -/
structure OpenIn (s : K) (p addr len j : Nat) : Prop where
  row : j < (s.processes.slot p).grantCount
  inside : ((s.processes.slot p).grants j).base ≤ addr ∧ addr + len ≤ ((s.processes.slot p).grants j).top
  checks : ∀ n, Lands n (copyInCheck p addr len) (fun r t => r = none ∧ t = s) s
  copies : ∀ n va bytes, InBuffer addr len va → va + bytes ≤ addr + len → va % wordBytes = 0 →
    LandsOr (· = .panic) n (copyIn p va bytes)
      (fun r t => r = .ok (loadBytes s.mem ((s.processes.slot p).physOf j va) bytes) ∧ t = s) s
  resumes : ∀ t c, Cascade.resumeCallRoom unrefObject t c = resuming t c

/-- The record that row `j` has at `addr` names the body of `bytes` bytes at `body`. -/
def NamesBody (s : K) (p j addr len body bytes : Nat) : Prop :=
  let args := PipeSendRecord.ofBytes (loadBytes s.mem ((s.processes.slot p).physOf j addr) len)
  args.body = body ∧ args.len = bytes

/-- The row that has every address of a buffer has it to its end. -/
theorem Reaches.ofBuffer {addr len j va bytes : Nat}
    (found : ∀ va, InBuffer addr len va → (s.processes.slot p).Finds va j)
    (inside : InBuffer addr len va) (fits : va + bytes ≤ addr + len) : Reaches s p va bytes j := by
  refine ⟨found va inside, ?_⟩
  have start := GrantRow.covers_iff.mp (found va inside).2.1
  by_cases empty : bytes = 0
  · omega
  · have last := GrantRow.covers_iff.mp (found (va + bytes - 1) ⟨by have := inside.1; omega, Or.inl (by omega)⟩).2.1
    omega

theorem Admits.ofBuffer {addr len low high i j va bytes : Nat} {t : K} (h : Admits t p low high addr len i)
    (found : ∀ va, InBuffer addr len va → (s.processes.slot p).Finds va j) (inside : InBuffer addr len va)
    (fits : va + bytes ≤ addr + len) (aligned : va % wordBytes = 0) : Admits s p low high va bytes j := by
  obtain ⟨-, -, above, below, room⟩ := h
  refine ⟨.ofBuffer found inside fits, aligned, Nat.le_trans above inside.1, ?_, by omega⟩
  rcases inside.2 with within | start
  · omega
  · exact start ▸ below

/-- Copies into memory leave what the door sees. -/
theorem Admits.stored {low high i va bytes : Nat} {mem : Nat → UInt8} (h : Admits s p low high va bytes i) :
    Admits { s with mem := mem } p low high va bytes i := ⟨⟨h.found, h.inside⟩, h.aligned, h.above, h.below⟩

theorem pipeMsgBodyOffset_aligned (profiled : Sos.Profiled) : pipeMsgBodyOffset % wordBytes = 0 := by
  unfold pipeMsgBodyOffset
  rcases profiled.wordBytes with width | width <;> rw [width] <;> rfl

theorem waitPrefixBytes_aligned (profiled : Sos.Profiled) : waitPrefixBytes % wordBytes = 0 := by
  unfold waitPrefixBytes waitMetaEndBytes waitHandleSlots
  rcases profiled.wordBytes with width | width <;> rw [width] <;> rfl

section
variable {addr len j : Nat} (hp : p < s.processes.cap)
  (found : ∀ va, InBuffer addr len va → (s.processes.slot p).Finds va j)
include hp found

/-- A copy to the start of a buffer, and one of a body behind it. -/
theorem landsOr_pieces (admits : Admits s p (s.processes.slot p).rwBase (s.processes.slot p).rwTop addr len j)
    {off : Nat} {fixed body : List UInt8} {again : Bool} (head : fixed.length ≤ len) (aligned : off % wordBytes = 0)
    (room : again = true → body.length ≠ 0 ∧ off + body.length ≤ len) :
    LandsOr (· = .panic) n (do
      let refused ← copyOut p addr fixed
      whenever refused.isSome (halt .fatalDoor)
      whenever again do
        let refused ← copyOut p (← addWord addr off) body
        whenever refused.isSome (halt .fatalDoor)) (fun _ _ => True) s := by
  refine landsOr_bind
    (landsOr_copyOut hp (admits.ofBuffer found inBuffer_start (by omega) admits.aligned) (fun _ => rfl) ?_)
  refine landsOr_bind
    (landsOr_whenever (fun refused => by cases refused) fun _ => landsOr_whenever (fun more => ?_) fun _ => trivial)
  obtain ⟨some', fits⟩ := room more
  have behind : InBuffer addr len (addr + off) := ⟨Nat.le_add_right _ _, Or.inl (by omega)⟩
  have aligned : (addr + off) % wordBytes = 0 := by
    rw [Nat.add_mod, admits.aligned, aligned]
    rfl
  refine landsOr_bind (landsOr_addWord (fun _ => rfl) (landsOr_bind ?_))
  refine landsOr_copyOut hp (admits.ofBuffer found behind (by omega) aligned).stored (fun _ => rfl) ?_
  exact landsOr_whenever (fun refused => by cases refused) fun _ => trivial

theorem OpenOut.of (fits : (s.processes.slot p).physOf j addr < wordModulus)
    (admits : Admits s p (s.processes.slot p).rwBase (s.processes.slot p).rwTop addr len j) :
      OpenOut s p addr len j := by
  refine ⟨admits.found.1, ⟨(GrantRow.covers_iff.mp admits.found.2.1).2.1, admits.inside⟩, fun n => ?_,
    fun n va data inside room aligned => landsOr_copyOut hp (admits.ofBuffer found inside room aligned)
      (fun _ => rfl) ⟨rfl, rfl⟩,
    fun profiled size n rec body formed => ?_, fun profiled size n moved body four short => ?_,
    fun _ _ => answerCallReply_eq⟩
  · refine LandsOr.lands
      (landsOr_bind (landsOr_readProcess hp (landsOr_copyCheck hp admits (fun long => ?_) ⟨rfl, rfl⟩)))
    exact absurd fits (Nat.not_lt.mpr long)
  · obtain ⟨head, bytes, whole⟩ := formed.length
    have fixed : (if rec.carries then rec.bytes else rec.bytes.take waitMetaEndBytes).length ≤ waitPrefixBytes := by
      split
      · exact Nat.le_of_eq whole
      · rw [List.length_take]
        omega
    have room : waitPrefixBytes + body.length ≤ len := by
      rw [size, waitRecordBytes, formed.body]
      exact Nat.add_le_add_left formed.len _
    refine landsOr_pieces hp found admits (by omega) (waitPrefixBytes_aligned profiled) fun more => ⟨?_, room⟩
    rw [formed.body]
    simpa using more
  · have fixed : (msgPrefix body.length moved).length = pipeMsgBodyOffset := length_msgPrefix four
    have room : pipeMsgBodyOffset + body.length ≤ len := by
      rw [size, pipeMsgRecordBytes]
      exact Nat.add_le_add_left short _
    exact landsOr_pieces hp found admits (by omega) (pipeMsgBodyOffset_aligned profiled) fun more =>
      ⟨by simpa using more, room⟩

theorem OpenIn.of (fits : (s.processes.slot p).physOf j addr < wordModulus)
    (admits : Admits s p (s.processes.slot p).regionBase (s.processes.slot p).regionTop addr len j) :
    OpenIn s p addr len j := by
  refine ⟨admits.found.1, ⟨(GrantRow.covers_iff.mp admits.found.2.1).2.1, admits.inside⟩, fun n => ?_,
    fun n va bytes inside room aligned => landsOr_copyIn hp (admits.ofBuffer found inside room aligned)
      (fun _ => rfl) ⟨rfl, rfl⟩,
    fun _ _ => resumeCallRoom_eq⟩
  refine LandsOr.lands (landsOr_bind (landsOr_readProcess hp (landsOr_copyCheck hp admits (fun long => ?_) ⟨rfl, rfl⟩)))
  exact absurd fits (Nat.not_lt.mpr long)

end

/-! ### What was checked is open -/

/-- The out door of `p` lets a buffer pass. -/
def PassesOut (s : K) (p addr len : Nat) : Prop := ∃ n, Lands n (copyOutCheck p addr len) (fun r _ => r = none) s

/-- The in door does. -/
def PassesIn (s : K) (p addr len : Nat) : Prop := ∃ n, Lands n (copyInCheck p addr len) (fun r _ => r = none) s

/-- A check that returns nothing found the row of the buffer. -/
theorem PassesOut.admits {addr len : Nat} (h : PassesOut s p addr len) :
    ∃ i, Admits s p (s.processes.slot p).rwBase (s.processes.slot p).rwTop addr len i ∧
      (s.processes.slot p).physOf i addr < wordModulus := by
  obtain ⟨n, _, t, tr, run, rfl⟩ := h
  let Q : Option FaultReason → K → Prop := fun r _ => r = none →
    ∃ i, Admits s p (s.processes.slot p).rwBase (s.processes.slot p).rwTop addr len i ∧
      (s.processes.slot p).physOf i addr < wordModulus
  exact (wp_copyOutCheck (A := .stays) (Q := Q) (fun _ h => by cases h) fun _ i admits fits _ =>
    ⟨i, admits, fits⟩).ok run rfl

theorem PassesIn.admits {addr len : Nat} (h : PassesIn s p addr len) :
    ∃ i, Admits s p (s.processes.slot p).regionBase (s.processes.slot p).regionTop addr len i ∧
      (s.processes.slot p).physOf i addr < wordModulus := by
  obtain ⟨n, _, t, tr, run, rfl⟩ := h
  let Q : Option FaultReason → K → Prop := fun r _ => r = none →
    ∃ i, Admits s p (s.processes.slot p).regionBase (s.processes.slot p).regionTop addr len i ∧
      (s.processes.slot p).physOf i addr < wordModulus
  exact (wp_copyInCheck (A := .stays) (Q := Q) (fun _ h => by cases h) fun _ i admits fits _ =>
    ⟨i, admits, fits⟩).ok run rfl

/-- All of a buffer is in row `i`, and in a run from there its process is not ended and the row not taken out. -/
structure Guarded (s : K) (h : List Ev) (p addr len i : Nat) : Prop where
  whole : ∀ va, InBuffer addr len va → (s.processes.slot p).Finds va i
  spared : ∀ e ∈ h, Spared p addr e

/-- What a door is read off. -/
def doorParts : List Part := [.process .grants, .process .image, .machine .slabs]

/-- The row `i` that had a buffer in `s` is row `j` in `u`, and the windows are what they were. -/
structure Doorway (s u : K) (p addr len i j : Nat) : Prop where
  there : p < u.processes.cap
  base : (u.processes.slot p).regionBase = (s.processes.slot p).regionBase
  top : (u.processes.slot p).regionTop = (s.processes.slot p).regionTop
  rwBase : (u.processes.slot p).rwBase = (s.processes.slot p).rwBase
  rwTop : (u.processes.slot p).rwTop = (s.processes.slot p).rwTop
  row : (u.processes.slot p).grants j = (s.processes.slot p).grants i
  found : ∀ va, InBuffer addr len va → (u.processes.slot p).Finds va j

section
variable {addr len i j : Nat} {t u : K} {h : List Ev}

theorem Guarded.doorway (guarded : Guarded s h p addr len i) (reached : Reachable s) (ahead : machine.Ahead s t h) :
    ∃ j, ∀ u, Agree doorParts t u → Doorway s u p addr len i j := by
  obtain ⟨hp, -, ⟨base, top, rwBase, rwTop⟩, j, there, found⟩ :=
    Standing.ahead reached guarded.whole ahead guarded.spared
  refine ⟨j, fun u same => ?_⟩
  obtain ⟨count, rows, -⟩ := same (.process .grants) (by decide) p
  obtain ⟨-, -, base', top', rwBase', rwTop'⟩ := same (.process .image) (by decide) p
  have shape : t.shape = u.shape := same (.machine .slabs) (by decide)
  simp only [K.shape, List.cons.injEq, Prod.mk.injEq] at shape
  exact ⟨shape.1.1 ▸ hp, base'.symm.trans base, top'.symm.trans top, rwBase'.symm.trans rwBase, rwTop'.symm.trans rwTop,
    rows ▸ there, fun va inside => (found va inside).same count rows⟩

variable (way : Doorway s u p addr len i j) (whole : ∀ va, InBuffer addr len va → (s.processes.slot p).Finds va i)
include way

theorem Doorway.phys : (u.processes.slot p).physOf j addr = (s.processes.slot p).physOf i addr := by
  rw [ProcessSlot.physOf, ProcessSlot.physOf, way.row]

/-- A check that was passed is passed by the row that has the buffer now. -/
theorem Doorway.admits {low high : Nat} (passed : Admits s p low high addr len i) : Admits u p low high addr len j := by
  obtain ⟨⟨-, inside⟩, aligned, above, below⟩ := passed
  refine ⟨⟨way.found addr inBuffer_start, ?_⟩, aligned, above, below⟩
  rwa [way.row]

include whole

theorem Doorway.opensOut (passed : PassesOut s p addr len) : OpenOut u p addr len j := by
  obtain ⟨i', admits, fits⟩ := passed.admits
  obtain rfl := admits.found.unique (whole addr inBuffer_start)
  refine .of way.there way.found (way.phys ▸ fits) ?_
  rw [way.rwBase, way.rwTop]
  exact way.admits admits

theorem Doorway.admitsIn (passed : PassesIn s p addr len) :
    Admits u p (u.processes.slot p).regionBase (u.processes.slot p).regionTop addr len j ∧
      (u.processes.slot p).physOf j addr < wordModulus := by
  obtain ⟨i', admits, fits⟩ := passed.admits
  obtain rfl := admits.found.unique (whole addr inBuffer_start)
  rw [way.base, way.top]
  exact ⟨way.admits admits, way.phys ▸ fits⟩

end

/-- The body of a message that the door admits is copied to its exchange. -/
theorem landsOr_fillBody {x j : Nat} {args : PipeSendRecord} (hp : p < s.processes.cap)
    (short : args.len ≤ pipeBodyBytes)
    (admits : args.len ≠ 0 →
      Admits s p (s.processes.slot p).regionBase (s.processes.slot p).regionTop args.body args.len j) :
    LandsOr (· = .panic) n (fillBody p x args) (fun refused _ => refused = none) s := by
  unfold fillBody
  by_cases empty : args.len = 0
  · rw [if_pos empty]
    exact Or.inl (lands_pure rfl)
  rw [if_neg empty]
  refine landsOr_bind
    (landsOr_copyIn hp (admits empty) (fun _ => rfl) (landsOr_bind (landsOr_whenever (fun long => ?_) fun _ => ?_)))
  · simp only [loadBytes, List.length_map, List.length_range, decide_eq_true_eq] at long
    omega
  · refine landsOr_bind (landsOr_bind (lands_reads ?_).or)
    by_cases there : x < (exchanges.get s).cap
    · rw [if_pos there]
      exact (lands_modifies (lands_pure (Q := fun refused _ => refused = none) rfl).or).or
    · rw [if_neg there]
      exact landsOr_halt rfl

/-- A record that names a body which the door admits is read again. -/
theorem landsOr_rereadCall {addr len j b l k x : Nat} (hp : p < s.processes.cap)
    (record : Admits s p (s.processes.slot p).regionBase (s.processes.slot p).regionTop addr len j)
    (names : NamesBody s p j addr len b l) (short : l ≤ pipeBodyBytes)
    (body : l ≠ 0 → Admits s p (s.processes.slot p).regionBase (s.processes.slot p).regionTop b l k) :
    LandsOr (· = .panic) n (rereadCall p x addr len) (fun args _ => args.body = b ∧ args.len = l) s := by
  obtain ⟨rfl, rfl⟩ := names
  refine landsOr_bind (landsOr_copyIn hp record (fun _ => rfl) (landsOr_bind ((landsOr_fillBody hp short body).imp ?_)))
  rintro _ t rfl
  exact landsOr_bind (landsOr_whenever (fun refused => by cases refused) fun _ => (lands_pure ⟨rfl, rfl⟩).or)

end

end

section

attribute [local instance] pairBuild sampleTarget Riscv32.board

/-- A check is passed. -/
def letsPass (check : M (Option FaultReason)) (s : K) : Bool :=
  match check 64 s with
  | .ok none _ _ => true
  | _ => false

theorem lands_of_letsPass {check : M (Option FaultReason)} {s : K} (h : letsPass check s = true) :
    Lands 64 check (fun r _ => r = none) s := by
  unfold letsPass at h
  split at h
  · exact ⟨_, _, _, ‹_›, rfl⟩
  · cases h

/-- A check is not passed. -/
def turnsAway (check : M (Option FaultReason)) (s : K) : Bool :=
  match check 64 s with
  | .ok (some _) _ _ => true
  | _ => false

theorem lands_of_turnsAway {check : M (Option FaultReason)} {s : K} (h : turnsAway check s = true) :
    Lands 64 check (fun r _ => r ≠ none) s := by
  unfold turnsAway at h
  split at h
  · exact ⟨_, _, _, ‹_›, fun no => by cases no⟩
  · cases h

def endsProcess (p : Nat) : Ev → Bool
  | .mark (.ends q) _ => decide (q = p)
  | _ => false

/-- The root makes a child, maps memory for it above its image, makes it a Waiter and a line, and starts it; the child
    adds the line to the Waiter. -/
def childListens : List Stimulus :=
  [.call 1 4 4 5 0, .call 5 1 6 3 0, .call 6 5 0 0 0, .call 6 6 10 0 0, .call 6 7 0 0 0,
    .call 3 3 0 0 0, .call 1 0 2 1 0]

/-- The child waits with a buffer, and the root unmaps what it had mapped for it. -/
def rootUnmaps (buffer : Nat) : List Stimulus := [.call 1 2 buffer 256 0, .call 7 0 0 0 0]

/-- What a run must spare, as a test. -/
def sparesTest (p addr : Nat) : Ev → Bool
  | .mark (.ends q) _ => decide (q ≠ p)
  | .mark (.revoke q r) s => decide (q = p → ¬(s.processes.slot p).Finds addr r)
  | _ => true

theorem spared_of_test {p addr : Nat} {e : Ev} (h : sparesTest p addr e = true) : Spared p addr e := by
  cases e with
  | mark point u =>
    cases point with
    | ends q => exact (of_decide_eq_true h : q ≠ p)
    | revoke q r => exact (of_decide_eq_true h : q = p → ¬(u.processes.slot p).Finds addr r)
    | _ => trivial
  | _ => trivial

/-- The root makes a child with a connection, and maps memory for it; the child writes a record, with three bytes as its
    body, and posts it, giving the claim away, until there is no more room. -/
def childPosts : List Stimulus :=
  [.call 1 4 4 5 0, .call 5 1 6 3 0, .call 6 10 0x80200700 8 0, .call 6 7 0 0 0, .call 3 3 0 0 0] ++
    storesBytes 0x80500500 [0, 6, 0x50, 0x80, 3] ++ storesBytes 0x80500600 [1, 2, 3] ++
    (List.range pipeInflight).flatMap fun i => [.call 1 0 0x80500500 24 0, .call (handleWord 2 i) releaseOp 0 0 0]

/-- The child calls with the same record, and the root unmaps what it had mapped for it. -/
def childCalls : List Stimulus := [.call 1 1 0x80500500 24 0x80500700, .call 7 0 0 0 0]

/-- The record that the first row has names the three bytes. -/
def namesThree (s t : K) : Bool :=
  let args := PipeSendRecord.ofBytes (loadBytes t.mem ((s.processes.slot 1).physOf 0 0x80500500) 24)
  decide (args.body = 0x80500600 ∧ args.len = 3)

end

end Sawos
