import Sawos.Kernel.State

/-! # Handle tables, quotas, the memory pool and connections -/

namespace Sawos
open Exec Spans

variable [Hal]

/-- The first free slot of a slab. -/
def alloc {α : Type} (c : Column α) (free : α → Bool) : M (Option Nat) := reads fun s => (c.get s).find free

/-! ### Quotas -/

def quotaRoom (p : Nat) (kind : QuotaKind) : M Bool := do
  let slot ← processes.read p
  return slot.quotaLimit kind = quotaUnlimited || slot.quotaUsed kind < slot.quotaLimit kind

def quotaRoomFor (p : Nat) (kind : QuotaKind) (n : Nat) : M Bool := do
  let slot ← processes.read p
  return slot.quotaLimit kind = quotaUnlimited || slot.quotaUsed kind + n ≤ slot.quotaLimit kind

def ProcessSlot.setQuotaUsed (slot : ProcessSlot) (kind : QuotaKind) (v : Nat) : ProcessSlot :=
  { slot with quotaUsed := fun k => if k = kind then v else slot.quotaUsed k }

def quotaCharge (p : Nat) (kind : QuotaKind) : M Unit := do
  let spent ← bump ((← processes.read p).quotaUsed kind)
  processes.modify p (·.setQuotaUsed kind spent)

def quotaCredit (p : Nat) (kind : QuotaKind) : M Unit :=
  processes.modify p fun slot => slot.setQuotaUsed kind (slot.quotaUsed kind - 1)

def quotaClear (p : Nat) : M Unit :=
  processes.modify p fun slot => { slot with quotaUsed := fun _ => 0, quotaLimit := fun _ => 0 }

def defaultQuota : QuotaKind → Nat
  | .thread => 4
  | .event => 4
  | .waiter => 2
  | .interrupt => 2
  | .timer => 4
  | .memory => 4
  | .ioMemory => 2
  | .mapping => 2
  | .handle => 12
  | .pipe => 2

def installQuotaLimits (p : Nat) (root : Bool) (freeRows : Nat) : M Unit :=
  processes.modify p fun slot =>
    { slot with
      quotaUsed := fun _ => 0
      quotaLimit := fun kind =>
        if kind = .mapping then min (if root then maxMappings else defaultQuota .mapping) freeRows
        else if root then quotaUnlimited else defaultQuota kind }

def mintRefusal (p : Nat) : M SosStatus := do
  return if ← quotaRoom p .handle then .noResource else .quotaExceeded

/-! ### Handle tables -/

def handleWordIndex (word : Nat) : Nat :=
  let byte := word &&& handleIndexMask
  if byte = 0 then maxHandles else byte - 1

def handleWordGeneration (word : Nat) : Nat := word >>> handleIndexBits

def handleWord (index gen : Nat) : Nat := gen <<< handleIndexBits ||| (index + 1)

def ProcessSlot.setHandle (slot : ProcessSlot) (h : Nat) (entry : HandleEntry) : ProcessSlot :=
  { slot with handles := fun j => if j = h then entry else slot.handles j }

def ProcessSlot.mintAt (slot : ProcessSlot) (h : Nat) (kind : ObjType) (rights target : Nat) : ProcessSlot :=
  { slot.setHandle h ⟨kind, rights, target, (slot.handles h).gen⟩ with
    history := .mint h (slot.handles h).gen :: slot.history }

def ProcessSlot.unbindAt (slot : ProcessSlot) (h : Nat) : ProcessSlot :=
  { slot.setHandle h (.unbound (((slot.handles h).gen + 1) % handleGenerationModulus)) with
    history := .unbind h :: slot.history }

/-- What the word `h` names in a table, an unbound entry when it names nothing. -/
def ProcessSlot.lookup (slot : ProcessSlot) (h : Nat) : HandleEntry :=
  let index := handleWordIndex h
  if maxHandles ≤ index then .unbound 0
  else
    let entry := slot.handles index
    if entry.objType = .unbound then .unbound 0
    else if entry.gen ≠ handleWordGeneration h then .unbound 0
    else entry

def lookupHandle (p h : Nat) : M HandleEntry := do
  return (← processes.read p).lookup h

/-- The first unbound entry of a table. -/
def ProcessSlot.freeEntry (slot : ProcessSlot) : Option Nat :=
  (List.range maxHandles).find? fun h => (slot.handles h).objType = .unbound

def mintHandle (p : Nat) (kind : ObjType) (rights target : Nat) : M Nat := do
  if ← quotaRoom p .handle then
    let slot ← processes.read p
    match slot.freeEntry with
    | some h =>
      processes.modify p (·.mintAt h kind rights target)
      quotaCharge p .handle
      return handleWord h (slot.handles h).gen
    | none => return noHandle
  else
    return noHandle

def tableRoom (p n : Nat) : M Bool := do
  if ← quotaRoomFor p .handle n then
    let slot ← processes.read p
    return n ≤ ((List.range maxHandles).filter fun h => (slot.handles h).objType = .unbound).length
  else
    return false

def unbindHandle (p index : Nat) : M Unit := do
  if index < maxHandles then
    processes.modify p (·.unbindAt index)
    quotaCredit p .handle
  else
    halt .panic

/-! ### The memory pool -/

def allocMemory : M (Option Nat) := alloc memories (·.state = .free)

def poolCanServe (slot len : Nat) : M Bool := do
  let region ← memories.read slot
  if len ≤ region.len then return true
  if region.root ≠ some slot then return false
  loop (fun cur : Option Nat => do
    match cur with
    | none => return .inr false
    | some n =>
      let range ← freeRanges.read n
      return if len ≤ range.len then .inr true else .inl range.next) region.freeHead

/-- Point the link after `prev`, the head of the pool's list when there is none, at `next`. -/
def poolLink (root : Nat) (prev next : Option Nat) : M Unit :=
  match prev with
  | none => memories.modify root ({ · with freeHead := next })
  | some n => freeRanges.modify n ({ · with next := next })

def freeFreeRange (n : Nat) : M Unit := freeRanges.write n .vacant

def lend (root len : Nat) : M Unit := do
  let out ← addWord (← memories.read root).outBytes len
  memories.modify root ({ · with outBytes := out })

/-- Cut the bytes from the first free range of a root that holds them. -/
def poolCutRange (slot len : Nat) : M (Option Nat) := do
  let region ← memories.read slot
  loop (fun (at' : Option Nat × Option Nat) => do
    match at'.2 with
    | none => return .inr none
    | some n =>
      let range ← freeRanges.read n
      if len ≤ range.len then
        let base := range.base
        let rest ← addWord base len
        freeRanges.modify n ({ · with base := rest, len := range.len - len })
        whenever (range.len - len = 0) do
          poolLink slot at'.1 range.next
          freeFreeRange n
        lend slot len
        return .inr (some base)
      else
        return .inl (some n, range.next)) (none, region.freeHead)

/-- Cut the bytes from the front of the region's own extent. -/
def poolCutFront (slot len : Nat) (isRoot : Bool) : M Nat := do
  let region ← memories.read slot
  mark (.cut slot)
  if region.len < len then fatalKernel
  else
    let rest ← addWord region.base len
    memories.modify slot ({ · with base := rest, len := region.len - len })
    whenever isRoot (lend slot len)
    return region.base

def poolCut (slot len : Nat) : M Nat := do
  let region ← memories.read slot
  if region.root = some slot then
    match ← poolCutRange slot len with
    | some base => return base
    | none => poolCutFront slot len true
  else
    poolCutFront slot len false

/-- The neighbours in a pool's list of the address `base`: the last range at or below it, and the next. -/
def poolNeighbours (root base : Nat) : M (Option Nat × Option Nat) := do
  let region ← memories.read root
  loop (fun (at' : Option Nat × Option Nat) => do
    match at'.2 with
    | none => return .inr at'
    | some n =>
      let range ← freeRanges.read n
      return if base < range.base then .inr at' else .inl (some n, range.next)) (none, region.freeHead)

/-- The range before the new one takes it in when they touch. -/
def poolJoinBefore (prev : Option Nat) (base len : Nat) : M (Option (Nat × Nat × Nat)) := do
  match prev with
  | none => return none
  | some n =>
    let range ← freeRanges.read n
    if (← addWord range.base range.len) = base then
      let l ← addWord range.len len
      freeRanges.modify n ({ · with len := l })
      return some (n, range.base, l)
    else
      return none

/-- The range after the new one takes it in when they touch, or goes into the one before that has. -/
def poolJoinAfter (into : Option (Nat × Nat × Nat)) (next : Option Nat) (b l : Nat) : M Bool := do
  match next with
  | none => return false
  | some n =>
    let range ← freeRanges.read n
    if (← addWord b l) = range.base then
      match into with
      | none =>
        let l' ← addWord range.len l
        freeRanges.modify n ({ · with base := b, len := l' })
        return true
      | some (m, _, _) =>
        let l' ← addWord l range.len
        freeRanges.modify m ({ · with len := l', next := range.next })
        freeFreeRange n
        return true
    else
      return false

def PoolHistory.lose (h : PoolHistory) (x : Span) : PoolHistory := { h with lost := x :: h.lost }

def PoolHistory.donate (h : PoolHistory) (x : Span) : PoolHistory := { h with donated := x :: h.donated }

def poolInsertRange (root base len : Nat) : M Unit := do
  let at' ← poolNeighbours root base
  let into ← poolJoinBefore at'.1 base len
  let b := (into.map (·.2.1)).getD base
  let l := (into.map (·.2.2)).getD len
  let joined ← poolJoinAfter into at'.2 b l
  if into.isSome || joined then return
  match ← alloc freeRanges (·.state = .free) with
  | none =>
    let lost ← addWord (← memories.read root).dropped l
    memories.modify root fun m => { m with dropped := lost, history := m.history.lose ⟨b, l⟩ }
  | some n =>
    freeRanges.write n ⟨.live, b, l, at'.2⟩
    poolLink root at'.1 (some n)

/-- A last free range that reaches the frontier is folded back into it. -/
def poolFoldFrontier (root : Nat) : M Unit := do
  let region ← memories.read root
  loop (fun (at' : Option Nat × Option Nat) => do
    match at'.2 with
    | none => return .inr ()
    | some n =>
      let range ← freeRanges.read n
      match range.next with
      | some _ => return .inl (some n, range.next)
      | none =>
        if (← addWord range.base range.len) = region.base then
          let l ← addWord region.len range.len
          memories.modify root ({ · with base := range.base, len := l })
          poolLink root at'.1 none
          freeFreeRange n
          return .inr ()
        else
          return .inr ()) (none, region.freeHead)

def poolReturn (root base len : Nat) : M Unit := do
  if len = 0 then return
  let region ← memories.read root
  whenever (region.state = .free) fatalKernel
  whenever (region.outBytes < len) fatalKernel
  memories.modify root ({ · with outBytes := region.outBytes - len })
  poolInsertRange root base len
  poolFoldFrontier root

def poolDropNodes (root : Nat) : M Unit := do
  let region ← memories.read root
  loop (fun cur : Option Nat => do
    match cur with
    | none => return .inr ()
    | some n =>
      let range ← freeRanges.read n
      freeFreeRange n
      return .inl range.next) region.freeHead
  memories.modify root ({ · with freeHead := none })

def refRegionRow (region : Option Nat) : M Unit :=
  match region with
  | none => pure ()
  | some r => do
    let n ← bump (← memories.read r).maps
    memories.modify r ({ · with maps := n })

/-- The bytes of a region go back where they came from; a root has only its free ranges to give up. -/
def memoryGiveBack (slot root : Nat) (region : MemorySlot) : M Unit :=
  if root = slot then poolDropNodes slot else poolReturn root region.base region.len

/-- Free a region that nothing names and no row maps; a root, only when all it lent is back. The pool that a
    region came from may be idle now too. -/
def memoryReleaseIfIdle : Nat → M Unit := recur fun again slot => do
  let region ← memories.read slot
  if region.state = .free || region.refs ≠ 0 || region.maps ≠ 0 then return
  match region.root with
  | none => halt .panic
  | some root =>
    if root = slot && region.outBytes ≠ 0 then return
    memoryGiveBack slot root region
    memories.write slot .vacant
    quotaCredit region.process .memory
    whenever (root ≠ slot) (again root)

def unrefRegionRow (region : Option Nat) : M Unit :=
  match region with
  | none => pure ()
  | some r => do
    whenever ((← memories.read r).maps = 0) fatalKernel
    memories.modify r fun m => { m with maps := m.maps - 1 }
    memoryReleaseIfIdle r

/-- The pool that a region came from does not get it back. -/
def recordDonated (region : MemorySlot) : M Unit :=
  match region.root with
  | none => pure ()
  | some root => memories.modify root fun m => { m with history := m.history.donate ⟨region.base, region.len⟩ }

def memoryRetireDonated (slot : Nat) : M Unit := do
  let region ← memories.read slot
  whenever (region.root = some slot) (poolDropNodes slot)
  recordDonated region
  memories.write slot .vacant
  quotaCredit region.process .memory

/-! ### Device regions and mappings -/

def allocIoMemory : M (Option Nat) := alloc ioMemories (·.state = .free)

def allocMapping : M (Option Nat) := alloc mappings (·.state = .free)

/-- The rows after a removed one moved down. -/
def compactMappingRows (target removed : Nat) : M Unit := do
  countUp (fun i => mappings.modify i fun m =>
    match m.row with
    | some row => if m.state = .live ∧ m.target = target ∧ removed < row then { m with row := some (row - 1) } else m
    | none => m) (← mappings.capacity) 0

/-! ### Kinds a record can spell -/

def bootKindOf : ObjType → Option BootHandleKind
  | .memory => some .memory
  | .process => some .process
  | .system => some .system
  | .ioMemory => some .ioMemory
  | .pipeInlet => some .pipeInlet
  | .pipeOutlet => some .pipeOutlet
  | .pipeReply => some .pipeReply
  | .pipeRequest => some .pipeRequest
  | _ => none

def msgKindOf (kind : ObjType) : Option BootHandleKind :=
  match bootKindOf kind with
  | none => none
  | some .process => none
  | some .system => none
  | some spelled => some spelled

/-! ### Connections and their exchanges -/

def exchangePipe (x : Nat) : Nat := x / pipeInflight

def pipeExchangeAt (c i : Nat) : Nat := c * pipeInflight + i

def allocPipe : M (Option Nat) := alloc pipes (·.state = .free)

/-- The first free exchange of a connection. -/
def allocExchange (c : Nat) : M (Option Nat) :=
  loop (fun i : Nat => do
    if i < pipeInflight then
      let x := pipeExchangeAt c i
      return if (← exchanges.read x).state = .free then .inr (some x) else .inl (i + 1)
    else
      return .inr none) 0

def pipeHasRoom (c : Nat) : M Bool := do
  return (← allocExchange c).isSome

def stagedCount (x : Nat) : M Nat := do
  let ex ← exchanges.read x
  return ((List.range pipeMsgHandles).filter fun i => (ex.held i).objType ≠ .unbound).length

def takeStaged (x : Nat) : M (Nat → StagedRef) := do
  let ex ← exchanges.read x
  exchanges.modify x ({ · with held := fun _ => .none })
  return ex.held

def stagePush (c x : Nat) : M Unit := do
  exchanges.modify x ({ · with next := none })
  match (← pipes.read c).staged with
  | none => pipes.modify c ({ · with staged := some x })
  | some head =>
    loop (fun cur : Nat => do
      match (← exchanges.read cur).next with
      | some next => return .inl next
      | none =>
        exchanges.modify cur ({ · with next := some x })
        return .inr ()) head

def stagePeek (c : Nat) : M (Option Nat) := do
  return (← pipes.read c).staged

def stagePop (c : Nat) : M Unit := do
  match (← pipes.read c).staged with
  | none => return
  | some head =>
    let ex ← exchanges.read head
    pipes.modify c ({ · with staged := ex.next })
    exchanges.modify head ({ · with next := none })

def pipeIdle (c : Nat) : M Bool :=
  loop (fun i : Nat => do
    if i < pipeInflight then
      return if (← exchanges.read (pipeExchangeAt c i)).state = .free then .inl (i + 1) else .inr false
    else
      return .inr true) 0

def freePipe (slot : Nat) : M Unit := do
  let pipe ← pipes.read slot
  whenever (pipe.inletAttachment.isSome || pipe.outletAttachment.isSome) fatalKernel
  pipes.write slot .vacant
  quotaCredit pipe.process .pipe

def pipeFreesNow (slot : Nat) : M Bool := do
  let pipe ← pipes.read slot
  if pipe.state = .free then return false
  if pipe.inletRefs = 0 ∧ pipe.outletRefs = 0 then pipeIdle slot
  else return false

def exchangeCanSettle (x : Nat) : M Bool := do
  let ex ← exchanges.read x
  if ex.replyRefs ≠ 0 || ex.requestRefs ≠ 0 then return false
  match ex.state with
  | .free => return false
  | .staged => return (← pipes.read (exchangePipe x)).outletRefs = 0
  | .taken => return true
  | .replied => return true
  | .settled => return true

def exchangeSettle (x : Nat) : M (Nat → StagedRef) := do
  let ex ← exchanges.read x
  whenever (ex.replyAttach.isSome || ex.requestAttach.isSome) fatalKernel
  whenever ex.caller.isSome fatalKernel
  let held ← takeStaged x
  exchanges.modify x ({ · with state := .free, replyRefs := 0, requestRefs := 0, len := 0, next := none })
  whenever (← pipeFreesNow (exchangePipe x)) (freePipe (exchangePipe x))
  return held

/-! ### Boot handles -/

def bootHandleRoom (p : Nat) : M Bool := do
  return (← processes.read p).bootHandles.length < maxHandles

def bootTagUsed (p tag : Nat) : M Bool := do
  return (← processes.read p).bootHandles.any (·.tag = tag)

def bootHandleTake (p tag : Nat) : M Nat := do
  let slot ← processes.read p
  match slot.bootHandles.findIdx? fun rec => rec.tag = tag && !rec.taken with
  | none => return noHandle
  | some i =>
    processes.modify p fun slot =>
      { slot with bootHandles := slot.bootHandles.modify i ({ · with taken := true }), bootLog :=
        (i, .start) :: slot.bootLog }
    return (slot.bootHandles[i]?.map (·.handle)).getD noHandle

def queueBootHandle (p tag : Nat) (kind : BootHandleKind) (handle : Nat) : M Unit := do
  if (← processes.read p).bootHandles.length < maxHandles then
    processes.modify p fun slot => { slot with bootHandles := slot.bootHandles ++ [⟨tag, kind, handle, false⟩] }
  else
    halt .panic

/-- The next record that no one has taken. -/
def bootHandleCursor (p : Nat) : M Nat := do
  let slot ← processes.read p
  let cursor := slot.bootNext + ((slot.bootHandles.drop slot.bootNext).takeWhile (·.taken)).length
  processes.modify p ({ · with bootNext := cursor })
  return cursor

def clearBootHandles (p : Nat) : M Unit :=
  processes.modify p ({ · with bootHandles := [], bootNext := 0, bootLog := [] })

end Sawos
