import Sawos.Kernel.Loader

/-! # System calls on everything but connections -/

namespace Sawos
open Exec

variable [Hal]

/-- Kill the caller unless its handle has a right. -/
def require (p rights right : Nat) : M Unit := whenever (!allows rights right) (faultProcess p .accessDenied)

/-- Kill the caller when the copy door refused. -/
def refuse (p : Nat) (refused : Option FaultReason) : M Unit :=
  match refused with
  | none => pure ()
  | some why => faultProcess p why

/-- Rights as the caller narrows them: the low 32 bits of a word. -/
def truncate32 (keep : Nat) : Nat := keep % 2 ^ 32

/-- The answer to a creation: the new handle, or why it was not minted. -/
def minted (p handle : Nat) (done : M Unit) : M SyscallResult := do
  if handle = noHandle then return opStatus (← mintRefusal p)
  done
  return opValue handle

/-- Create an object: with room in its quota, find it a slot, mint the handle, and fill the slot. -/
def create (p : Nat) (quota : QuotaKind) (find : M (Option Nat)) (kind : ObjType) (rights : Nat)
    (fill : Nat → M Unit) : M SyscallResult := do
  if ← quotaRoom p quota then
    match ← find with
    | none => return opStatus .noResource
    | some slot =>
      let handle ← mintHandle p kind rights slot
      minted p handle (fill slot)
  else
    return opStatus .quotaExceeded

/-! ### Memory and device regions -/

def memoryArg (p handle : Nat) : M Nat := do
  let entry ← lookupHandle p handle
  if entry.objType = .memory then return entry.target else faultProcess p .badHandle

def grantPerms (access : Nat) : Nat :=
  (if access &&& mapRead ≠ 0 then segRead else 0) ||| (if access &&& mapWrite ≠ 0 then segWrite else 0) |||
    (if access &&& mapExecute ≠ 0 then segExecute else 0)

def mapAccess (p raw : Nat) : M Nat := do
  whenever (raw &&& mapAccessMask ≠ raw) (faultProcess p .badArg)
  whenever (raw &&& mapWrite ≠ 0 && raw &&& mapRead = 0) (faultProcess p .badArg)
  whenever (raw &&& mapWrite ≠ 0 && raw &&& mapExecute ≠ 0) (faultProcess p .badArg)
  whenever (raw = 0) (faultProcess p .badArg)
  return raw

def mapTarget (p handle : Nat) : M Nat := do
  let entry ← lookupHandle p handle
  if entry.objType = .process then
    require p entry.rights ProcessRight.map
    let state := (← processes.read entry.target).state
    whenever (state ≠ .created && state ≠ .running) (faultProcess p .badState)
    return entry.target
  else
    faultProcess p .badHandle

/-- Install a row in the record of `t` and mint `p` a Mapping on it. -/
def mintRow (p t vaBase vaTop base perms : Nat) (device : Bool) (region : Option Nat) : M SyscallResult := do
  match ← allocMapping with
  | none => return opStatus .noResource
  | some slot =>
    let handle ← mintHandle p .mapping mappingRights slot
    minted p handle do
      let row := (← processes.read t).grantCount
      recordGrant t vaBase vaTop base perms device region
      mappings.write slot ⟨.live, p, t, some row, 1, ⟨vaBase, vaTop, base, perms, device, region⟩⟩
      quotaCharge t .mapping
      domainChanged t

def installRow (p t base top perms : Nat) (device : Bool) (region : Option Nat) : M SyscallResult := do
  if ← quotaRoom t .mapping then
    whenever (Hal.grantRowBudget ≤ (← processes.read t).grantCount) fatalKernel
    let span := top - base
    let vaBase := Hal.mapPlace (← freeUserVa t span) base device
    if wordMax - vaBase < span then return opStatus .noResource
    if !device && !Hal.mapTargetOk vaBase (vaBase + span) then return opStatus .noResource
    mintRow p t vaBase (vaBase + span) base perms device region
  else
    return opStatus .quotaExceeded

def memorySplit (p region len : Nat) : M SyscallResult := do
  whenever (len = 0 || !(← poolCanServe region len)) (faultProcess p .badArg)
  whenever (len % Hal.protGrain ≠ 0) (faultProcess p .badArg)
  create p .memory allocMemory .memory memoryRights fun slot => do
    let base ← poolCut region len
    let root := (← memories.read region).root
    memories.write slot ⟨.live, p, base, len, 1, 0, root, none, 0, 0, .none⟩
    quotaCharge p .memory

def regionWraps (base len : Nat) : Bool := wordMax - base < len

def memoryMap (p rights slot target raw : Nat) : M SyscallResult := do
  let t ← mapTarget p target
  let access ← mapAccess p raw
  whenever (access &&& mapExecute ≠ 0) (require p rights MemoryRight.mapExecute)
  let region ← memories.read slot
  whenever (region.len = 0 || regionWraps region.base region.len) (faultProcess p .badArg)
  whenever (region.base % Hal.protGrain ≠ 0) (faultProcess p .badArg)
  let top ← alignUpWord (region.base + region.len) Hal.protGrain
  whenever (!Hal.mapSourceOk region.base top) (faultProcess p .badArg)
  installRow p t region.base top (grantPerms access) false (some slot)

def memoryOp (p raw rights slot arg0 arg1 : Nat) : M SyscallResult := do
  match MemoryOp.ofRaw raw with
  | none => faultProcess p .badOp
  | some .split =>
    require p rights MemoryRight.split
    memorySplit p slot arg0
  | some .map =>
    require p rights MemoryRight.map
    memoryMap p rights slot arg0 arg1

def iomemoryCarve (p parent offset len : Nat) : M SyscallResult := do
  let region ← ioMemories.read parent
  whenever (len = 0 || region.len < offset || region.len - offset < len) (faultProcess p .badArg)
  let base ← addWord region.base offset
  whenever (!Hal.deviceWindowOk base len) (faultProcess p .badArg)
  create p .ioMemory allocIoMemory .ioMemory iomemoryRights fun slot => do
    ioMemories.write slot ⟨.live, p, base, len, 1⟩
    quotaCharge p .ioMemory

def iomemoryMap (p slot target : Nat) : M SyscallResult := do
  let t ← mapTarget p target
  let region ← ioMemories.read slot
  whenever (!Hal.deviceWindowOk region.base region.len) (faultProcess p .badArg)
  let top ← addWord region.base region.len
  installRow p t region.base top (segRead ||| segWrite) true none

def iomemoryOp (p raw rights slot arg0 arg1 : Nat) : M SyscallResult := do
  match IoMemoryOp.ofRaw raw with
  | none => faultProcess p .badOp
  | some .carve =>
    require p rights IoMemoryRight.carve
    iomemoryCarve p slot arg0 arg1
  | some .map =>
    require p rights IoMemoryRight.map
    iomemoryMap p slot arg0

/-- The row of a live Mapping that is still installed. -/
def mappedRow (p slot : Nat) : M Nat := do
  let m ← mappings.read slot
  match m.state, m.row with
  | .live, some row => return row
  | _, _ => faultProcess p .badState

def mappingUnmap (p slot : Nat) : M SyscallResult := do
  let row ← mappedRow p slot
  let t := (← mappings.read slot).target
  removeGrant t row
  mappings.modify slot ({ · with row := none })
  quotaCredit t .mapping
  compactMappingRows t row
  domainChanged t
  return opOk

def mappingBase (p slot : Nat) : M SyscallResult := do
  let row ← mappedRow p slot
  let t := (← mappings.read slot).target
  return opValue ((← processes.read t).grants row).base

def mappingOp (p raw rights slot : Nat) : M SyscallResult := do
  match MappingOp.ofRaw raw with
  | none => faultProcess p .badOp
  | some .unmap =>
    require p rights MappingRight.unmap
    mappingUnmap p slot
  | some .base =>
    require p rights MappingRight.base
    mappingBase p slot

/-! ### Slab donation -/

/-- Bytes and alignment of one slot, how many extents are left, and how many slots the ceiling leaves. -/
def slabGeometry (kind : SlabKind) : M (Nat × Nat × Nat × Nat) := reads fun s =>
  let plain (extents cap : Nat) := (Build.slotBytes kind, Build.slotAlign kind, extents, maxSlabCapacity - cap)
  match kind with
  | .events => plain s.events.extentsLeft s.events.cap
  | .waiters => plain s.waiters.extentsLeft s.waiters.cap
  | .interrupts => plain s.interrupts.extentsLeft s.interrupts.cap
  | .attachments => plain s.attachments.extentsLeft s.attachments.cap
  | .timers => plain s.timers.extentsLeft s.timers.cap
  | .memories => plain s.memories.extentsLeft s.memories.cap
  | .ioMemories => plain s.ioMemories.extentsLeft s.ioMemories.cap
  | .mappings => plain s.mappings.extentsLeft s.mappings.cap
  | .freeRanges => plain s.freeRanges.extentsLeft s.freeRanges.cap
  | .processes => plain s.processes.extentsLeft s.processes.cap
  | .threads => (Build.slotBytes kind + threadFrameStride, threadFrameStride, s.threads.extentsLeft,
      maxSlabCapacity - s.threads.cap)
  | .pipes => (Build.slotBytes kind + pipeInflight * Build.exchangeSlotBytes,
      max (Build.slotAlign kind) Build.exchangeSlotAlign,
      min s.pipes.extentsLeft s.exchanges.extentsLeft,
      min (maxSlabCapacity - s.pipes.cap) ((maxSlabCapacity - s.exchanges.cap) / pipeInflight))

def donatePaired {α : Type} (c : Column α) (zero : α) (base slots side : Nat) : M Bool := do
  match ← reads fun s => (c.get s).donatePaired zero base slots side with
  | none => return false
  | some slab =>
    modifies fun s => c.put s slab
    return true

def slabInstall (kind : SlabKind) (base slots : Nat) : M Bool :=
  match kind with
  | .events => donatePaired events .vacant base slots 0
  | .waiters => donatePaired waiters .vacant base slots 0
  | .interrupts => donatePaired interrupts .vacant base slots 0
  | .attachments => donatePaired attachments .vacant base slots 0
  | .timers => donatePaired timers .vacant base slots 0
  | .memories => donatePaired memories .vacant base slots 0
  | .ioMemories => donatePaired ioMemories .vacant base slots 0
  | .mappings => donatePaired mappings .vacant base slots 0
  | .freeRanges => donatePaired freeRanges .vacant base slots 0
  | .processes => donatePaired processes .vacant base slots 0
  | .threads => donatePaired threads .vacant (base + slots * threadFrameStride) slots base
  | .pipes => do
    if ← donatePaired pipes .vacant base slots 0 then
      whenever (!(← donatePaired exchanges .vacant (base + slots * Build.slotBytes .pipes) (slots * pipeInflight) 0))
        fatalKernel
      return true
    else
      return false

/-- The bytes before the first address at or above `base` that is a multiple of `align`. -/
def padTo (base align : Nat) : Nat := if base % align = 0 then 0 else align - base % align

def slabDonate (p raw handle : Nat) : M SyscallResult := do
  match SlabKind.ofRaw raw with
  | none => faultProcess p .badArg
  | some kind =>
    let slot ← memoryArg p handle
    let region ← memories.read slot
    whenever (region.refs ≠ 1) (faultProcess p .badState)
    whenever (region.maps ≠ 0) (faultProcess p .badState)
    whenever (region.root = some slot && region.outBytes ≠ 0) (faultProcess p .badState)
    let (stride, align, room, headroom) ← slabGeometry kind
    let pad := padTo region.base align
    if region.len ≤ pad then return opStatus .noResource
    let start ← addWord region.base pad
    let slots := (region.len - pad) / stride
    if slots = 0 || room = 0 || headroom < slots then return opStatus .noResource
    longZero start (slots * stride)
    whenever (!(← slabInstall kind start slots)) fatalKernel
    unbindHandle p (handleWordIndex handle)
    memoryRetireDonated slot
    return opOk

/-! ### Processes -/

/-- The destination of a child image in a region. -/
def childRegion (region : MemorySlot) : LoadRegion :=
  ⟨region.base, region.base + region.len, Hal.rootStackLen, Hal.imageLinkBase region.base⟩

/-- A region can hold a child image that is in another. -/
def imageFits (img dst : MemorySlot) : Bool :=
  !regionWraps img.base img.len && !regionWraps dst.base dst.len && Hal.rootStackLen < dst.len &&
    !(img.base < dst.base + dst.len && dst.base < img.base + img.len)

/-- Make a free slot a created process with the image at `imgBase` in its region. -/
def fillProcess (slot imgBase : Nat) (dest : LoadRegion) (dst : Nat) : M Unit := do
  let rwBase ← placeImage slot imgBase dest (some dst)
  let entry ← reads fun s => (Build.headerAt s.mem imgBase).entry
  processes.modify slot fun child => { child with
    state := .created, entry := entry, stackTop := dest.linkTop, regionBase := dest.linkBase,
    regionTop := dest.linkTop, rwBase := rwBase, rwTop := dest.linkTop, exitKind := .running, exitCode := 0,
    refs := 1, attachment := none, imageRows := child.grantCount }
  statsClear slot
  installQuotaLimits slot false (Hal.grantRowBudget - (← processes.read slot).grantCount)

def processCreate (p imageHandle memoryHandle : Nat) : M SyscallResult := do
  let img ← memoryArg p imageHandle
  let dst ← memoryArg p memoryHandle
  let imgRegion ← memories.read img
  let dstRegion ← memories.read dst
  if !imageFits imgRegion dstRegion then return opStatus .badImage
  let dest := childRegion dstRegion
  if (← reads fun s => validateImage s.mem imgRegion.base imgRegion.len dest false).isSome then
    return opStatus .badImage
  match ← allocProcess with
  | none => return opStatus .noResource
  | some slot =>
    let handle ← mintHandle p .process processRights slot
    minted p handle (fillProcess slot imgRegion.base dest dst)

/-- The handle word a child starts with; `none` when the tag it names was not given. -/
def bootWord (child : Nat) (form : BootTagForm) (tag : Nat) : M (Option Nat) :=
  match form with
  | .absent => return some noHandle
  | .present => do
    let w ← bootHandleTake child tag
    return if w = noHandle then none else some w

def processStart (caller child rawForm tag : Nat) : M SyscallResult := do
  match BootTagForm.ofRaw rawForm with
  | none => faultProcess caller .badArg
  | some form =>
    let slot ← processes.read child
    whenever (slot.state ≠ .created) (faultProcess caller .badState)
    if ← quotaRoom child .thread then
      match ← allocThread with
      | none => return opStatus .noResource
      | some t =>
        match ← bootWord child form tag with
        | none => faultProcess caller .badArg
        | some word =>
          frameInit t slot.entry slot.stackTop word
          threads.write t { ThreadSlot.vacant with state := .runnable, process := child }
          quotaCharge child .thread
          readyPush t
          processes.modify child ({ · with state := .running })
          return opOk
    else
      return opStatus .quotaExceeded

/-- What a Give checks, each failure the giver's. -/
def giveFaults (p child : Nat) (entry : HandleEntry) (tag : Nat) : M BootHandleKind := do
  whenever (entry.objType = .unbound) (faultProcess p .badHandle)
  whenever (!rightsAllowTransfer entry.rights) (faultProcess p .accessDenied)
  match bootKindOf entry.objType with
  | none => faultProcess p .badArg
  | some kind =>
    whenever ((← processes.read child).state ≠ .created) (faultProcess p .badState)
    whenever (← bootTagUsed child tag) (faultProcess p .duplicateKey)
    return kind

def processGive (p child word tag keep : Nat) : M SyscallResult := do
  let entry ← lookupHandle p word
  let kind ← giveFaults p child entry tag
  if ← bootHandleRoom child then
    let given ← moveEntry p child word entry (truncate32 keep)
    if given = noHandle then return opStatus (← mintRefusal child)
    queueBootHandle child tag kind given
    return opOk
  else
    return opStatus .noResource

def bootHandleRecordBytes : Nat := 3 * wordBytes

def bootHandleNext (p dst cap : Nat) : M SyscallResult := do
  whenever (cap < bootHandleRecordBytes) (faultProcess p .badArg)
  let cursor ← bootHandleCursor p
  match (← processes.read p).bootHandles[cursor]? with
  | none => return opStatus .drained
  | some rec =>
    refuse p (← copyOut p dst ([rec.tag, rec.kind.word, rec.handle].flatMap (wordBytesLe wordBytes)))
    processes.modify p fun slot => { slot with bootNext := cursor + 1, bootLog := (cursor, .next) :: slot.bootLog }
    return opOk

def processStats (p target dst cap : Nat) : M SyscallResult := do
  whenever (cap < 24) (faultProcess p .badArg)
  let row ← reads fun s => s.stats target
  refuse p (← copyOut p dst ([row.syscalls, row.interrupts, row.faults].flatMap (wordBytesLe 8)))
  return opOk

def eventCreate (p rawMode : Nat) : M SyscallResult := do
  match EventMode.ofRaw rawMode with
  | none => faultProcess p .badArg
  | some mode =>
    create p .event allocEvent .event eventRights fun slot => do
      events.write slot ⟨.live, p, mode, 0, none, 1⟩
      quotaCharge p .event

def interruptBind (p line : Nat) : M SyscallResult := do
  whenever (line = Hal.irqTimer || !Hal.irqLineValid line) (faultProcess p .badArg)
  whenever (← interruptByLine line).isSome (faultProcess p .lineBound)
  create p .interrupt allocInterrupt .interrupt interruptRights fun slot => do
    interrupts.write slot ⟨.live, p, line, false, none, 1, []⟩
    quotaCharge p .interrupt
    irqUnmask line

def waiterCreate (p : Nat) : M SyscallResult :=
  create p .waiter allocWaiter .waiter waiterRights fun slot => do
    waiters.write slot ⟨.live, p, none, none, 1⟩
    quotaCharge p .waiter

/-- A thread's entry and stack lie in its process's region. -/
def threadRangeOk (slot : ProcessSlot) (start stackTop : Nat) : Bool :=
  slot.regionBase ≤ start && start < slot.regionTop && slot.regionBase < stackTop && stackTop ≤ slot.regionTop

def threadCreate (p entry stackTop arg : Nat) : M SyscallResult := do
  let slot ← processes.read p
  let start := if entry = 0 then slot.entry else entry
  whenever (!threadRangeOk slot start stackTop) (faultProcess p .badEntry)
  create p .thread allocThread .thread threadRights fun t => do
    frameInit t start stackTop arg
    threads.write t { ThreadSlot.vacant with state := .created, process := p }
    quotaCharge p .thread

def pipeCreateRecordBytes : Nat := 2 * wordBytes

/-- Mint both ends of a new connection, or neither. -/
def mintEnds (owner slot : Nat) : M (Option (Nat × Nat)) := do
  let inlet ← mintHandle owner .pipeInlet pipeInletRights slot
  if inlet = noHandle then return none
  let outlet ← mintHandle owner .pipeOutlet pipeOutletRights slot
  if outlet = noHandle then
    unbindHandle owner (handleWordIndex inlet)
    return none
  else
    return some (inlet, outlet)

def pipeCreate (owner caller dst cap : Nat) : M SyscallResult := do
  whenever (cap < pipeCreateRecordBytes) (faultProcess caller .badArg)
  refuse caller (← copyOutCheck caller dst pipeCreateRecordBytes)
  if ← quotaRoom owner .pipe then
    match ← allocPipe with
    | none => return opStatus .noResource
    | some slot =>
      match ← mintEnds owner slot with
      | none => return opStatus (← mintRefusal owner)
      | some (inlet, outlet) =>
        pipes.write slot ⟨.live, owner, none, none, none, 1, 1⟩
        quotaCharge owner .pipe
        refuse caller (← copyOut caller dst ([inlet, outlet].flatMap (wordBytesLe wordBytes)))
        return opOk
  else
    return opStatus .quotaExceeded

def threadSelf (p : Nat) : M SyscallResult := do
  match ← reads K.currentThread with
  | none => faultProcess p .badState
  | some t =>
    let handle ← mintHandle p .thread threadRights t
    minted p handle (pure ())

def processOp (p raw rights slot arg0 arg1 arg2 : Nat) : M SyscallResult := do
  match ProcessOp.ofRaw raw with
  | none => faultProcess p .badOp
  | some .threadCreate =>
    require p rights ProcessRight.threadCreate
    threadCreate slot arg0 arg1 arg2
  | some .threadSelf =>
    require p rights ProcessRight.threadSelf
    threadSelf p
  | some .exit =>
    require p rights ProcessRight.exit
    endProcess slot .exited arg0 arg0
  | some .getStatus =>
    require p rights ProcessRight.wait
    let target ← processes.read slot
    return opValue (processStatusWord target.exitKind target.exitCode)
  | some .eventCreate =>
    require p rights ProcessRight.eventCreate
    eventCreate slot arg0
  | some .waiterCreate =>
    require p rights ProcessRight.waiterCreate
    waiterCreate slot
  | some .interruptBind =>
    require p rights ProcessRight.interruptBind
    interruptBind slot arg0
  | some .start =>
    require p rights ProcessRight.start
    processStart p slot arg0 arg1
  | some .bootHandleNext =>
    require p rights ProcessRight.bootHandles
    bootHandleNext p arg0 arg1
  | some .give =>
    require p rights ProcessRight.give
    processGive p slot arg0 arg1 arg2
  | some .pipeCreate =>
    require p rights ProcessRight.pipeCreate
    pipeCreate slot p arg0 arg1
  | some .stats =>
    require p rights ProcessRight.stats
    processStats p slot arg0 arg1

/-! ### The system object -/

def statsRegionMap (p dst cap : Nat) : M SyscallResult := do
  whenever (cap < wordBytes) (faultProcess p .badArg)
  refuse p (← copyOut p dst (wordBytesLe wordBytes p))
  installRow p p Build.statsRegionBase (Build.statsRegionBase + Build.statsRegionLen) (grantPerms mapRead) false none

def protectionTier : Nat := if Hal.protIsolated then 0 else 1

def processSelf (p keep : Nat) : M SyscallResult := do
  let handle ← mintHandle p .process (processRights &&& truncate32 keep) p
  minted p handle (refObject .process p)

def clockGet (p raw : Nat) : M SyscallResult := do
  if clockTypeKnown raw then
    let handle ← mintHandle p .clock clockRights raw
    minted p handle (pure ())
  else
    faultProcess p .badArg

def systemOp (p raw rights arg0 arg1 : Nat) : M SyscallResult := do
  match SystemOp.ofRaw raw with
  | none => faultProcess p .badOp
  | some .debugPrint =>
    require p rights SystemRight.debug
    emits fun _ => .console (arg0 &&& 0xFF)
    return opOk
  | some .shutdown =>
    require p rights SystemRight.shutdown
    exitMachine arg0
  | some .processSelf =>
    require p rights SystemRight.processSelf
    processSelf p arg0
  | some .clockGet =>
    require p rights SystemRight.clockGet
    clockGet p arg0
  | some .processCreate =>
    require p rights SystemRight.processCreate
    processCreate p arg0 arg1
  | some .slabDonate =>
    require p rights SystemRight.slabDonate
    slabDonate p arg0 arg1
  | some .tierGet =>
    require p rights SystemRight.tierGet
    return opValue protectionTier
  | some .statsRegionMap =>
    require p rights SystemRight.statsRegionMap
    statsRegionMap p arg0 arg1

/-! ### Threads, events, interrupts, clocks and timers -/

/-- The current thread, that a call about to park it needs. -/
def parking (p : Nat) : M Nat := do
  match ← reads K.currentThread with
  | none => faultProcess p .badState
  | some t => return t

def threadJoin (p target : Nat) : M SyscallResult := do
  whenever (some target = (← reads K.currentThread)) (faultProcess p .badState)
  let thread ← threads.read target
  match thread.state with
  | .exited => return opValue thread.exitCode
  | .free => faultProcess p .badState
  | _ =>
    match ← reads K.currentThread with
    | none => halt .panic
    | some cur =>
      blockOnJoin cur target
      return opBlocked

def threadOp (p raw rights target arg0 : Nat) : M SyscallResult := do
  match ThreadOp.ofRaw raw with
  | none => faultProcess p .badOp
  | some .start =>
    require p rights ThreadRight.start
    whenever ((← threads.read target).state ≠ .created) (faultProcess p .badState)
    makeRunnable target
    return opOk
  | some .join =>
    require p rights ThreadRight.join
    threadJoin p target
  | some .exit =>
    require p rights ThreadRight.control
    whenever (some target ≠ (← reads K.currentThread)) (faultProcess p .notSelf)
    exitThread target arg0
    return opBlocked
  | some .yield =>
    require p rights ThreadRight.control
    whenever (some target ≠ (← reads K.currentThread)) (faultProcess p .notSelf)
    reschedule
    return opOk

def eventOp (p raw rights target arg0 : Nat) : M SyscallResult := do
  match EventOp.ofRaw raw with
  | none => faultProcess p .badOp
  | some .signal =>
    require p rights EventRight.signal
    signalEvent target arg0
    return opOk
  | some .receive =>
    require p rights EventRight.receive
    let word := (← events.read target).word
    events.modify target ({ · with word := 0 })
    return opValue word

def interruptOp (p raw rights target : Nat) : M SyscallResult := do
  match InterruptOp.ofRaw raw with
  | none => faultProcess p .badOp
  | some .ack =>
    require p rights InterruptRight.ack
    let q ← interrupts.read target
    whenever (!q.pending) (faultProcess p .badState)
    interrupts.modify target (·.ack)
    irqUnmask q.line
    return opOk

def clockNow (p dst cap : Nat) : M SyscallResult := do
  whenever (cap < 8) (faultProcess p .badArg)
  let reading ← timerNowNs
  refuse p (← copyOut p dst (wordBytesLe 8 reading))
  return opOk

def timerCreate (p c : Nat) : M SyscallResult :=
  create p .timer allocTimer .timer timerRights fun slot => do
    timers.write slot ⟨.live, p, c, false, 0, 0, 0, none, 1, .none⟩
    quotaCharge p .timer

def clockOp (p raw rights slot arg0 arg1 : Nat) : M SyscallResult := do
  match ClockOp.ofRaw raw with
  | none => faultProcess p .badOp
  | some .now =>
    require p rights ClockRight.read
    clockNow p arg0 arg1
  | some .timerCreate =>
    require p rights ClockRight.timerCreate
    timerCreate p slot

def timerArm (p slot src bytes : Nat) : M SyscallResult := do
  whenever (bytes ≠ 16) (faultProcess p .badArg)
  match ← copyIn p src bytes with
  | .error why => faultProcess p why
  | .ok rec =>
    let after := ofBytesLe (rec.take 8)
    let now ← timerNowNs
    let deadline := if neverNs - now < after then neverNs else now + after
    timers.modify slot (·.arm deadline (ofBytesLe (rec.drop 8)))
    reprogramTimer
    return opOk

def timerDisarm (slot : Nat) : M SyscallResult := do
  timers.modify slot (·.disarm)
  reprogramTimer
  return opOk

def timerOp (p raw rights target arg0 arg1 : Nat) : M SyscallResult := do
  match TimerOp.ofRaw raw with
  | none => faultProcess p .badOp
  | some .arm =>
    require p rights TimerRight.arm
    timerArm p target arg0 arg1
  | some .disarm =>
    require p rights TimerRight.arm
    timerDisarm target

/-! ### Waiters -/

/-- The waitable that a handle's kind makes it, and the right that waiting for it needs. -/
def waitableOf : ObjType → Option (WaitableKind × Nat)
  | .event => some (.event, EventRight.wait)
  | .interrupt => some (.interrupt, InterruptRight.wait)
  | .timer => some (.timer, TimerRight.wait)
  | .process => some (.process, ProcessRight.wait)
  | .pipeInlet => some (.pipeInlet, PipeInletRight.wait)
  | .pipeOutlet => some (.pipeOutlet, PipeOutletRight.wait)
  | .pipeReply => some (.pipeReply, PipeReplyRight.wait)
  | .pipeRequest => some (.pipeRequest, PipeRequestRight.wait)
  | _ => none

def waitableSlot (p handle : Nat) : M (WaitableKind × Nat) := do
  let entry ← lookupHandle p handle
  whenever (entry.objType = .unbound) (faultProcess p .badHandle)
  match waitableOf entry.objType with
  | none => faultProcess p .notWaitable
  | some (kind, right) =>
    require p entry.rights right
    return (kind, entry.target)

def waiterAdd (p w handle key flags : Nat) : M SyscallResult := do
  whenever (flags &&& waiterAddFlags ≠ flags) (faultProcess p .badArg)
  let (kind, slot) ← waitableSlot p handle
  whenever (← waitableAttachment kind slot).isSome (faultProcess p .badState)
  whenever (← attachedByKey w key).isSome (faultProcess p .duplicateKey)
  match ← allocAttachment with
  | none => return opStatus .noResource
  | some a =>
    let link := (← waiters.read w).attached
    attachments.write a
      ⟨.live, kind, slot, w, key, flags &&& waiterAddOneshot ≠ 0, flags &&& waiterAddConsuming ≠ 0, link⟩
    waiters.modify w ({ · with attached := some a })
    setWaitableAttachment kind slot (some a)
    refWaitable kind slot
    whenever (flags &&& waiterAddConsuming ≠ 0) do
      unbindHandle p (handleWordIndex handle)
      unrefWaitable kind slot
    whenever (← waitableReady kind slot) (wakeOneWaiter w a)
    return opOk

def waiterRemove (p w key : Nat) : M SyscallResult := do
  match ← attachedByKey w key with
  | none => faultProcess p .badState
  | some a =>
    let att ← attachments.read a
    detachAttachment w a
    unrefWaitable att.kind att.target
    return opOk

/-- Deliver the first ready attachment of a Waiter, or park the caller on it. -/
def deliverOrPark (p w dst : Nat) : M SyscallResult := do
  match ← waiterReadyAttachment w with
  | some ready => return opStatus (← deliverAttachment p dst ready)
  | none =>
    blockOnWait (← parking p) w dst
    return opBlocked

def waiterWait (p w dst cap : Nat) : M SyscallResult := do
  whenever (cap < waitRecordBytes) (faultProcess p .badArg)
  refuse p (← copyOutCheck p dst waitRecordBytes)
  deliverOrPark p w dst

def waiterOp (p raw rights w arg0 arg1 arg2 : Nat) : M SyscallResult := do
  match WaiterOp.ofRaw raw with
  | none => faultProcess p .badOp
  | some .add =>
    require p rights WaiterRight.attach
    waiterAdd p w arg0 arg1 arg2
  | some .remove =>
    require p rights WaiterRight.attach
    waiterRemove p w arg0
  | some .wait =>
    require p rights WaiterRight.wait
    waiterWait p w arg0 arg1

end Sawos
