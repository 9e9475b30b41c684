import Sawos.Kernel.Sched

/-! # Loading an image, and the start of the machine -/

namespace Sawos
open Exec

variable [Hal]

/-! ### Validation -/

/-- Where the user address `va` of an image is in its region. -/
def LoadRegion.physOf (dest : LoadRegion) (va : Nat) : M Nat := do
  addWord dest.base (← subWord va dest.linkBase)

/-- Why an image is refused. -/
inductive ImageFault where
  | noImage | badMagic | badVersion | wrongArch | noSegments | tooManySegments | tableOverrun | entryTooHigh
  | segTooHigh | segPastImage | segRunsPast | memBelowFile | badPerms | childDevice | deviceBytes | deviceWindow
  | deviceSize | segBelow | segAlign | segAbove | segOverrun | entryOutside | entryNotExecutable

def checkDeviceGrant (seg : SosimgSeg) : Option ImageFault :=
  if seg.fileLen ≠ 0 then some .deviceBytes
  else if seg.loadAddr ≠ Hal.deviceGrantBase then some .deviceWindow
  else if seg.memLen ≠ Hal.deviceGrantLen then some .deviceSize
  else none

def checkSegment (seg : SosimgSeg) (imgLen : Nat) (dest : LoadRegion) (allowDevice : Bool) : Option ImageFault :=
  let limit := dest.linkTop - dest.stackLen
  if wordModulus ≤ seg.loadAddr then some .segTooHigh
  else if imgLen < seg.fileOff then some .segPastImage
  else if imgLen - seg.fileOff < seg.fileLen then some .segRunsPast
  else if !seg.memCoversFile then some .memBelowFile
  else if !seg.hasSanePerms then some .badPerms
  else if seg.isDeviceGrant then if allowDevice then checkDeviceGrant seg else some .childDevice
  else if seg.loadAddr < dest.linkBase then some .segBelow
  else if seg.loadAddr &&& (Hal.protGrain - 1) ≠ 0 then some .segAlign
  else if limit < seg.loadAddr then some .segAbove
  else if limit - seg.loadAddr < seg.memLen then some .segOverrun
  else none

/-- The segments of the image at `base`. -/
def imageSegs (mem : Nat → UInt8) (base count : Nat) : List SosimgSeg :=
  (List.range count).map fun i => Build.segAt mem (base + Build.headerLen + i * Build.segLen)

def entryIsExecutable (segs : List SosimgSeg) (entry : Nat) : Bool :=
  segs.any fun seg => !seg.isDeviceGrant && seg.flags &&& segExecute ≠ 0 && seg.loadAddr ≤ entry &&
    entry - seg.loadAddr < seg.memLen

def validateImage (mem : Nat → UInt8) (imgBase imgLen : Nat) (dest : LoadRegion) (allowDevice : Bool) :
    Option ImageFault :=
  let header := Build.headerAt mem imgBase
  let segs := imageSegs mem imgBase header.segCount
  if imgLen < Build.headerLen then some .noImage
  else if !header.hasMagic then some .badMagic
  else if !header.hasKnownVersion then some .badVersion
  else if !header.isForArch then some .wrongArch
  else if header.segCount = 0 then some .noSegments
  else if Hal.maxRootSegments < header.segCount then some .tooManySegments
  else if imgLen - Build.headerLen < header.segCount * Build.segLen then some .tableOverrun
  else if wordModulus ≤ header.entry then some .entryTooHigh
  else match segs.findSome? (checkSegment · imgLen dest allowDevice) with
    | some bad => some bad
    | none =>
      if header.entry < dest.linkBase || dest.linkTop - dest.stackLen ≤ header.entry then some .entryOutside
      else if !entryIsExecutable segs header.entry then some .entryNotExecutable
      else none

/-! ### Placement -/

/-- Copy a segment to its place and grant it; the writable part of the process may begin there. -/
def placeSegment (p imgBase : Nat) (dest : LoadRegion) (region : Option Nat) (seg : SosimgSeg) (rwBase : Nat) :
    M Nat := do
  if seg.isDeviceGrant then
    recordGrant p seg.loadAddr (← addWord seg.loadAddr seg.memLen) seg.loadAddr seg.flags true none
    return rwBase
  else
    let loadPa ← dest.physOf seg.loadAddr
    longCopy loadPa (← addWord imgBase seg.fileOff) seg.fileLen
    longZero (← addWord loadPa seg.fileLen) (← subWord seg.memLen seg.fileLen)
    let top ← alignUpWord (← addWord seg.loadAddr seg.memLen) Hal.protGrain
    recordGrant p seg.loadAddr top loadPa seg.flags false region
    return if seg.flags &&& segWrite ≠ 0 && seg.loadAddr < rwBase then seg.loadAddr else rwBase

/-- Place the segments of an image and its stack; answers where the writable part begins. -/
def placeImage (p imgBase : Nat) (dest : LoadRegion) (region : Option Nat) : M Nat := do
  mark (.placing imgBase dest 0)
  let count := (← reads fun s => Build.headerAt s.mem imgBase).segCount
  let rwBase ← loop (fun (at' : Nat × Nat) => do
    let (i, rwBase) := at'
    if i < count then
      mark (.placing imgBase dest i)
      let seg ← reads fun s => Build.segAt s.mem (imgBase + Build.headerLen + i * Build.segLen)
      return .inl (i + 1, ← placeSegment p imgBase dest region seg rwBase)
    else
      return .inr rwBase) (0, dest.linkTop - dest.stackLen)
  recordGrant p (dest.linkTop - dest.stackLen) dest.linkTop (dest.top - dest.stackLen) (segRead ||| segWrite) false
    region
  return rwBase

/-! ### Boot -/

/-- Mint the root process a handle on each region of the boot table. -/
def mintBootRegion (p i : Nat) (row : BootRegion) : M Unit := do
  whenever (wordModulus ≤ row.base || wordModulus ≤ row.len) (halt .fatalImage)
  let base := Hal.virtToPhys row.base
  whenever (1 < row.kind) (halt .fatalImage)
  whenever (!(← bootHandleRoom p)) (halt .fatalImage)
  if row.kind = 0 then
    match ← allocMemory with
    | none => halt .fatalImage
    | some slot =>
      memories.write slot ⟨.live, p, base, row.len, 1, 0, some slot, none, 0, 0, ⟨⟨base, row.len⟩, [], []⟩⟩
      let handle ← mintHandle p .memory memoryRights slot
      whenever (handle = noHandle) (halt .fatalImage)
      quotaCharge p .memory
      queueBootHandle p i .memory handle
  else
    match ← allocIoMemory with
    | none => halt .fatalImage
    | some slot =>
      ioMemories.write slot ⟨.live, p, base, row.len, 1⟩
      let handle ← mintHandle p .ioMemory iomemoryRights slot
      whenever (handle = noHandle) (halt .fatalImage)
      quotaCharge p .ioMemory
      queueBootHandle p i .ioMemory handle

def mintBootRegions (p : Nat) : M Unit := do
  whenever (maxMemories + maxIoMemories < Build.bootRegions.length) (halt .fatalImage)
  countUp (fun i => match Build.bootRegions[i]? with
    | none => pure ()
    | some row => mintBootRegion p i row) Build.bootRegions.length 0

def statsClear (p : Nat) : M Unit :=
  modifies fun s => { s with stats := fun i => if i = p then ⟨0, 0, 0⟩ else s.stats i }

def startProcess (entry stackTop regionBase regionTop rwBase rwTop : Nat) : M Unit := do
  let p := rootProcess
  processes.modify p fun root => { root with
    state := .running, entry := entry, stackTop := stackTop, regionBase := regionBase, regionTop := regionTop,
    rwBase := rwBase, rwTop := rwTop, exitKind := .running, exitCode := 0, refs := 0, imageRows := root.grantCount }
  statsClear p
  installQuotaLimits p true (Hal.grantRowBudget - (← processes.read p).grantCount)
  let system ← mintHandle p .system rootSystemRights 0
  let _ ← mintHandle p .process processRights p
  refObject .process p
  match ← allocThread with
  | none => halt .panic
  | some main =>
    let _ ← mintHandle p .thread threadRights main
    threads.write main { ThreadSlot.vacant with state := .running, process := p }
    quotaCharge p .thread
    modifies ({ · with currentThread := some main, sliceLeft := sliceTicks })
    whenever (system ≠ rootSystemHandle) (halt .fatalImage)
    mintBootRegions p
    modifies ({ · with lastProtProcess := some p })
    frameInit main entry stackTop system

def rootRegion : LoadRegion :=
  ⟨Hal.rootLoadBase, Hal.rootRegionTop, Hal.rootStackLen, Hal.imageLinkBase Hal.rootLoadBase⟩

def loadRootAndEnter : M Unit := do
  let base : Nat := Build.payloadStart
  whenever (Build.payloadEnd < base) (halt .fatalImage)
  let imgLen := Build.payloadEnd - base
  let dest := rootRegion
  let fault ← reads fun s => (validateImage s.mem base imgLen dest true).isSome
  whenever fault (halt .fatalImage)
  let entry ← reads fun s => (Build.headerAt s.mem base).entry
  let rwBase ← placeImage rootProcess base dest none
  loadDomain rootProcess
  startProcess entry dest.linkTop dest.linkBase dest.linkTop rwBase dest.linkTop

end Sawos
