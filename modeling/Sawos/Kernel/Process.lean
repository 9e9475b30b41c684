import Sawos.Kernel.Waitables

/-! # Processes: grant rows, the copy door and the boot regions -/

namespace Sawos
open Exec

variable [Hal]

/-- `alignUp` on machine words. -/
def alignUpWord (v align : Nat) : M Nat :=
  if alignUp v align < wordModulus then pure (alignUp v align) else halt .panic

def allocProcess : M (Option Nat) := reads fun s =>
  (List.range (min s.processes.cap Hal.protDomainSlots)).find? fun i => (s.processes.slot i).state = .free

def reclaimProcessSlot (slot : Nat) : M Unit :=
  processes.modify slot fun p => if p.state = .gone ∧ p.refs = 0 then { p with state := .free } else p

/-! ### Grant rows -/

/-- Run an operation of the protection unit. -/
def prot (f : Hal.Prot → Hal.Prot) : M Unit := modifies fun s => { s with prot := f s.prot }

/-- Run one that may refuse its arguments, which stops the machine. -/
def protTry (f : Hal.Prot → Option Hal.Prot) : M Unit := do
  match ← reads fun s => f s.prot with
  | none => halt .panic
  | some u => modifies ({ · with prot := u })

def protUpdate (p base top pa perms : Nat) (device : Bool) : M Unit :=
  protTry (Hal.protUpdate p base top pa perms device)

/-- The rows in force, in the order they were installed. -/
def ProcessSlot.rows (slot : ProcessSlot) : List GrantRow := (List.range slot.grantCount).map slot.grants

def ProcessSlot.pushRow (slot : ProcessSlot) (row : GrantRow) : ProcessSlot :=
  { slot with grants := fun i => if i = slot.grantCount then row else slot.grants i, grantCount := slot.grantCount + 1 }

def ProcessSlot.dropRow (slot : ProcessSlot) (row : Nat) : ProcessSlot :=
  { slot with
    grants := fun i => if row ≤ i ∧ i + 1 < slot.grantCount then slot.grants (i + 1) else slot.grants i
    grantCount := slot.grantCount - 1 }

def recordGrant (p base top pa perms : Nat) (device : Bool) (region : Option Nat) : M Unit := do
  if (← processes.read p).grantCount < maxGrantRows then
    processes.modify p (·.pushRow ⟨base, top, pa, perms, device, region⟩)
    refRegionRow region
    protUpdate p base top pa perms device
  else
    halt .fatalImage

/-- One pass over the rows: an address that a row overlaps moves behind that row. -/
def bumpPastRows (slot : ProcessSlot) (len va : Nat) : M Nat :=
  loop (fun (at' : Nat × Nat) => do
    let (i, va) := at'
    if i < slot.grantCount then
      let row := slot.grants i
      if !row.device && va < row.top then
        if row.base < (← addWord va len) then return .inl (i + 1, ← alignUpWord row.top Hal.protGrain)
        else return .inl (i + 1, va)
      else
        return .inl (i + 1, va)
    else
      return .inr va) (0, va)

/-- The lowest address at or above the region's top where `len` bytes overlap no row, as far as the passes go. -/
def freeUserVa (p len : Nat) : M Nat := do
  let slot ← processes.read p
  loop (fun (at' : Nat × Nat) => do
    let (pass, va) := at'
    if slot.grantCount < pass || wordMax - va < len then return .inr va
    let bumped ← bumpPastRows slot len va
    return if bumped = va then .inr va else .inl (pass + 1, bumped)) (0, slot.regionTop)

/-- Where a user address is, and that `bytes` from there stay in the row that covers it. -/
def translateUser (p va bytes : Nat) : M (Except FaultReason Nat) := do
  match (← processes.read p).rows.find? fun row => !row.device && row.base ≤ va && va < row.top with
  | none => return .error .badBuffer
  | some row =>
    if row.top - va < bytes then return .error .badBuffer
    else return .ok (← addWord row.pa (va - row.base))

/-- Stage row `i` of a record in the protection unit. -/
def loadRow (slot : ProcessSlot) (i : Nat) : M Unit :=
  let row := slot.grants i
  if row.device then protTry (Hal.protDevice i row.pa (row.top - row.base))
  else do
    let top ← addWord row.pa (row.top - row.base)
    protTry (Hal.protRegion i row.pa top row.perms)

def loadDomain (p : Nat) : M Unit := do
  let slot ← processes.read p
  whenever Hal.protReplayAtSwitch do
    prot Hal.protReset
    countUp (loadRow slot) slot.grantCount 0
    prot Hal.protCommit
  prot (Hal.protSwitch p)
  modifies ({ · with lastProtProcess := some p })

def removeGrant (p row : Nat) : M Unit := do
  if row < maxGrantRows then
    let gone := (← processes.read p).grants row
    mark (.revoke p row)
    protUpdate p gone.base gone.top gone.pa 0 gone.device
    processes.modify p (·.dropRow row)
    unrefRegionRow gone.region
  else
    halt .panic

def domainChanged (p : Nat) : M Unit := do
  whenever ((← reads K.lastProtProcess) = some p) (loadDomain p)

def clearDomain (p : Nat) : M Unit := do
  let slot ← processes.read p
  processes.modify p ({ · with grantCount := 0, imageRows := 0 })
  prot (Hal.protClear p)
  countUp (fun i => unrefRegionRow (slot.grants i).region) slot.grantCount 0
  whenever ((← reads K.lastProtProcess) = some p) (modifies ({ · with lastProtProcess := none }))

/-! ### The copy door -/

/-- The checks of both directions, over the bounds that the direction has. -/
def copyCheck (p addr bytes low high : Nat) : M (Option FaultReason) := do
  if addr % wordBytes ≠ 0 then return some .badAlign
  if addr < low || high ≤ addr || high - addr < bytes then return some .badBuffer
  match ← translateUser p addr bytes with
  | .error why => return some why
  | .ok _ => return none

def copyOutCheck (p dst bytes : Nat) : M (Option FaultReason) := do
  let slot ← processes.read p
  copyCheck p dst bytes slot.rwBase slot.rwTop

def copyInCheck (p src bytes : Nat) : M (Option FaultReason) := do
  let slot ← processes.read p
  copyCheck p src bytes slot.regionBase slot.regionTop

/-- Physical memory with `data` from `pa` on. -/
def storeBytes (mem : Nat → UInt8) (pa : Nat) (data : List UInt8) : Nat → UInt8 := fun a =>
  if pa ≤ a ∧ a < pa + data.length then data.getD (a - pa) 0 else mem a

def loadBytes (mem : Nat → UInt8) (pa bytes : Nat) : List UInt8 := (List.range bytes).map fun i => mem (pa + i)

def copyOut (p dst : Nat) (data : List UInt8) : M (Option FaultReason) := do
  match ← copyOutCheck p dst data.length with
  | some why => return some why
  | none =>
    match ← translateUser p dst data.length with
    | .error why => return some why
    | .ok pa =>
      modifies fun s => { s with mem := storeBytes s.mem pa data }
      return none

def copyIn (p src bytes : Nat) : M (Except FaultReason (List UInt8)) := do
  match ← copyInCheck p src bytes with
  | some why => return .error why
  | none =>
    match ← translateUser p src bytes with
    | .error why => return .error why
    | .ok pa => return .ok (← reads fun s => loadBytes s.mem pa bytes)

end Sawos
