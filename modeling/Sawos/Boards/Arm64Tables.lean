import Sawos.Hal

/-! # The arm64 board: page tables

Each process slot owns a set of translation tables, and its two level-3 windows, over memory and over the device
block, are edited a page at a time when its record changes. An address is that of a byte of the pool of tables,
counted from the pool's base. -/

namespace Sawos.Arm64

def protGrain : Nat := 4096
def protDomainSlots : Nat := 5
def ramBase : Nat := 0x40000000
def ramLen : Nat := 128 * 1024 * 1024
def uartBase : Nat := 0x09000000
def pageSize : Nat := 4096
def pageShift : Nat := 12
def blockShift : Nat := 21
def descBytes : Nat := 8
def ptEntries : Nat := 512
def grantPages : Nat := 1024
def ptSetBytes : Nat := (512 + 512 + 1024 + 512 + 512) * 8
def level3Offset : Nat := 8192
def deviceLevel3Offset : Nat := 20480
def deviceWindowBase : Nat := uartBase >>> blockShift <<< blockShift
def deviceWindowLen : Nat := 1 <<< blockShift

/-! ### Descriptors -/

def descAbsent : Nat := 0
def descValid : Nat := 0x1
def descPage : Nat := 0x2
def attrShInner : Nat := 0x300
def attrAf : Nat := 0x400
def attrNg : Nat := 0x800
def attrPxn : Nat := 0x20000000000000
def attrUxn : Nat := 0x40000000000000
def mairIndexShift : Nat := 2

inductive AccessPerm where
  | el1Rw | el0Rw | el1Ro | el0Ro

def AccessPerm.word : AccessPerm → Nat
  | .el1Rw => 0
  | .el0Rw => 64
  | .el1Ro => 128
  | .el0Ro => 192

inductive MemoryType where
  | device | normal | deviceNGnRE

def MemoryType.attrIndex : MemoryType → Nat
  | .device => 0 <<< mairIndexShift
  | .normal => 1 <<< mairIndexShift
  | .deviceNGnRE => 2 <<< mairIndexShift

/-- The attributes of a page of memory granted with `perms`. -/
def regionAttrs (perms : Nat) : Nat :=
  let attrs := descValid ||| descPage ||| MemoryType.normal.attrIndex ||| attrAf ||| attrShInner ||| attrNg ||| attrPxn
  let attrs := attrs ||| if perms &&& segWrite ≠ 0 then AccessPerm.el0Rw.word else AccessPerm.el0Ro.word
  if perms &&& segExecute = 0 then attrs ||| attrUxn else attrs

def deviceAttrs : Nat :=
  descValid ||| descPage ||| MemoryType.deviceNGnRE.attrIndex ||| attrAf ||| attrNg ||| AccessPerm.el0Rw.word |||
    attrPxn ||| attrUxn

/-! ### Tables -/

structure Tables where
  desc : Nat → Nat
  currentSet : Nat

/-- The sets as they are built at the start: nothing is granted. -/
def Tables.boot : Tables := ⟨fun _ => descAbsent, 0⟩

def setBase (set : Nat) : Nat := set * ptSetBytes

def putDesc (table index desc : Nat) (u : Tables) : Tables :=
  { u with desc := fun a => if a = table + index * descBytes then desc else u.desc a }

def resetTable (table : Nat) : Nat → Tables → Tables
  | 0, u => u
  | n + 1, u => putDesc table n descAbsent (resetTable table n u)

def resetWindow (level3 : Nat) (u : Tables) : Tables := resetTable level3 grantPages u

def resetDeviceWindow (level3 : Nat) (u : Tables) : Tables := resetTable level3 ptEntries u

/-- The start of the page of an address. -/
def pageStart (va : Nat) : Nat := va - (va &&& (pageSize - 1))

/-- How many pages a walk from the start of a page visits while it is below `top`. -/
def pageCount (start top : Nat) : Nat := (top - start + (pageSize - 1)) / pageSize

/-- Edit `n` pages from `va` on: `edit` says which descriptor of which table an address selects and what is
    written there, and is `none` where the code stops. -/
def walkPages (edit : Nat → Option (Nat × Nat × Nat)) : Nat → Nat → Tables → Option Tables
  | 0, _, u => some u
  | n + 1, va, u =>
    match edit va with
    | none => none
    | some (table, index, desc) => walkPages edit n (va + pageSize) (putDesc table index desc u)

def installRegion (level3 base top pa perms : Nat) (u : Tables) : Option Tables :=
  let vaStart := pageStart base
  let paStart := pageStart pa
  walkPages (fun va =>
    if va < ramBase then none
    else
      let page := (va - ramBase) >>> pageShift
      if grantPages ≤ page then none else some (level3, page, paStart + (va - vaStart) ||| regionAttrs perms))
    (pageCount vaStart top) vaStart u

def installDevice (devLevel3 base len : Nat) (u : Tables) : Option Tables :=
  let vaStart := pageStart base
  walkPages (fun va =>
    if va < deviceWindowBase || deviceWindowBase + deviceWindowLen ≤ va then none
    else some (devLevel3, (va - deviceWindowBase) >>> pageShift, va ||| deviceAttrs))
    (pageCount vaStart (base + len)) vaStart u

/-- The pages of a range, absent from now on; an address below its window stops the machine. -/
def revoke (level1 base top : Nat) (device : Bool) (u : Tables) : Option Tables :=
  let vaStart := pageStart base
  let table := level1 + if device then deviceLevel3Offset else level3Offset
  let window := if device then deviceWindowBase else ramBase
  walkPages (fun va => if va < window then none else some (table, (va - window) >>> pageShift, descAbsent))
    (pageCount vaStart top) vaStart u

def protUpdate (p base top pa perms : Nat) (device : Bool) (u : Tables) : Option Tables :=
  let level1 := setBase p
  if perms = 0 then revoke level1 base top device u
  else if device then installDevice (level1 + deviceLevel3Offset) base (top - base) u
  else installRegion (level1 + level3Offset) base top pa perms u

def protClear (p : Nat) (u : Tables) : Tables :=
  let level1 := setBase p
  resetDeviceWindow (level1 + deviceLevel3Offset) (resetWindow (level1 + level3Offset) u)

def tablesBase (u : Tables) : Nat := setBase u.currentSet

def protReset (u : Tables) : Tables :=
  resetDeviceWindow (tablesBase u + deviceLevel3Offset) (resetWindow (tablesBase u + level3Offset) u)

def protRegion (_idx base top perms : Nat) (u : Tables) : Option Tables :=
  installRegion (tablesBase u + level3Offset) base top base perms u

def protDevice (_idx base len : Nat) (u : Tables) : Option Tables :=
  installDevice (tablesBase u + deviceLevel3Offset) base len u

def protSwitch (p : Nat) (u : Tables) : Tables := { u with currentSet := p }

def deviceWindowOk (base len : Nat) : Bool :=
  if len < protGrain || len % protGrain ≠ 0 then false
  else if base % protGrain ≠ 0 then false
  else deviceWindowBase ≤ base && len ≤ deviceWindowBase + deviceWindowLen - base

end Sawos.Arm64
