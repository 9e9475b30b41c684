import Sawos.Abi

/-! # The machine under the kernel core

What the core asks of the hardware layer of its board: constants, address arithmetic, the interrupt
controller's line numbers and the protection unit. The layout of the image format and the sizes of the
kernel's slots are not the core's to say either, and stand here with them. -/

namespace Sawos

structure SosimgHeader where
  hasMagic : Bool
  hasKnownVersion : Bool
  isForArch : Bool
  segCount : Nat
  entry : Nat

structure SosimgSeg where
  loadAddr : Nat
  fileOff : Nat
  fileLen : Nat
  memLen : Nat
  flags : Nat
  isDeviceGrant : Bool
  hasSanePerms : Bool
  /-- Sane permissions permit something. -/
  sane : hasSanePerms = true → flags ≠ 0

def SosimgSeg.memCoversFile (seg : SosimgSeg) : Bool := seg.fileLen ≤ seg.memLen

/-! The permission bits of a segment, and of a grant row. -/

def segRead : Nat := 1
def segWrite : Nat := 2
def segExecute : Nat := 4

/-- Where an image is loaded: its physical region, the stack at the region's top, and the address it is linked
    for. -/
structure LoadRegion where
  base : Nat
  top : Nat
  stackLen : Nat
  linkBase : Nat
  deriving DecidableEq

def LoadRegion.linkTop (dest : LoadRegion) : Nat := dest.linkBase + (dest.top - dest.base)

/-- A row of the table of boot regions that the machine's image carries. -/
structure BootRegion where
  base : Nat
  len : Nat
  kind : Nat

/-- What the build of a machine decides, and the image format that its loader reads. -/
class Build where
  payloadStart : Nat
  payloadEnd : Nat
  bootRegions : List BootRegion
  statsRegionBase : Nat
  statsRegionLen : Nat
  headerLen : Nat
  segLen : Nat
  headerAt : (Nat → UInt8) → Nat → SosimgHeader
  segAt : (Nat → UInt8) → Nat → SosimgSeg
  slotBytes : SlabKind → Nat
  slotAlign : SlabKind → Nat
  exchangeSlotBytes : Nat
  exchangeSlotAlign : Nat
  slotBytes_pos : ∀ k, 0 < slotBytes k
  slotAlign_pos : ∀ k, 0 < slotAlign k

class Hal extends Build where
  wordBits : Nat
  protGrain : Nat
  grantRowBudget : Nat
  protDomainSlots : Nat
  maxRootSegments : Nat
  rootLoadBase : Nat
  rootRegionTop : Nat
  rootStackLen : Nat
  deviceGrantBase : Nat
  deviceGrantLen : Nat
  protIsolated : Bool
  virtToPhys : Nat → Nat
  imageLinkBase : Nat → Nat
  mapPlace : (va pa : Nat) → (device : Bool) → Nat
  mapSourceOk : (base top : Nat) → Bool
  mapTargetOk : (base top : Nat) → Bool
  deviceWindowOk : (base len : Nat) → Bool
  irqNone : Nat
  irqTimer : Nat
  irqLineValid : Nat → Bool
  /-- Where a thread goes on that trapped at an address to make a system call. -/
  resumePc : Nat → Nat
  /-- The state of the protection unit. -/
  Prot : Type
  protBoot : Prot
  protReplayAtSwitch : Bool
  protReset : Prot → Prot
  /-- Like `protDevice` and `protUpdate`, `none` where the code refuses its arguments and stops. -/
  protRegion : (idx base top perms : Nat) → Prot → Option Prot
  protDevice : (idx base len : Nat) → Prot → Option Prot
  protCommit : Prot → Prot
  protSwitch : (p : Nat) → Prot → Prot
  protUpdate : (p base top pa perms : Nat) → (device : Bool) → Prot → Option Prot
  protClear : (p : Nat) → Prot → Prot
  protGrain_pow : ∃ k, protGrain = 2 ^ k
  /-- No board has a line 0. -/
  irqLineValid_zero : irqLineValid 0 = false

/-- `v` rounded up to a multiple of the power of two `align`. -/
def alignUp (v align : Nat) : Nat :=
  let rem := v &&& (align - 1)
  if rem = 0 then v else v + (align - rem)

theorem le_alignUp (v align : Nat) : v ≤ alignUp v align := by
  simp only [alignUp]
  split
  · exact Nat.le_refl v
  · exact Nat.le_add_right _ _

section
variable [Hal]

/-- One more than the greatest machine word. -/
def wordModulus : Nat := 2 ^ Hal.wordBits

def wordMax : Nat := wordModulus - 1

def wordBytes : Nat := Hal.wordBits / 8

end

end Sawos
