import Sawos.Hal

/-! # The riscv32 boards: physical memory protection

The protection unit is sixteen address registers and four configuration words, a byte for each entry. A grant
row spends the two entries `2 * idx` and `2 * idx + 1`. -/

namespace Sawos.Pmp

def protGrain : Nat := 4
def grantRowBudget : Nat := 8
def maxRootSegments : Nat := 7
def protDomainSlots : Nat := 256

def deviceWindowOk (base len : Nat) : Bool :=
  if len < protGrain then false
  else if len &&& (len - 1) ≠ 0 then false
  else base % len = 0

def pmpRegions : Nat := grantRowBudget
def pmpATor : Nat := 0x8
def pmpANapot : Nat := 0x18
def pmpPermMask : Nat := 0x7
def pmpPermRw : Nat := 0x3
def pmpGrainShift : Nat := 2
def pmpCfgsPerWord : Nat := 4
def bitsPerPmpCfg : Nat := 8

/-- The registers, and the shadow words that the next commit publishes. -/
structure Regs where
  addr : Nat → Nat
  cfg : Nat → Nat
  shadow : Nat → Nat

def Regs.boot : Regs := ⟨fun _ => 0, fun _ => 0, fun _ => 0⟩

def pmpaddrWrite (i v : Nat) (u : Regs) : Regs := { u with addr := fun j => if j = i then v else u.addr j }

def protReset (u : Regs) : Regs :=
  { addr := fun j => if j < pmpRegions * 2 then 0 else u.addr j, cfg := fun _ => 0, shadow := fun _ => 0 }

/-- Put the configuration byte of an entry in the shadow word that holds it. -/
def stageCfg (entry cfg : Nat) (u : Regs) : Regs :=
  let word := min (entry / pmpCfgsPerWord) 3
  let shift := bitsPerPmpCfg * (entry % pmpCfgsPerWord)
  { u with shadow := fun w => if w = word then u.shadow w ||| cfg <<< shift else u.shadow w }

def protRegion (idx base top perms : Nat) (u : Regs) : Regs :=
  if pmpRegions ≤ idx then u
  else
    let lo := idx * 2
    let hi := lo + 1
    stageCfg hi (perms &&& pmpPermMask ||| pmpATor)
      (pmpaddrWrite hi (top >>> pmpGrainShift) (pmpaddrWrite lo (base >>> pmpGrainShift) u))

def napotBound (base len : Nat) : Nat := (base ||| (len / 2 - 1)) >>> pmpGrainShift

def protDevice (idx base len : Nat) (u : Regs) : Regs :=
  if pmpRegions ≤ idx then u
  else
    let entry := idx * 2 + 1
    stageCfg entry (pmpPermRw ||| pmpANapot) (pmpaddrWrite entry (napotBound base len) u)

def protCommit (u : Regs) : Regs := { u with cfg := u.shadow }

/-- The tier's user addresses are physical addresses. -/
def protUpdate (_p base _top pa _perms : Nat) (_device : Bool) (u : Regs) : Option Regs :=
  if pa = base then some u else none

end Sawos.Pmp
