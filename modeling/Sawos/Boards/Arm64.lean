import Sawos.Boards.Arm64Tables

/-! # The arm64 board -/

namespace Sawos.Arm64

def vaBits : Nat := 39
def linmapPhysMask : Nat := 1 <<< vaBits - 1
def userImageBase : Nat := 0x40200000
def timerIrq : Nat := 30

/-- The number of lines is what the interrupt controller reports. -/
class Gic where
  lineCount : Nat

/-- The board, for what a build of it decides. -/
@[reducible] def board [build : Build] [gic : Gic] : Hal where
  toBuild := build
  wordBits := 64
  protGrain := protGrain
  grantRowBudget := 9
  protDomainSlots := protDomainSlots
  maxRootSegments := 8
  rootLoadBase := 0x40200000
  rootRegionTop := 0x40240000
  rootStackLen := 0x4000
  deviceGrantBase := uartBase
  deviceGrantLen := 0x1000
  protIsolated := true
  virtToPhys va := va &&& linmapPhysMask
  imageLinkBase _ := userImageBase
  mapPlace cursor pa device := if device then pa else cursor
  mapSourceOk base top := base < top && ramBase ≤ base && top ≤ ramBase + ramLen
  mapTargetOk base top := base < top && ramBase ≤ base && top ≤ ramBase + (grantPages <<< pageShift)
  deviceWindowOk := deviceWindowOk
  irqNone := 0
  irqTimer := timerIrq
  irqLineValid line := line ≠ 0 && line < gic.lineCount
  -- The saved program counter is already past the instruction that trapped.
  resumePc pc := pc
  Prot := Tables
  protBoot := .boot
  protReplayAtSwitch := false
  protReset := protReset
  protRegion := protRegion
  protDevice := protDevice
  protCommit u := u
  protSwitch := protSwitch
  protUpdate := protUpdate
  protClear := protClear
  protGrain_pow := ⟨12, rfl⟩
  irqLineValid_zero := rfl

end Sawos.Arm64
