import Sawos.Boards.Pmp

/-! # The riscv32 boards -/

namespace Sawos.Riscv32

/-- The machines of this profile that isolate their processes. -/
inductive Machine where
  | virt | esp32c3

/-- The machine that a kernel is built for. -/
class Target where
  machine : Machine

def ramBase : Machine → Nat
  | .virt => 0x80000000
  | .esp32c3 => 0x4037C000

def ramTop : Machine → Nat
  | .virt => 0x88000000
  | .esp32c3 => 0x403E0000

def rootLoadBase : Machine → Nat
  | .virt => 0x80200000
  | .esp32c3 => 0x403A6000

def rootRegionTop : Machine → Nat
  | .virt => 0x80240000
  | .esp32c3 => 0x403C5000

def rootStackLen : Nat := 0x4000

def uartBase : Machine → Nat
  | .virt => 0x10000000
  | .esp32c3 => 0x60000000

/-- The greatest source of the interrupt controller. -/
def maxSource : Machine → Nat
  | .virt => 95
  | .esp32c3 => 62

def mapRangeOk (m : Machine) (base top : Nat) : Bool := base < top && ramBase m ≤ base && top ≤ ramTop m

/-- The board, for what a build of it decides. -/
@[reducible] def board [build : Build] [target : Target] : Hal where
  toBuild := build
  wordBits := 32
  protGrain := Pmp.protGrain
  grantRowBudget := Pmp.grantRowBudget
  protDomainSlots := Pmp.protDomainSlots
  maxRootSegments := Pmp.maxRootSegments
  rootLoadBase := rootLoadBase target.machine
  rootRegionTop := rootRegionTop target.machine
  rootStackLen := rootStackLen
  deviceGrantBase := uartBase target.machine
  deviceGrantLen := 0x1000
  protIsolated := true
  virtToPhys va := va
  imageLinkBase destBase := destBase
  mapPlace _ pa _ := pa
  mapSourceOk := mapRangeOk target.machine
  mapTargetOk := mapRangeOk target.machine
  deviceWindowOk := Pmp.deviceWindowOk
  irqNone := 0
  irqTimer := 1024
  irqLineValid line := line ≠ 0 && line ≤ maxSource target.machine
  resumePc pc := pc + 4
  Prot := Pmp.Regs
  protBoot := .boot
  protReplayAtSwitch := true
  protReset := Pmp.protReset
  protRegion idx base top perms u := some (Pmp.protRegion idx base top perms u)
  protDevice idx base len u := some (Pmp.protDevice idx base len u)
  protCommit := Pmp.protCommit
  protSwitch _ u := u
  protUpdate := Pmp.protUpdate
  protClear _ u := u
  protGrain_pow := ⟨2, rfl⟩
  irqLineValid_zero := rfl

end Sawos.Riscv32
