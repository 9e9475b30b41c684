import Sawos.Lib.Rates

/-! # Nanoseconds and the counters of the boards

Each board rounds a deadline up to a unit of its counter, and reads its clock from the counter. The arithmetic is
checked: a sum or a product that does not fit its 64 bits ends in a panic, here `none`. -/

namespace Sawos

def uint64Max : Nat := 2 ^ 64 - 1

/-- What checked arithmetic makes of a sum or a product. -/
def checked64 (v : Nat) : Option Nat := if v ≤ uint64Max then some v else none

theorem checked64_of_le {v : Nat} (fits : v ≤ uint64Max) : checked64 v = some v := if_pos fits

/-! ### The riscv32 virt board, with 100 ns in a unit -/

namespace Riscv32

def nsPerUnit : Nat := 100

def nsToUnits (ns : Nat) : Option Nat := do
  if uint64Max - (nsPerUnit - 1) < ns then
    return uint64Max / nsPerUnit
  return ((← checked64 (ns + nsPerUnit)) - 1) / nsPerUnit

def timerNowNs (count : Nat) : Option Nat := checked64 (count * nsPerUnit)

end Riscv32

/-! ### The ESP32-C3, with 125 ns in two units -/

namespace Esp32c3

def nsPerUnitNum : Nat := 125
def nsPerUnitDen : Nat := 2

def nsToUnits (ns : Nat) : Option Nat := do
  if (uint64Max - (nsPerUnitNum - 1)) / nsPerUnitDen < ns then
    return ← checked64 (uint64Max / nsPerUnitNum * nsPerUnitDen)
  return ((← checked64 ((← checked64 (ns * nsPerUnitDen)) + nsPerUnitNum)) - 1) / nsPerUnitNum

def timerNowNs (count : Nat) : Option Nat := do
  return (← checked64 (count * nsPerUnitNum)) / nsPerUnitDen

end Esp32c3

/-! ### The arm64 board, with as many units in a second as its timer says -/

namespace Arm64

def nsPerSecond : Nat := 1000000000

def unitsToNs (freq units : Nat) : Option Nat := do
  let secs ← checked64 (units / freq * nsPerSecond)
  checked64 (secs + (← checked64 (units % freq * nsPerSecond)) / freq)

def nsToUnits (freq ns : Nat) : Option Nat := do
  let secs := ns / nsPerSecond
  if uint64Max / freq < secs then
    return uint64Max
  let rem := ns % nsPerSecond
  let whole ← checked64 (secs * freq)
  checked64 (whole + ((← checked64 ((← checked64 (rem * freq)) + nsPerSecond)) - 1) / nsPerSecond)

def timerNowNs (freq count : Nat) : Option Nat := unitsToNs freq count

end Arm64

/-- A board and, where the machine says it, the frequency of its timer. -/
inductive ClockBoard where
  | riscv32
  | esp32c3
  | arm64 (freq : Nat) (ticks : 0 < freq) (atMost : freq ≤ 1000000000)

namespace ClockBoard

def nsToUnits : ClockBoard → Nat → Option Nat
  | riscv32 => Riscv32.nsToUnits
  | esp32c3 => Esp32c3.nsToUnits
  | arm64 freq _ _ => Arm64.nsToUnits freq

def timerNowNs : ClockBoard → Nat → Option Nat
  | riscv32 => Riscv32.timerNowNs
  | esp32c3 => Esp32c3.timerNowNs
  | arm64 freq _ _ => Arm64.timerNowNs freq

/-- The clock's formula in exact arithmetic. -/
def exactNs : ClockBoard → Nat → Nat
  | riscv32, u => u * Riscv32.nsPerUnit
  | esp32c3, u => u * Esp32c3.nsPerUnitNum / Esp32c3.nsPerUnitDen
  | arm64 freq _ _, u => u / freq * Arm64.nsPerSecond + u % freq * Arm64.nsPerSecond / freq

/-- The last time that is not cut off. -/
def guard : ClockBoard → Nat
  | riscv32 => uint64Max - (Riscv32.nsPerUnit - 1)
  | esp32c3 => (uint64Max - (Esp32c3.nsPerUnitNum - 1)) / Esp32c3.nsPerUnitDen
  | arm64 freq _ _ => uint64Max / freq * Arm64.nsPerSecond + (Arm64.nsPerSecond - 1)

/-- What a time behind the guard is cut off at. -/
def cut : ClockBoard → Nat
  | riscv32 => uint64Max / Riscv32.nsPerUnit
  | esp32c3 => uint64Max / Esp32c3.nsPerUnitNum * Esp32c3.nsPerUnitDen
  | arm64 _ _ _ => uint64Max

/-- So many units ... -/
def units : ClockBoard → Nat
  | riscv32 => 1
  | esp32c3 => Esp32c3.nsPerUnitDen
  | arm64 freq _ _ => freq

/-- ... take so many nanoseconds. -/
def nanos : ClockBoard → Nat
  | riscv32 => Riscv32.nsPerUnit
  | esp32c3 => Esp32c3.nsPerUnitNum
  | arm64 _ _ _ => Arm64.nsPerSecond

/-- The one time whose sum does not fit, though it is not behind the guard: the guard leaves room for 99 ns, and 100
    are added before one is taken off. -/
def Overflows : ClockBoard → Nat → Prop
  | riscv32, ns => ns = uint64Max - (Riscv32.nsPerUnit - 1)
  | _, _ => False

section
variable {b : ClockBoard} {ns u v count : Nat}

theorem units_pos : 0 < b.units := by
  cases b with
  | riscv32 => decide
  | esp32c3 => decide
  | arm64 freq ticks => exact ticks

theorem units_le_nanos : b.units ≤ b.nanos := by
  cases b with
  | riscv32 => decide
  | esp32c3 => decide
  | arm64 freq ticks atMost => exact atMost

theorem nanos_pos : 0 < b.nanos := Nat.lt_of_lt_of_le units_pos units_le_nanos

theorem exactNs_eq : b.exactNs u = Rates.down b.units b.nanos u := by
  cases b with
  | riscv32 => exact (Nat.div_one _).symm
  | esp32c3 => rfl
  | arm64 freq ticks => simpa [exactNs, Rates.down, units, nanos] using Rates.split_div u Arm64.nsPerSecond 0 ticks

theorem up_guard_le : Rates.up b.units b.nanos (min b.guard uint64Max) ≤ b.cut := by
  have fine := Rates.up_le_self (units_pos (b := b)) units_le_nanos
  cases b with
  | riscv32 => decide +kernel
  | esp32c3 => decide +kernel
  | arm64 freq ticks atMost => exact Nat.le_trans (fine _) (Nat.min_le_right _ _)

theorem nsToUnits_overflow (h : b.Overflows ns) : b.nsToUnits ns = none := by
  cases b with
  | riscv32 =>
    cases h
    decide
  | esp32c3 => cases h
  | arm64 => cases h

theorem riscv32_eq (le : ns ≤ uint64Max) (fits : ns ≠ uint64Max - (Riscv32.nsPerUnit - 1)) : Riscv32.nsToUnits ns =
    some (if uint64Max - (Riscv32.nsPerUnit - 1) < ns then uint64Max / Riscv32.nsPerUnit else
      Rates.up 1 Riscv32.nsPerUnit ns) := by
  unfold Riscv32.nsToUnits
  split
  · rfl
  · have sum : ns + Riscv32.nsPerUnit ≤ uint64Max := by
      simp only [Riscv32.nsPerUnit, uint64Max] at *
      omega
    rw [checked64_of_le sum, Rates.up, Nat.mul_one]
    rfl

theorem esp32c3_eq : Esp32c3.nsToUnits ns =
    some (if (uint64Max - (Esp32c3.nsPerUnitNum - 1)) / Esp32c3.nsPerUnitDen < ns then
      uint64Max / Esp32c3.nsPerUnitNum * Esp32c3.nsPerUnitDen
      else Rates.up Esp32c3.nsPerUnitDen Esp32c3.nsPerUnitNum ns) := by
  unfold Esp32c3.nsToUnits
  split
  · rw [checked64_of_le (by decide +kernel)]
  · have sum : ns * Esp32c3.nsPerUnitDen + Esp32c3.nsPerUnitNum ≤ uint64Max := by
      simp only [Esp32c3.nsPerUnitDen, Esp32c3.nsPerUnitNum, uint64Max] at *
      omega
    rw [checked64_of_le (Nat.le_of_add_right_le sum), Option.bind_eq_bind, Option.bind_some, checked64_of_le sum]
    rfl

theorem nsPerSecond_pos : 0 < Arm64.nsPerSecond := by simp [Arm64.nsPerSecond]

/-- A second has at most as many units as nanoseconds, so that the guard never cuts off. -/
theorem secs_le {freq : Nat} (ticks : 0 < freq) (atMost : freq ≤ Arm64.nsPerSecond) (le : ns ≤ uint64Max) :
    ns / Arm64.nsPerSecond ≤ uint64Max / freq :=
  Nat.le_trans (Nat.div_le_div_right le) (Nat.div_le_div_left atMost ticks)

theorem up_split (freq : Nat) :
    ns / Arm64.nsPerSecond * freq + (ns % Arm64.nsPerSecond * freq + Arm64.nsPerSecond - 1) / Arm64.nsPerSecond =
    Rates.up freq Arm64.nsPerSecond ns := by
  have split := Rates.split_div ns freq (Arm64.nsPerSecond - 1) nsPerSecond_pos
  have one := nsPerSecond_pos
  rwa [← Nat.add_sub_assoc one, ← Nat.add_sub_assoc one] at split

theorem arm64_eq {freq : Nat} (ticks : 0 < freq) (atMost : freq ≤ Arm64.nsPerSecond) (le : ns ≤ uint64Max) :
    Arm64.nsToUnits freq ns = some (Rates.up freq Arm64.nsPerSecond ns) := by
  have up_le : Rates.up freq Arm64.nsPerSecond ns ≤ uint64Max := Nat.le_trans (Rates.up_le_self ticks atMost ns) le
  have rem : ns % Arm64.nsPerSecond * freq + Arm64.nsPerSecond ≤ uint64Max := by
    have product := Nat.mul_le_mul (Nat.le_of_lt (Nat.mod_lt ns nsPerSecond_pos)) atMost
    simp only [Arm64.nsPerSecond, uint64Max] at *
    omega
  rw [← up_split] at up_le ⊢
  simp only [Arm64.nsToUnits, if_neg (Nat.not_lt.mpr (secs_le ticks atMost le))]
  rw [checked64_of_le (Nat.le_of_add_right_le up_le), Option.bind_eq_bind, Option.bind_some,
    checked64_of_le (Nat.le_of_add_right_le rem), Option.bind_some, checked64_of_le rem, Option.bind_some]
  exact checked64_of_le up_le

theorem nsToUnits_eq (le : ns ≤ uint64Max) (fits : ¬b.Overflows ns) :
    b.nsToUnits ns = some (if b.guard < ns then b.cut else Rates.up b.units b.nanos ns) := by
  cases b with
  | riscv32 => exact riscv32_eq le fits
  | esp32c3 => exact esp32c3_eq
  | arm64 freq ticks atMost =>
    have before : ns ≤ (arm64 freq ticks atMost).guard := by
      have secs := Nat.mul_le_mul_right Arm64.nsPerSecond (secs_le ticks atMost le)
      have whole := Nat.div_add_mod ns Arm64.nsPerSecond
      have rest := Nat.mod_lt ns nsPerSecond_pos
      rw [Nat.mul_comm] at whole
      simp only [guard]
      omega
    exact (arm64_eq ticks atMost le).trans (congrArg some (if_neg (Nat.not_lt.mpr before)).symm)

/-- The time `ns` is converted as a deadline has to be. -/
structure Converts (b : ClockBoard) (ns : Nat) : Prop where
  /-- Nothing on the way to its unit overflows. -/
  fits : ∃ u ≤ uint64Max, b.nsToUnits ns = some u
  /-- The unit of an earlier time is not behind. -/
  monotone : ∀ early ≤ ns, ∀ u v, b.nsToUnits early = some u → b.nsToUnits ns = some v → u ≤ v
  /-- Before the guard, the clock has come to the time from its unit on, and has not come to it in any unit before. -/
  due : ns ≤ b.guard → ∀ u, b.nsToUnits ns = some u → ∀ v, u ≤ v ↔ ns ≤ b.exactNs v

theorem nsToUnits_le (le : ns ≤ uint64Max) :
    (if b.guard < ns then b.cut else Rates.up b.units b.nanos ns) ≤ uint64Max := by
  split
  · cases b with
    | riscv32 => exact Nat.div_le_self _ _
    | esp32c3 => decide +kernel
    | arm64 => exact Nat.le_refl _
  · exact Nat.le_trans (Rates.up_le_self units_pos units_le_nanos ns) le

theorem converts_iff (le : ns ≤ uint64Max) : b.Converts ns ↔ ¬b.Overflows ns := by
  refine ⟨fun converts overflows => ?_, fun fits => ⟨⟨_, nsToUnits_le le, nsToUnits_eq le fits⟩, ?_, ?_⟩⟩
  · obtain ⟨u, -, some⟩ := converts.fits
    rw [nsToUnits_overflow overflows] at some
    cases some
  · intro early before u v hu hv
    have known : ¬b.Overflows early := fun overflows => by
      rw [nsToUnits_overflow overflows] at hu
      cases hu
    rw [nsToUnits_eq (Nat.le_trans before le) known] at hu
    rw [nsToUnits_eq le fits] at hv
    cases hu
    cases hv
    exact Rates.cut_mono (Rates.gc units_pos nanos_pos).monotone_l up_guard_le before le
  · intro before u hu v
    rw [nsToUnits_eq le fits, if_neg (Nat.not_lt.mpr before)] at hu
    cases hu
    rw [exactNs_eq]
    exact Rates.up_le_iff units_pos nanos_pos

/-- The counter values that the clock is asked about. -/
def InRange : ClockBoard → Nat → Prop
  | riscv32, count => count < 2 ^ 52
  | esp32c3, count => count < 2 ^ 52
  | b@(arm64 _ _ _), count => b.exactNs count ≤ uint64Max

theorem timerNowNs_eq (inside : b.InRange count) : b.timerNowNs count = some (b.exactNs count) := by
  cases b with
  | riscv32 =>
    have small : count < 2 ^ 52 := inside
    refine checked64_of_le ?_
    simp only [Riscv32.nsPerUnit, uint64Max]
    omega
  | esp32c3 =>
    have small : count < 2 ^ 52 := inside
    have product : count * Esp32c3.nsPerUnitNum ≤ uint64Max := by
      simp only [Esp32c3.nsPerUnitNum, uint64Max]
      omega
    simp only [timerNowNs, Esp32c3.timerNowNs]
    rw [checked64_of_le product]
    rfl
  | arm64 freq ticks atMost =>
    have sum : count / freq * Arm64.nsPerSecond + count % freq * Arm64.nsPerSecond / freq ≤ uint64Max := inside
    have product : count % freq * Arm64.nsPerSecond ≤ uint64Max := by
      have less := Nat.mul_le_mul_right Arm64.nsPerSecond (Nat.le_trans (Nat.le_of_lt (Nat.mod_lt count ticks)) atMost)
      refine Nat.le_trans less ?_
      simp [Arm64.nsPerSecond, uint64Max]
    simp only [timerNowNs, Arm64.timerNowNs, Arm64.unitsToNs]
    rw [checked64_of_le (Nat.le_of_add_right_le sum), Option.bind_eq_bind, Option.bind_some, checked64_of_le product,
      Option.bind_some]
    exact checked64_of_le sum

/-- Every 64-bit time is converted as a deadline has to be, but for one time on the riscv32 board; and the clock of
    each board can be read. -/
theorem conversions_are_exact_iff (b : ClockBoard) :
    (∀ ns ≤ uint64Max, (b.Converts ns ↔ ¬b.Overflows ns)) ∧
    ∀ count, b.InRange count → b.timerNowNs count = some (b.exactNs count) :=
  ⟨fun _ => converts_iff, fun _ => timerNowNs_eq⟩

/-- A time and a counter value that are converted on the riscv32 board. -/
theorem conversions_are_exact_iff_riscv32 : riscv32.Converts 1999 ∧ riscv32.timerNowNs 20 = some 2000 :=
  have exact := conversions_are_exact_iff riscv32
  ⟨(exact.1 1999 (by decide)).mpr (show 1999 ≠ uint64Max - (Riscv32.nsPerUnit - 1) by decide),
    exact.2 20 (show 20 < 2 ^ 52 by decide)⟩

/-- The riscv32 board panics on the way from this time to its unit, where its guard has let it through. -/
theorem guard_is_one_short : 18446744073709551516 ≤ uint64Max ∧ 18446744073709551516 ≤ riscv32.guard ∧
    riscv32.nsToUnits 18446744073709551516 = none := by
  decide

end

end ClockBoard

end Sawos
