import Mathlib.Data.Nat.Bitwise
import Mathlib.Tactic.Ring

/-! # How RISC-V physical memory protection decides an access

The unit's entries, each an address word and a configuration byte, are tried from the lowest number on. The
first entry that matches an address decides, and an address that no entry matches is denied. -/

namespace RiscvPmp

inductive Access where
  | read | write | execute
  deriving DecidableEq

/-- The bit of a configuration byte that permits an access. -/
def Access.bit : Access → Nat
  | .read => 0
  | .write => 1
  | .execute => 2

inductive Mode where
  | off | tor | na4 | napot
  deriving DecidableEq

def modeOf (cfg : Nat) : Mode :=
  match cfg / 8 % 4 with
  | 0 => .off
  | 1 => .tor
  | 2 => .na4
  | _ => .napot

structure Entries where
  addr : Nat → Nat
  cfg : Nat → Nat

/-- How many of the lowest bits of a word of `w` bits are set before the first that is not. -/
def trailingOnes : Nat → Nat → Nat
  | 0, _ => 0
  | w + 1, v => if v % 2 = 1 then trailingOnes w (v / 2) + 1 else 0

/-- The size of the naturally aligned block that an address word names. -/
def napotSize (v : Nat) : Nat := 2 ^ (trailingOnes 32 v + 3)

/-- Address words count units of four bytes. -/
def Entries.hits (e : Entries) (i a : Nat) : Bool :=
  match modeOf (e.cfg i) with
  | .off => false
  | .tor => (if i = 0 then 0 else e.addr (i - 1)) * 4 ≤ a && a < e.addr i * 4
  | .na4 => a / 4 = e.addr i
  | .napot => a / napotSize (e.addr i) = e.addr i * 4 / napotSize (e.addr i)

/-- Whether a user access to the byte at `a` passes the first `n` entries. -/
def Entries.permits (e : Entries) (n a : Nat) (k : Access) : Bool :=
  match (List.range n).find? (e.hits · a) with
  | none => false
  | some i => (e.cfg i).testBit k.bit

/-! ### Aligned blocks -/

theorem trailingOnes_eq : ∀ {w j : Nat} (q : Nat), j < w → trailingOnes w (2 ^ (j + 1) * q + (2 ^ j - 1)) = j
  | w + 1, 0, q, _ => by simp [trailingOnes]
  | w + 1, j + 1, q, h => by
    have pos : 0 < 2 ^ j := Nat.two_pow_pos j
    have split : 2 ^ (j + 1 + 1) * q + (2 ^ (j + 1) - 1) = 2 * (2 ^ (j + 1) * q + (2 ^ j - 1)) + 1 := by
      rw [pow_succ 2 (j + 1), Nat.mul_right_comm, pow_succ 2 j]
      omega
    rw [split]
    have odd : (2 * (2 ^ (j + 1) * q + (2 ^ j - 1)) + 1) % 2 = 1 := by omega
    have half : (2 * (2 ^ (j + 1) * q + (2 ^ j - 1)) + 1) / 2 = 2 ^ (j + 1) * q + (2 ^ j - 1) := by omega
    simp only [trailingOnes, odd, if_true, half, trailingOnes_eq q (Nat.lt_of_succ_lt_succ h)]

theorem div_eq_iff_block {d a q : Nat} (hd : 0 < d) : a / d = q ↔ d * q ≤ a ∧ a < d * q + d := by
  rw [Nat.div_eq_iff hd]
  have mul : q * d = d * q := Nat.mul_comm q d
  omega

/-- The address word of the block of `2 ^ (j + 3)` bytes whose number among its like is `q`. -/
def napotWord (j q : Nat) : Nat := 2 ^ (j + 1) * q + (2 ^ j - 1)

theorem napotSize_napotWord {j q : Nat} (h : j < 32) : napotSize (napotWord j q) = 2 ^ (j + 3) := by
  rw [napotSize, napotWord, trailingOnes_eq q h]

theorem napotWord_block {j q : Nat} (h : j < 32) :
    napotWord j q * 4 / napotSize (napotWord j q) = q := by
  rw [napotSize_napotWord h, div_eq_iff_block (Nat.two_pow_pos _), napotWord]
  have pos : 0 < 2 ^ j := Nat.two_pow_pos j
  have eight : 2 ^ (j + 3) = 8 * 2 ^ j := by ring
  have two : 2 ^ (j + 1) = 2 * 2 ^ j := by ring
  rw [eight, two, Nat.mul_assoc, Nat.mul_assoc]
  generalize 2 ^ j * q = m at *
  omega

/-- An entry in the mode for aligned blocks matches the bytes of its block. -/
theorem Entries.hits_napot {e : Entries} {i j q a : Nat} (hm : modeOf (e.cfg i) = .napot)
    (ha : e.addr i = napotWord j q) (hj : j < 32) :
    e.hits i a = true ↔ 2 ^ (j + 3) * q ≤ a ∧ a < 2 ^ (j + 3) * q + 2 ^ (j + 3) := by
  simp only [Entries.hits, hm, ha, napotWord_block hj, decide_eq_true_eq]
  rw [napotSize_napotWord hj, div_eq_iff_block (Nat.two_pow_pos _)]

/-- The smallest block that an entry in this mode can name has eight bytes. -/
theorem eight_le_napotSize (v : Nat) : 8 ≤ napotSize v := by
  have : 2 ^ 3 ≤ 2 ^ (trailingOnes 32 v + 3) := Nat.pow_le_pow_right (by omega) (by omega)
  simpa [napotSize] using this

/-- So such an entry matches the first and the last byte of eight bytes or more. -/
theorem Entries.hits_napot_ends {e : Entries} {i : Nat} (hm : modeOf (e.cfg i) = .napot) :
    ∃ a b, e.hits i a = true ∧ e.hits i b = true ∧ a + 8 ≤ b + 1 := by
  have size := eight_le_napotSize (e.addr i)
  simp only [Entries.hits, hm, decide_eq_true_eq]
  generalize napotSize (e.addr i) = d at size ⊢
  have block : ∀ q a, a / d = q ↔ d * q ≤ a ∧ a < d * q + d := fun q a => div_eq_iff_block (by omega)
  refine ⟨d * (e.addr i * 4 / d), d * (e.addr i * 4 / d) + d - 1, ?_, ?_, by omega⟩
  · rw [block]; omega
  · rw [block]; omega

/-! ### The entry that decides -/

theorem find?_range_eq_some {p : Nat → Bool} {n i : Nat} :
    (List.range n).find? p = some i ↔ i < n ∧ p i = true ∧ ∀ j < i, p j = false := by
  rw [List.find?_eq_some_iff_getElem]
  constructor
  · rintro ⟨hp, k, hk, rfl, hlt⟩
    simp only [List.length_range, List.getElem_range] at hk hp hlt ⊢
    exact ⟨hk, hp, fun j hj => by simpa using hlt j hj⟩
  · rintro ⟨hi, hp, hlt⟩
    refine ⟨hp, i, by simpa using hi, by simp, fun j hj => ?_⟩
    simpa using hlt j hj

theorem Entries.permits_iff {e : Entries} {n a : Nat} {k : Access} :
    e.permits n a k = true ↔
      ∃ i < n, e.hits i a = true ∧ (∀ j < i, e.hits j a = false) ∧ (e.cfg i).testBit k.bit = true := by
  unfold Entries.permits
  constructor
  · intro h
    cases hf : (List.range n).find? (e.hits · a) with
    | none => rw [hf] at h; cases h
    | some i =>
      rw [hf] at h
      obtain ⟨hi, hit, first⟩ := find?_range_eq_some.mp hf
      exact ⟨i, hi, hit, first, h⟩
  · rintro ⟨i, hi, hit, first, h⟩
    rw [find?_range_eq_some.mpr ⟨hi, hit, first⟩]
    exact h

end RiscvPmp
