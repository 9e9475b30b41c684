import Sawos.Lib.RiscvPmp
import Sawos.Boards.Riscv32
import Sawos.Kernel.Process

/-! # What the entries of the protection unit permit, against the record they were staged from -/

namespace Sawos.Pmp
open Exec RiscvPmp

/-! ### Configuration bytes -/

/-- Byte `i` of four to a word. -/
def cfgByte (words : Nat → Nat) (i : Nat) : Nat := words (i / 4) >>> (8 * (i % 4)) % 256

/-- The registers as the entries that the hardware reads. -/
def Regs.entries (u : Regs) : Entries := ⟨u.addr, cfgByte u.cfg⟩

theorem testBit_byte (w n b : Nat) : (w >>> n % 2 ^ 8).testBit b = (decide (b < 8) && w.testBit (n + b)) := by
  rw [Nat.testBit_mod_two_pow, Nat.testBit_shiftRight]

theorem byte_or_shift {w c i j : Nat} (hc : c < 2 ^ 8) :
    (w ||| c <<< (8 * j)) >>> (8 * i) % 2 ^ 8 =
      if i = j then w >>> (8 * i) % 2 ^ 8 ||| c else w >>> (8 * i) % 2 ^ 8 := by
  have high : ∀ m, 8 ≤ m → c.testBit m = false := fun m hm =>
    Nat.testBit_lt_two_pow (lt_of_lt_of_le hc (Nat.pow_le_pow_right (by omega) hm))
  apply Nat.eq_of_testBit_eq
  intro b
  rw [testBit_byte, Nat.testBit_or, Nat.testBit_shiftLeft]
  by_cases hij : i = j
  · subst hij
    have back : 8 * i + b - 8 * i = b := by omega
    rw [if_pos rfl, Nat.testBit_or, testBit_byte, back, decide_eq_true (show 8 * i ≤ 8 * i + b by omega), Bool.true_and]
    by_cases hb : b < 8
    · rw [decide_eq_true hb, Bool.true_and, Bool.true_and]
    · rw [decide_eq_false hb, high b (by omega)]
      rfl
  · rw [if_neg hij, testBit_byte]
    by_cases hb : b < 8
    · have off : (decide (8 * j ≤ 8 * i + b) && c.testBit (8 * i + b - 8 * j)) = false := by
        rcases Nat.lt_or_gt_of_ne hij with hlt | hgt
        · rw [decide_eq_false (by omega), Bool.false_and]
        · rw [high _ (by omega), Bool.and_false]
      rw [off, Bool.or_false]
    · rw [decide_eq_false hb, Bool.false_and, Bool.false_and]

/-- Staging the byte of one entry leaves the bytes of the others as they are. -/
theorem cfgByte_stageCfg {u : Regs} {entry cfg i : Nat} (hc : cfg < 256) (he : entry < 16) :
    cfgByte (stageCfg entry cfg u).shadow i =
      if i = entry then cfgByte u.shadow i ||| cfg else cfgByte u.shadow i := by
  have word : min (entry / 4) 3 = entry / 4 := by omega
  simp only [cfgByte, stageCfg, pmpCfgsPerWord, bitsPerPmpCfg, word]
  by_cases hw : i / 4 = entry / 4
  · have bytes := @byte_or_shift (u.shadow (i / 4)) cfg (i % 4) (entry % 4) hc
    simp only [Nat.reducePow] at bytes
    rw [if_pos hw, bytes]
    by_cases hie : i = entry
    · simp [hie]
    · have : i % 4 ≠ entry % 4 := by omega
      simp [hie, this]
  · have : i ≠ entry := fun h => hw (by rw [h])
    simp [hw, this]

/-! ### Staging a record -/

def stageRow (i : Nat) (row : GrantRow) (u : Regs) : Regs :=
  if row.device then protDevice i row.pa (row.top - row.base) u
  else protRegion i row.pa (row.pa + (row.top - row.base)) row.perms u

/-- The registers when the first `k` rows of a record are staged. -/
def stageRows (rows : Nat → GrantRow) (u : Regs) : Nat → Regs
  | 0 => protReset u
  | k + 1 => stageRow k (rows k) (stageRows rows u k)

/-- The configuration byte of a row's entry. -/
def rowCfg (row : GrantRow) : Nat :=
  if row.device then pmpPermRw ||| pmpANapot else row.perms &&& pmpPermMask ||| pmpATor

/-- The address word of a row's entry. -/
def rowWord (row : GrantRow) : Nat :=
  if row.device then napotBound row.pa (row.top - row.base)
  else (row.pa + (row.top - row.base)) >>> pmpGrainShift

/-- What the first `k` rows of a record leave in the registers: each has its own pair of entries, and the
    entries of even number stay off. -/
structure Staged (rows : Nat → GrantRow) (k : Nat) (u : Regs) : Prop where
  low : ∀ i < k, (rows i).device = false → u.addr (2 * i) = (rows i).pa >>> pmpGrainShift
  word : ∀ i < k, u.addr (2 * i + 1) = rowWord (rows i)
  cfg : ∀ e < 16, cfgByte u.shadow e = if e % 2 = 1 ∧ e / 2 < k then rowCfg (rows (e / 2)) else 0

theorem rowCfg_lt (row : GrantRow) : rowCfg row < 256 := by
  unfold rowCfg
  split
  · decide
  · have low : row.perms &&& pmpPermMask ≤ 7 := Nat.and_le_right
    have bits : row.perms &&& pmpPermMask ||| pmpATor < 2 ^ 4 := Nat.or_lt_two_pow (by omega) (by decide)
    omega

theorem stageRow_addr {i j : Nat} {row : GrantRow} {u : Regs} (hj : j ≠ 2 * i) (hj' : j ≠ 2 * i + 1) :
    (stageRow i row u).addr j = u.addr j := by
  unfold stageRow protDevice protRegion
  split <;> split <;> simp [stageCfg, pmpaddrWrite, Nat.mul_comm i 2, hj, hj']

theorem stageRow_word {i : Nat} {row : GrantRow} {u : Regs} (hi : i < 8) :
    (stageRow i row u).addr (2 * i + 1) = rowWord row := by
  have hi' : ¬pmpRegions ≤ i := by simpa [pmpRegions, grantRowBudget] using hi
  cases hd : row.device
  · simp [stageRow, rowWord, hd, protRegion, hi', stageCfg, pmpaddrWrite, Nat.mul_comm i 2]
  · simp [stageRow, rowWord, hd, protDevice, hi', stageCfg, pmpaddrWrite, Nat.mul_comm i 2]

theorem stageRow_low {i : Nat} {row : GrantRow} {u : Regs} (hi : i < 8) (hd : row.device = false) :
    (stageRow i row u).addr (2 * i) = row.pa >>> pmpGrainShift := by
  have hi' : ¬pmpRegions ≤ i := by simpa [pmpRegions, grantRowBudget] using hi
  simp [stageRow, hd, protRegion, hi', stageCfg, pmpaddrWrite, Nat.mul_comm i 2]

theorem stageRow_cfg {i e : Nat} {row : GrantRow} {u : Regs} (hi : i < 8) :
    cfgByte (stageRow i row u).shadow e =
      if e = 2 * i + 1 then cfgByte u.shadow e ||| rowCfg row else cfgByte u.shadow e := by
  have hi' : ¬pmpRegions ≤ i := by simpa [pmpRegions, grantRowBudget] using hi
  have lt := rowCfg_lt row
  have entry : 2 * i + 1 < 16 := by omega
  cases hd : row.device <;> simp only [rowCfg, hd, if_true, Bool.false_eq_true, if_false] at lt
  · simp [stageRow, rowCfg, hd, protRegion, hi', cfgByte_stageCfg lt entry, pmpaddrWrite, Nat.mul_comm i 2]
  · simp [stageRow, rowCfg, hd, protDevice, hi', cfgByte_stageCfg lt entry, pmpaddrWrite, Nat.mul_comm i 2]

theorem staged_stageRows (rows : Nat → GrantRow) (u : Regs) : ∀ {k : Nat}, k ≤ 8 → Staged rows k (stageRows rows u k)
  | 0, _ => by
    refine ⟨fun i hi => absurd hi (by omega), fun i hi => absurd hi (by omega), fun e _ => ?_⟩
    simp [stageRows, protReset, cfgByte]
  | k + 1, hk => by
    have ih := staged_stageRows rows u (k := k) (by omega)
    refine ⟨fun i hi hd => ?_, fun i hi => ?_, fun e he => ?_⟩
    · by_cases h : i = k
      · subst h
        exact stageRow_low (by omega) hd
      · rw [stageRows, stageRow_addr (by omega) (by omega)]
        exact ih.low i (by omega) hd
    · by_cases h : i = k
      · subst h
        exact stageRow_word (by omega)
      · rw [stageRows, stageRow_addr (by omega) (by omega)]
        exact ih.word i (by omega)
    · rw [stageRows, stageRow_cfg (by omega), ih.cfg e he]
      by_cases h : e = 2 * k + 1
      · subst h
        have half : (2 * k + 1) / 2 = k := by omega
        simp [half]
      · have same : (e % 2 = 1 ∧ e / 2 < k) ↔ (e % 2 = 1 ∧ e / 2 < k + 1) := by omega
        simp only [h, if_false, same]

/-! ### What a row opens -/

def rowAllows (row : GrantRow) (k : Access) : Bool := row.perms.testBit k.bit

/-- What the entry of a row allows: that of a device row is open to loads and stores, whatever its permissions. -/
def rowGives (row : GrantRow) (k : Access) : Bool := if row.device then k ≠ .execute else rowAllows row k

def rowCovers (row : GrantRow) (a : Nat) : Prop := row.base ≤ a ∧ a < row.top

/-- The entries of the registers permit a user access exactly where a row of the record covers it with its
    permission, and no device row's entry reaches out of its window. -/
structure Exact (rows : Nat → GrantRow) (n : Nat) (u : Regs) : Prop where
  permits : ∀ a k, u.entries.permits 16 a k = true ↔ ∃ i < n, rowCovers (rows i) a ∧ rowAllows (rows i) k = true
  window : ∀ i < n, (rows i).device = true → ∀ a, u.entries.hits (2 * i + 1) a = true → rowCovers (rows i) a

/-- A record as the kernel builds it for this board. -/
structure RecordOk (rows : Nat → GrantRow) (n : Nat) : Prop where
  few : n ≤ grantRowBudget
  identity : ∀ i < n, (rows i).pa = (rows i).base
  ordered : ∀ i < n, (rows i).base ≤ (rows i).top
  bounded : ∀ i < n, (rows i).top ≤ 2 ^ 32
  accepted : ∀ i < n, (rows i).device = true → deviceWindowOk (rows i).base ((rows i).top - (rows i).base) = true

theorem rowCfg_testBit (row : GrantRow) (k : Access) : (rowCfg row).testBit k.bit = rowGives row k := by
  cases hd : row.device
  · have mask : ∀ b < 3, Nat.testBit 7 b = true ∧ Nat.testBit 8 b = false := by decide
    have low : ∀ b < 3, (row.perms &&& 7 ||| 8).testBit b = row.perms.testBit b := by
      intro b hb
      rw [Nat.testBit_or, Nat.testBit_and, (mask b hb).1, (mask b hb).2, Bool.and_true, Bool.or_false]
    cases k <;> simp [rowCfg, rowGives, rowAllows, hd, pmpPermMask, pmpATor, Access.bit, low]
  · cases k <;> simp [rowCfg, rowGives, hd, pmpPermRw, pmpANapot, Access.bit] <;> decide

theorem modeOf_rowCfg (row : GrantRow) : modeOf (rowCfg row) = if row.device then .napot else .tor := by
  cases hd : row.device
  · have low : row.perms &&& 7 ≤ 7 := Nat.and_le_right
    have split : (row.perms &&& 7 ||| 8) = 8 + (row.perms &&& 7) := by
      rw [Nat.lor_comm]
      exact (Nat.two_pow_add_eq_or_of_lt (i := 3) (by omega) 1).symm
    have quarter : (8 + (row.perms &&& 7)) / 8 % 4 = 1 := by omega
    simp only [modeOf, rowCfg, hd, pmpPermMask, pmpATor, split, quarter, Bool.false_eq_true, if_false]
  · simp [modeOf, rowCfg, hd, pmpPermRw, pmpANapot]

section
variable {rows : Nat → GrantRow} {n : Nat} {u : Regs}

/-- An entry of even number, and one of a row that is not staged, matches nothing. -/
theorem Staged.hits_off (hs : Staged rows n u) {e : Nat} (he : e < 16) (h : ¬(e % 2 = 1 ∧ e / 2 < n)) (a : Nat) :
    (protCommit u).entries.hits e a = false := by
  have off : (protCommit u).entries.cfg e = 0 := by
    have := hs.cfg e he
    rwa [if_neg h] at this
  simp [Entries.hits, off, modeOf]

theorem Staged.cfg_row (hs : Staged rows n u) {i : Nat} (hi : i < n) (hn : n ≤ 8) :
    (protCommit u).entries.cfg (2 * i + 1) = rowCfg (rows i) := by
  have half : (2 * i + 1) / 2 = i := by omega
  have := hs.cfg (2 * i + 1) (by omega)
  rwa [if_pos (by omega), half] at this

theorem Staged.mode_row (hs : Staged rows n u) {i : Nat} (hi : i < n) (hn : n ≤ 8) :
    modeOf ((protCommit u).entries.cfg (2 * i + 1)) = if (rows i).device then .napot else .tor := by
  rw [hs.cfg_row hi hn, modeOf_rowCfg]

/-- What the entry of a row can tell apart: a memory row begins and ends at multiples of four bytes there. -/
def rowOpens (row : GrantRow) (a : Nat) : Prop :=
  if row.device then rowCovers row a else row.base / 4 * 4 ≤ a ∧ a < row.top / 4 * 4

/-- The entry of a memory row matches what the row opens. -/
theorem Staged.hits_memory (hs : Staged rows n u) (ok : RecordOk rows n) {i : Nat} (hi : i < n)
    (hd : (rows i).device = false) (a : Nat) :
    (protCommit u).entries.hits (2 * i + 1) a = true ↔ rowOpens (rows i) a := by
  have mode := hs.mode_row hi ok.few
  rw [hd] at mode
  have low : (protCommit u).entries.addr (2 * i) = (rows i).base / 4 := by
    rw [← ok.identity i hi]
    exact (hs.low i hi hd).trans (Nat.shiftRight_eq_div_pow _ 2)
  have high : (protCommit u).entries.addr (2 * i + 1) = (rows i).top / 4 := by
    refine (hs.word i hi).trans ?_
    have top : (rows i).pa + ((rows i).top - (rows i).base) = (rows i).top := by
      have := ok.identity i hi
      have := ok.ordered i hi
      omega
    rw [rowWord, hd, top]
    exact Nat.shiftRight_eq_div_pow _ 2
  simp only [Entries.hits, mode, Bool.false_eq_true, if_false, Nat.add_sub_cancel, low, high]
  simp only [Nat.add_eq_zero_iff, one_ne_zero, and_false, if_false, Bool.and_eq_true, decide_eq_true_eq, rowOpens, hd,
    Bool.false_eq_true]

theorem deviceWindowOk_iff {base len : Nat} :
    deviceWindowOk base len = true ↔ 4 ≤ len ∧ len &&& (len - 1) = 0 ∧ base % len = 0 := by
  unfold deviceWindowOk protGrain
  by_cases hlt : len < 4
  · simp only [hlt, if_true, Bool.false_eq_true, false_iff]
    omega
  · by_cases hpow : len &&& (len - 1) = 0 <;> simp [hlt, hpow, Nat.le_of_not_lt hlt]

/-- The word of an accepted window of eight bytes or more names the window's block. -/
theorem napotBound_eq {base len : Nat} (ok : deviceWindowOk base len = true) (h4 : len ≠ 4) (hl : len ≤ 2 ^ 32) :
    ∃ j q, j < 32 ∧ len = 2 ^ (j + 3) ∧ base = 2 ^ (j + 3) * q ∧ napotBound base len = napotWord j q := by
  obtain ⟨hmin, hpow, aligned⟩ := deviceWindowOk_iff.mp ok
  obtain ⟨k, rfl⟩ := (Nat.and_sub_one_eq_zero_iff_isPowerOfTwo (by omega)).mp hpow
  have k3 : 3 ≤ k := by
    by_contra hk
    have small : k = 0 ∨ k = 1 ∨ k = 2 := by omega
    rcases small with rfl | rfl | rfl <;> simp at hmin h4
  have k32 : k ≤ 32 := (Nat.pow_le_pow_iff_right (by omega)).mp hl
  obtain ⟨j, rfl⟩ : ∃ j, k = j + 3 := ⟨k - 3, by omega⟩
  obtain ⟨q, rfl⟩ := Nat.dvd_of_mod_eq_zero aligned
  refine ⟨j, q, by omega, rfl, rfl, ?_⟩
  have pos : 0 < 2 ^ j := Nat.two_pow_pos j
  have eight : 2 ^ (j + 3) = 8 * 2 ^ j := by ring
  have two : 2 ^ (j + 1) = 2 * 2 ^ j := by ring
  have half : 2 ^ (j + 3) / 2 - 1 < 2 ^ (j + 3) := by omega
  rw [napotBound, ← Nat.two_pow_add_eq_or_of_lt half, napotWord, pmpGrainShift, Nat.shiftRight_eq_div_pow]
  rw [eight, two, Nat.mul_assoc, Nat.mul_assoc]
  generalize 2 ^ j * q = m
  omega

theorem Staged.hits_window (hs : Staged rows n u) (ok : RecordOk rows n) {i : Nat} (hi : i < n)
    (hd : (rows i).device = true) (h4 : (rows i).top - (rows i).base ≠ 4) (a : Nat) :
    (protCommit u).entries.hits (2 * i + 1) a = true ↔ rowCovers (rows i) a := by
  have mode := hs.mode_row hi ok.few
  rw [hd, if_pos rfl] at mode
  have ordered := ok.ordered i hi
  obtain ⟨j, q, hj, hlen, hbase, hword⟩ :=
    napotBound_eq (ok.accepted i hi hd) h4 (le_trans (Nat.sub_le _ _) (ok.bounded i hi))
  have word : (protCommit u).entries.addr (2 * i + 1) = napotWord j q := by
    refine (hs.word i hi).trans ?_
    rw [rowWord, if_pos hd, ok.identity i hi, hword]
  rw [Entries.hits_napot mode word hj, rowCovers]
  omega

/-- The entry of a window of four bytes matches a byte outside of it. -/
theorem Staged.hits_beyond (hs : Staged rows n u) (hn : n ≤ 8) {i : Nat} (hi : i < n) (hd : (rows i).device = true)
    (h4 : (rows i).top - (rows i).base = 4) :
    ∃ a, (protCommit u).entries.hits (2 * i + 1) a = true ∧ ¬rowCovers (rows i) a := by
  have mode := hs.mode_row hi hn
  rw [hd, if_pos rfl] at mode
  obtain ⟨a, b, ha, hb, far⟩ := Entries.hits_napot_ends mode
  by_cases inside : rowCovers (rows i) a
  · refine ⟨b, hb, fun h => ?_⟩
    simp only [rowCovers] at inside h
    omega
  · exact ⟨a, ha, inside⟩

/-- No device row is of four bytes. -/
def NoSmallWindow (rows : Nat → GrantRow) (n : Nat) : Prop :=
  ∀ i < n, (rows i).device = true → (rows i).top - (rows i).base ≠ 4

theorem Staged.hits_row (hs : Staged rows n u) (ok : RecordOk rows n) (wide : NoSmallWindow rows n) {i : Nat}
    (hi : i < n) (a : Nat) : (protCommit u).entries.hits (2 * i + 1) a = true ↔ rowOpens (rows i) a := by
  cases hd : (rows i).device
  · exact hs.hits_memory ok hi hd a
  · rw [hs.hits_window ok hi hd (wide i hi hd), rowOpens, if_pos hd]

/-- Row `i` is the earliest that opens an address. -/
def Decides (rows : Nat → GrantRow) (i a : Nat) : Prop := rowOpens (rows i) a ∧ ∀ m < i, ¬rowOpens (rows m) a

/-- The earliest row that opens an address decides. -/
theorem Staged.permits_iff (hs : Staged rows n u) (ok : RecordOk rows n) (wide : NoSmallWindow rows n) (a : Nat)
    (k : Access) :
    (protCommit u).entries.permits 16 a k = true ↔ ∃ i < n, Decides rows i a ∧ rowGives (rows i) k = true := by
  have few : n ≤ 8 := ok.few
  have hits : ∀ {i}, i < n → _ := fun hi => hs.hits_row ok wide hi a
  rw [Entries.permits_iff]
  constructor
  · rintro ⟨e, he, hit, first, allowed⟩
    by_cases odd : e % 2 = 1 ∧ e / 2 < n
    · obtain ⟨i, rfl⟩ : ∃ i, e = 2 * i + 1 := ⟨e / 2, by omega⟩
      have hi : i < n := by omega
      rw [hs.cfg_row hi few, rowCfg_testBit] at allowed
      refine ⟨i, hi, ⟨(hits hi).mp hit, fun m hm opened => ?_⟩, allowed⟩
      have miss := first (2 * m + 1) (by omega)
      rw [(hits (by omega)).mpr opened] at miss
      cases miss
    · rw [hs.hits_off he odd] at hit
      cases hit
  · rintro ⟨i, hi, ⟨opened, first⟩, allowed⟩
    refine ⟨2 * i + 1, by omega, (hits hi).mpr opened, fun e he => ?_, ?_⟩
    · by_cases odd : e % 2 = 1 ∧ e / 2 < n
      · obtain ⟨m, rfl⟩ : ∃ m, e = 2 * m + 1 := ⟨e / 2, by omega⟩
        have miss := first m (by omega)
        rwa [← hits (by omega), Bool.not_eq_true] at miss
      · exact hs.hits_off (by omega) odd a
    · rw [hs.cfg_row hi few, rowCfg_testBit]
      exact allowed

/-- What a row's entry gives beyond the row, another row grants: at the edges, where a memory row is rounded to
    multiples of four bytes, and the loads and stores of a device row that is not granted both. -/
def ExcessGranted (rows : Nat → GrantRow) (n : Nat) : Prop :=
  ∀ i < n, ∀ a k, Decides rows i a → rowGives (rows i) k = true →
    ¬(rowCovers (rows i) a ∧ rowAllows (rows i) k = true) →
    ∃ j < n, rowCovers (rows j) a ∧ rowAllows (rows j) k = true

/-- At every address, the entry of the earliest row there gives every permission that any row there has. -/
def EarliestPrevails (rows : Nat → GrantRow) (n : Nat) : Prop :=
  ∀ j < n, ∀ a k, rowCovers (rows j) a → rowAllows (rows j) k = true →
    ∃ i < n, Decides rows i a ∧ rowGives (rows i) k = true

/-- The entries staged from a record permit what it grants exactly when no device row is of four bytes, no row hides a
    permission of a later one, and no entry gives what is not granted. -/
theorem Staged.exact_iff (hs : Staged rows n u) (ok : RecordOk rows n) :
    Exact rows n (protCommit u) ↔ NoSmallWindow rows n ∧ EarliestPrevails rows n ∧ ExcessGranted rows n := by
  constructor
  · intro exact'
    have wide : NoSmallWindow rows n := by
      intro i hi hd h4
      obtain ⟨a, hit, out⟩ := hs.hits_beyond ok.few hi hd h4
      exact out (exact'.window i hi hd a hit)
    refine ⟨wide, fun j hj a k covered allowed => ?_, fun i hi a k decides given _ => ?_⟩
    · exact (hs.permits_iff ok wide a k).mp ((exact'.permits a k).mpr ⟨j, hj, covered, allowed⟩)
    · exact (exact'.permits a k).mp ((hs.permits_iff ok wide a k).mpr ⟨i, hi, decides, given⟩)
  · rintro ⟨wide, prevails, excess⟩
    refine ⟨fun a k => ?_, fun i hi hd a hit => (hs.hits_window ok hi hd (wide i hi hd) a).mp hit⟩
    rw [hs.permits_iff ok wide]
    constructor
    · rintro ⟨i, hi, decides, given⟩
      by_cases granted : rowCovers (rows i) a ∧ rowAllows (rows i) k = true
      · exact ⟨i, hi, granted⟩
      · exact excess i hi a k decides given granted
    · rintro ⟨j, hj, covered, allowed⟩
      exact prevails j hj a k covered allowed

/-- Rows that do not meet, those of memory on granules and those of devices for loads and stores. -/
structure Laid (rows : Nat → GrantRow) (n : Nat) : Prop where
  wide : NoSmallWindow rows n
  grain : ∀ i < n, (rows i).device = false → (rows i).base % 4 = 0 ∧ (rows i).top % 4 = 0
  both : ∀ i < n, (rows i).device = true → (rows i).perms = segRead ||| segWrite
  apart : ∀ i < n, ∀ j < n, i ≠ j → (rows i).top ≤ (rows j).base ∨ (rows j).top ≤ (rows i).base

theorem Laid.opens_iff (laid : Laid rows n) {i : Nat} (hi : i < n) (a : Nat) :
    rowOpens (rows i) a ↔ rowCovers (rows i) a := by
  unfold rowOpens
  split
  · exact Iff.rfl
  · rename_i memory
    obtain ⟨low, high⟩ := laid.grain i hi (by simpa using memory)
    rw [rowCovers]
    omega

theorem Laid.gives_iff (laid : Laid rows n) {i : Nat} (hi : i < n) (k : Access) :
    rowGives (rows i) k = true ↔ rowAllows (rows i) k = true := by
  unfold rowGives
  split
  · rename_i device
    rw [rowAllows, laid.both i hi device]
    cases k <;> decide
  · exact Iff.rfl

/-- Each row decides about its own addresses. -/
theorem Laid.decides_iff (laid : Laid rows n) {i : Nat} (hi : i < n) (a : Nat) :
    Decides rows i a ↔ rowCovers (rows i) a := by
  refine ⟨fun decides => (laid.opens_iff hi a).mp decides.1, fun covered =>
    ⟨(laid.opens_iff hi a).mpr covered, fun m hm opens => ?_⟩⟩
  have before := (laid.opens_iff (Nat.lt_trans hm hi) a).mp opens
  have apart := laid.apart m (Nat.lt_trans hm hi) i hi (Nat.ne_of_lt hm)
  simp only [rowCovers] at before covered
  omega

/-- Rows so laid hide nothing of each other, and their entries give nothing beyond them. -/
theorem Laid.prevails (laid : Laid rows n) : NoSmallWindow rows n ∧ EarliestPrevails rows n ∧ ExcessGranted rows n := by
  refine ⟨laid.wide, fun j hj a k covered allowed => ?_, fun i hi a k decides given beyond => ?_⟩
  · exact ⟨j, hj, (laid.decides_iff hj a).mpr covered, (laid.gives_iff hj k).mpr allowed⟩
  · exact absurd ⟨(laid.decides_iff hi a).mp decides, (laid.gives_iff hi k).mp given⟩ beyond

end

/-! ### Replay -/

section
variable [Build] [Riscv32.Target]

attribute [local instance] Riscv32.board

theorem wp_loadRow {G : Ev → Prop} {n i : Nat} {slot : ProcessSlot} {s : K} :
    wp G n (loadRow slot i) (fun _ s' => s' = { s with prot := stageRow i (slot.grants i) s.prot }) Exits.stops s := by
  cases hd : (slot.grants i).device
  · simp only [loadRow, hd, addWord, wp_bind, Bool.false_eq_true, if_false, wp_ite]
    refine ⟨fun _ => ?_, fun _ => wp_halt.mpr trivial⟩
    simp only [wp_pure, protTry, wp_bind, wp_reads, Hal.protRegion, wp_modifies, stageRow, hd, Bool.false_eq_true,
      if_false]
  · simp only [loadRow, hd, protTry, wp_bind, wp_reads, Hal.protDevice, wp_modifies, stageRow, if_true]

/-- The registers after a replay are staged from the record of the process. -/
theorem wp_loadDomain {G : Ev → Prop} {n p : Nat} {s : K} :
    wp G n (loadDomain p)
      (fun _ s' => s'.prot =
        protCommit (stageRows (s.processes.slot p).grants s.prot (s.processes.slot p).grantCount)) Exits.stops s := by
  simp only [loadDomain, Column.read, processes, wp_bind, wp_reads, wp_ite, wp_halt]
  refine ⟨fun _ => ?_, fun _ => trivial⟩
  have replay : Hal.protReplayAtSwitch = true := rfl
  simp only [replay, whenever, if_true, wp_bind, prot, wp_modifies]
  refine (wp_countUp (I := fun k t => t.prot = stageRows (s.processes.slot p).grants s.prot k) rfl
    fun j t _ _ ht => wp_loadRow.imp fun _ t' ht' => ?_).imp fun _ t ht => ?_
  · rw [ht', ht, stageRows]
  · simp only [Nat.zero_add] at ht
    simp only [wp_bind, wp_modifies, ht]
    rfl

end

end Sawos.Pmp
