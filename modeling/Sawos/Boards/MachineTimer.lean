import Mathlib.Algebra.GroupWithZero.Nat
import Sawos.Lib.Bus

/-! # The machine timer of riscv32 virt

A 64-bit counter and a 64-bit comparator, on a machine that reads and writes them in halves. -/

namespace Sawos
open Exec

/-- Two halves as one value. -/
def ofHalves (hi lo : BitVec 32) : BitVec 64 := hi.setWidth 64 <<< 32 ||| lo.setWidth 64

theorem toNat_ofHalves (hi lo : BitVec 32) : (ofHalves hi lo).toNat = hi.toNat * 2 ^ 32 + lo.toNat := by
  have room : hi.toNat <<< 32 < 2 ^ 64 := by
    rw [Nat.shiftLeft_eq]
    omega
  have low : lo.toNat < 2 ^ 64 := by omega
  have high : hi.toNat < 2 ^ 64 := by omega
  rw [ofHalves, BitVec.toNat_or, BitVec.toNat_shiftLeft, BitVec.toNat_setWidth, BitVec.toNat_setWidth,
    Nat.mod_eq_of_lt low,
    Nat.mod_eq_of_lt high, Nat.mod_eq_of_lt room, ← Nat.shiftLeft_add_eq_or_of_lt lo.isLt, Nat.shiftLeft_eq]

theorem ofHalves_self (v : BitVec 64) : ofHalves ((v >>> 32).setWidth 32) (v.setWidth 32) = v := by
  refine BitVec.eq_of_toNat_eq ?_
  have high : v.toNat / 2 ^ 32 < 2 ^ 32 := by omega
  rw [toNat_ofHalves, BitVec.toNat_setWidth, BitVec.toNat_setWidth, BitVec.toNat_ushiftRight, Nat.shiftRight_eq_div_pow,
    Nat.mod_eq_of_lt high]
  exact Nat.div_add_mod' _ _

namespace Riscv32

structure MachineTimer where
  count : Nat
  cmpLo : BitVec 32
  cmpHi : BitVec 32

/-- The counter is free-running. -/
instance : Device MachineTimer Unit where
  beat _ m := { m with count := m.count + 1 }

namespace MachineTimer

abbrev Driver := Prog (Bus MachineTimer Unit) MachineTimer Unit

def countLo : Driver (BitVec 32) := Bus.access fun m => (.ofNat 32 m.count, m)
def countHi : Driver (BitVec 32) := Bus.access fun m => (.ofNat 32 (m.count / 2 ^ 32), m)
def writeLo (v : BitVec 32) : Driver Unit := Bus.access fun m => ((), { m with cmpLo := v })
def writeHi (v : BitVec 32) : Driver Unit := Bus.access fun m => ((), { m with cmpHi := v })

/-- The low half, and then the high half again. -/
def halves : Driver (BitVec 32 × BitVec 32) := do
  let lo ← countLo
  let hi2 ← countHi
  return (lo, hi2)

def now : Driver (BitVec 64) := do
  let hi ← countHi
  let (lo, hi2) ← halves
  -- A carry between the reads of the high half is answered by another round.
  loop (fun (hi, lo, hi2) => do
    if hi ≠ hi2 then
      let (lo, hi3) ← halves
      return .inl (hi2, lo, hi3)
    else
      return .inr (ofHalves hi lo)) (hi, lo, hi2)

def setDeadline (at' : BitVec 64) : Driver Unit := do
  writeLo 0xFFFFFFFF
  writeHi ((at' >>> 32).setWidth 32)
  writeLo (at'.setWidth 32)

/-- The instant that the pair names. -/
def deadline (m : MachineTimer) : BitVec 64 := ofHalves m.cmpHi m.cmpLo

end MachineTimer

namespace MachineTimer

section
variable {n : Nat} {V : MachineTimer → Prop} {W : Nat → Prop}

/-- The counter has not come to the end of its 64 bits, and what it counts satisfies `W`. -/
def Counting (W : Nat → Prop) (m : MachineTimer) : Prop := m.count < 2 ^ 64 ∧ W m.count

/-- What has been read: `lo` off some count `c` that had been counted between the reads of `hi` and of `hi2`. -/
def Straddles (W : Nat → Prop) (hi lo hi2 : BitVec 32) (m : MachineTimer) : Prop :=
  ∃ c, W c ∧ hi.toNat ≤ c / 2 ^ 32 ∧ c / 2 ^ 32 ≤ hi2.toNat ∧ lo.toNat = c % 2 ^ 32 ∧ hi2.toNat ≤ m.count / 2 ^ 32

theorem lasts_of_le {P : MachineTimer → Prop} (h : ∀ m, P m → P { m with count := m.count + 1 }) :
    Bus.Lasts (Counting W) (fun _ => True) P :=
  fun _ m hm => ⟨trivial, fun _ => h m hm⟩

theorem toNat_countHi {m : MachineTimer} (inTime : m.count < 2 ^ 64) :
    (BitVec.ofNat 32 (m.count / 2 ^ 32)).toNat = m.count / 2 ^ 32 := by
  rw [BitVec.toNat_ofNat]
  omega

theorem steers_halves (hi : BitVec 32) :
    Bus.Steers (Counting W) n (fun _ => True) (fun m => hi.toNat ≤ m.count / 2 ^ 32) halves fun (lo, hi2) =>
      Straddles W hi lo hi2 := by
  refine (Bus.steers_access (R := fun lo m => ∃ c ≤ m.count, W c ∧ hi.toNat ≤ c / 2 ^ 32 ∧ lo.toNat = c % 2 ^ 32)
    (lasts_of_le fun m hm => ?_) ?_).bind fun lo => ?_
  · exact Nat.le_trans hm (Nat.div_le_div_right (Nat.le_succ _))
  · exact fun m hm => ⟨trivial, fun counts => ⟨m.count, Nat.le_refl _, counts.2, hm, by simp⟩⟩
  · refine (Bus.steers_access (R := fun hi2 m => Straddles W hi lo hi2 m) (lasts_of_le ?_) ?_).bind fun hi2 => ?_
    · rintro m ⟨c, below, seen⟩
      exact ⟨c, Nat.le_succ_of_le below, seen⟩
    · rintro m ⟨c, below, seen, above, low⟩
      refine ⟨trivial, fun counts => ⟨c, seen, above, ?_, low, Nat.le_of_eq (toNat_countHi counts.1)⟩⟩
      rw [toNat_countHi counts.1]
      exact Nat.div_le_div_right below
    · exact Bus.steers_pure fun _ h => h

/-- A value that is answered is one that was counted on the way. -/
theorem steers_now : Bus.Steers (Counting W) n (fun _ => True) (fun _ => True) now fun v _ => W v.toNat := by
  refine (Bus.steers_access (R := fun hi m => hi.toNat ≤ m.count / 2 ^ 32) (lasts_of_le fun _ => id) ?_).bind
    fun hi => ?_
  · exact fun m _ => ⟨trivial, fun counts => Nat.le_of_eq (toNat_countHi counts.1)⟩
  · refine (steers_halves hi).bind fun (lo, hi2) => ?_
    refine Bus.Steers.loop (I := fun (hi, lo, hi2) m => Straddles W hi lo hi2 m) ?_ (hi, lo, hi2)
    rintro ⟨hi, lo, hi2⟩
    refine .ite (fun _ => ?_) fun same => ?_
    · refine ((steers_halves hi2).imp (fun m hm => ?_) fun _ _ => id).bind fun (lo, hi3) => Bus.steers_pure fun _ h => h
      obtain ⟨-, -, -, -, -, last⟩ := hm
      exact last
    · refine Bus.steers_pure ?_
      rintro m ⟨c, seen, above, below, low, -⟩
      cases not_not.mp same
      have exact : (ofHalves hi lo).toNat = c := by
        rw [toNat_ofHalves, low, Nat.le_antisymm above below]
        exact Nat.div_add_mod' c (2 ^ 32)
      exact (congrArg W exact).mpr seen

end

/-! ### The reads end -/

section
variable {n : Nat} {b : Bus MachineTimer Unit}

/-- The steps to come do not bring the counter to the end of its 64 bits. -/
def InTime (b : Bus MachineTimer Unit) : Prop := ∀ k, b.dev.count + Bus.steps k b.gaps < 2 ^ 64

theorem gone_count (is : List Unit) (m : MachineTimer) : (Bus.gone is m).count = m.count + is.length := by
  induction is generalizing m with
  | nil => rfl
  | cons i is ih =>
    rw [Bus.gone, List.foldl_cons, List.length_cons]
    exact (ih _).trans (Nat.succ_add_eq_add_succ m.count is.length)

theorem InTime.access (h : InTime b) : InTime ⟨Bus.gone (b.gaps 0) b.dev, fun k => b.gaps (k + 1)⟩ := by
  intro k
  have later := h (k + 1)
  rw [Bus.steps, ← Nat.add_assoc] at later
  rw [gone_count]
  exact later

/-- An access that leaves the counter alone. -/
theorem keeps_access {α : Type} {f : MachineTimer → α × MachineTimer} (same : ∀ m, (f m).2.count = m.count) :
    Keeps (fun _ => True) n ⟨fun _ => False, fun m => m.count < 2 ^ 64⟩ InTime (Bus.access f : Driver α) := by
  intro b h
  rw [Bus.access, wp_bind, wp_reads, wp_bind]
  refine (Bus.wp_goesOn fun k le => ?_).imp fun _ b' hb' => ?_
  · have bound := h 1
    rw [Bus.steps] at bound
    refine Nat.lt_of_le_of_lt ?_ bound
    rw [gone_count, List.length_take]
    omega
  · subst hb'
    have inTime := h.access
    rw [wp_bind, wp_reads, wp_bind, wp_modifies, wp_bind, wp_emits]
    refine ⟨?_, fun _ => wp_pure.mpr fun k => ?_⟩
    · exact Nat.lt_of_le_of_lt (Nat.le_of_eq (same _)) (inTime 0)
    · exact Nat.lt_of_le_of_lt (Nat.le_of_eq (congrArg (· + _) (same _))) (inTime k)

theorem keeps_halves : Keeps (fun _ => True) n ⟨fun _ => False, fun m => m.count < 2 ^ 64⟩ InTime halves :=
  .bind (keeps_access fun _ => rfl) fun _ => .bind (keeps_access fun _ => rfl) fun _ => keeps_pure

theorem keeps_now : Keeps (fun _ => True) n ⟨fun _ => False, fun m => m.count < 2 ^ 64⟩ InTime now :=
  .bind (keeps_access fun _ => rfl) fun _ => .bind keeps_halves fun _ =>
    .loop fun _ => .ite (.bind keeps_halves fun _ => keeps_pure) keeps_pure

theorem lands_countHi {Q : BitVec 32 → Bus MachineTimer Unit → Prop} (h : InTime b)
    (then' : ∀ hi b', InTime b' → b.dev.count ≤ b'.dev.count → hi.toNat = b'.dev.count / 2 ^ 32 → Q hi b') :
      Lands n countHi Q b := by
  have inTime := h.access
  refine Bus.lands_access (then' _ _ inTime ?_ (toNat_countHi (inTime 0)))
  rw [gone_count]
  exact Nat.le_add_right _ _

theorem lands_halves {Q : BitVec 32 × BitVec 32 → Bus MachineTimer Unit → Prop} (h : InTime b)
    (then' : ∀ lo hi2 b', InTime b' → b.dev.count ≤ b'.dev.count → hi2.toNat = b'.dev.count / 2 ^ 32 → Q (lo, hi2) b') :
    Lands n halves Q b := by
  refine lands_bind
    (Bus.lands_access (lands_bind (lands_countHi h.access fun hi2 b' inTime above high => lands_pure ?_)))
  refine then' _ _ _ inTime (Nat.le_trans ?_ above) high
  rw [gone_count]
  exact Nat.le_add_right _ _

/-- There are no more than 2^32 carries in front of the counter. -/
theorem lands_now (h : InTime b) (enough : 2 ^ 32 ≤ n) : Lands n now (fun _ _ => True) b := by
  refine lands_bind (lands_countHi h fun hi b' inTime _ high => ?_)
  refine lands_bind (lands_halves inTime fun lo hi2 b'' inTime' above high' => ?_)
  refine lands_loop (I := fun m (hi, lo, hi2) b => InTime b ∧ hi.toNat ≤ hi2.toNat ∧ hi2.toNat = b.dev.count / 2 ^ 32 ∧
    m = 2 ^ 32 - 1 - hi.toNat) (m := 2 ^ 32 - 1 - hi.toNat) ?_ ⟨inTime', ?_, high', rfl⟩ (by omega)
  · rintro m ⟨hi, lo, hi2⟩ b ⟨inTime, le, last, rfl⟩
    by_cases carried : hi ≠ hi2
    · refine cast (congrArg (Lands n · _ b) (if_pos carried).symm)
        (lands_bind (lands_halves inTime fun lo hi3 b' inTime' above high => ?_))
      have less : hi.toNat ≠ hi2.toNat := fun same => carried (BitVec.eq_of_toNat_eq same)
      refine lands_pure ⟨2 ^ 32 - 1 - hi2.toNat, by omega, inTime', ?_, high, rfl⟩
      rw [last, high]
      exact Nat.div_le_div_right above
    · exact cast (congrArg (Lands n · _ b) (if_neg carried).symm) (lands_pure trivial)
  · rw [high, high']
    exact Nat.div_le_div_right above

/-- The counter is read as it is at some moment of the call. -/
theorem now_answers (h : InTime b) (enough : 2 ^ 32 ≤ n) :
    ∃ v b' t, now n b = .ok v b' t ∧ ∃ m ∈ t, m.count = v.toNat := by
  obtain ⟨v, b', t, run, -⟩ := lands_now h enough
  refine ⟨v, b', t, run, ?_⟩
  refine Classical.byContradiction fun none => ?_
  have counting : ∀ m ∈ t, m.count < 2 ^ 64 := by
    have moments := (keeps_now (n := n) b h).emitted
    rw [run] at moments
    exact moments
  exact (steers_now (W := fun c => c ≠ v.toNat)).ok trivial run
    (fun m hm => ⟨counting m hm, fun eq => none ⟨m, hm, eq⟩⟩) rfl

end

/-! ### The comparator -/

section
variable {n : Nat} {b : Bus MachineTimer Unit}

/-- `first` is not behind the instant that the pair names. -/
def Names (first : Nat) (hi lo : BitVec 32) : Prop := first ≤ (ofHalves hi lo).toNat

theorem lasts_names {first : Nat} {hi lo : BitVec 32} (names : Names first hi lo) :
    Bus.Lasts (fun _ => True) (fun m => first ≤ m.deadline.toNat) fun m : MachineTimer => m.cmpHi = hi ∧
      m.cmpLo = lo := by
  rintro ⟨⟩ m ⟨rfl, rfl⟩
  exact ⟨names, fun _ => ⟨rfl, rfl⟩⟩

theorem steers_writeLo {first : Nat} {hi lo v : BitVec 32} (before : Names first hi lo) (after : Names first hi v) :
    Bus.Steers (fun _ => True) n (fun m => first ≤ m.deadline.toNat) (fun m => m.cmpHi = hi ∧ m.cmpLo = lo) (writeLo v)
      fun _ m => m.cmpHi = hi ∧ m.cmpLo = v := by
  refine Bus.steers_access (lasts_names before) ?_
  rintro m ⟨rfl, rfl⟩
  exact ⟨after, fun _ => ⟨rfl, rfl⟩⟩

theorem steers_writeHi {first : Nat} {hi lo v : BitVec 32} (before : Names first hi lo) (after : Names first v lo) :
    Bus.Steers (fun _ => True) n (fun m => first ≤ m.deadline.toNat) (fun m => m.cmpHi = hi ∧ m.cmpLo = lo) (writeHi v)
      fun _ m => m.cmpHi = v ∧ m.cmpLo = lo := by
  refine Bus.steers_access (lasts_names before) ?_
  rintro m ⟨rfl, rfl⟩
  exact ⟨after, fun _ => ⟨rfl, rfl⟩⟩

/-- A pair whose low half is all ones names no instant before another one with its high half. -/
theorem ofHalves_le_ones (hi lo : BitVec 32) : (ofHalves hi lo).toNat ≤ (ofHalves hi 0xFFFFFFFF).toNat := by
  rw [toNat_ofHalves, toNat_ofHalves]
  have ones : (0xFFFFFFFF : BitVec 32).toNat = 2 ^ 32 - 1 := rfl
  omega

theorem steers_setDeadline (hi lo : BitVec 32) (at' : BitVec 64) :
    Bus.Steers (fun _ => True) n (fun m => min (ofHalves hi lo).toNat at'.toNat ≤ m.deadline.toNat)
      (fun m => m.cmpHi = hi ∧ m.cmpLo = lo) (setDeadline at') fun _ m => m.deadline = at' := by
  have self := ofHalves_self at'
  generalize high : (at' >>> 32).setWidth 32 = hi' at self
  generalize low : at'.setWidth 32 = lo' at self
  have old : Names (min (ofHalves hi lo).toNat at'.toNat) hi lo := Nat.min_le_left _ _
  have new : Names (min (ofHalves hi lo).toNat at'.toNat) hi' lo' := Nat.le_trans (Nat.min_le_right _ _)
    (self ▸ Nat.le_refl _)
  have raised : Names (min (ofHalves hi lo).toNat at'.toNat) hi 0xFFFFFFFF := Nat.le_trans old (ofHalves_le_ones hi lo)
  have moved : Names (min (ofHalves hi lo).toNat at'.toNat) hi' 0xFFFFFFFF :=
    Nat.le_trans new (ofHalves_le_ones hi' lo')
  rw [setDeadline, high, low]
  refine (steers_writeLo old raised).bind fun _ => (steers_writeHi raised moved).bind fun _ => ?_
  refine (steers_writeLo moved new).imp (fun _ => id) ?_
  rintro ⟨⟩ m ⟨rfl, rfl⟩
  exact self

theorem lands_setDeadline (at' : BitVec 64) : Lands n (setDeadline at') (fun _ _ => True) b :=
  lands_bind (Bus.lands_access (lands_bind (Bus.lands_access (Bus.lands_access trivial))))

/-- The comparator is written, and names at no moment an instant before both its old deadline and its new one. -/
theorem setDeadline_writes (at' : BitVec 64) : ∃ b' t, setDeadline at' n b = .ok () b' t ∧ b'.dev.deadline = at' ∧
    ∀ m ∈ t, min b.dev.deadline.toNat at'.toNat ≤ m.deadline.toNat := by
  obtain ⟨⟨⟩, b', t, run, -⟩ := lands_setDeadline (n := n) (b := b) at'
  have steers := steers_setDeadline (n := n) b.dev.cmpHi b.dev.cmpLo at'
  refine ⟨b', t, run, steers.ok ⟨rfl, rfl⟩ run fun _ _ => trivial, ?_⟩
  have moments := steers.moments ⟨rfl, rfl⟩ fun _ _ => trivial
  rw [run] at moments
  exact moments

end

end MachineTimer

end Riscv32

end Sawos
