import Sawos.Boards.Riscv32
import Mathlib.Data.List.Nodup
import Mathlib.Data.List.Dedup

/-! # The interrupt matrix of the ESP32-C3

Each source of this controller has a map register with the number of the CPU interrupt it is routed to, 0 for none.
There is no claim register: the cause of a trap says the CPU interrupt, and the source is found by a scan of the map
registers. Masking a line overwrites its map register, which is the only place where its number is. -/

namespace Sawos.Esp32c3

/-! ### The controller -/

def irqNone : Nat := 0
def irqTimer : Nat := 1024
def maxSource : Nat := Riscv32.maxSource .esp32c3
/-- The source of the timer's comparator. -/
def systimerTarget0Source : Nat := 37
def timerCpuInt : Nat := 7
def firstDeviceCpuInt : Nat := 8
def lastDeviceCpuInt : Nat := 30
def unrouted : Nat := 0
def threshold : Nat := 1
def priActive : Nat := 7
/-- The bit of a cause that says that it is an interrupt. -/
def interruptFlag : Nat := 2 ^ 31

/-- The registers, the edge latches behind them, and the next number that a device line gets. -/
structure IntMatrix where
  map : Nat → Nat
  pri : Nat → Nat
  enable : Nat
  thresh : Nat
  intType : Nat
  latch : Nat → Bool
  next : Nat

namespace IntMatrix

/-- Every source is routed nowhere, and every CPU interrupt disabled. -/
def reset (m : IntMatrix) : IntMatrix :=
  { m with
    enable := 0
    map := fun source => if source ≤ maxSource then unrouted else m.map source
    pri := fun cpuint => if 1 ≤ cpuint ∧ cpuint ≤ lastDeviceCpuInt then 0 else m.pri cpuint
    thresh := threshold
    intType := 0 }

def cpuIntOf (m : IntMatrix) (source : Nat) : Nat := m.map source

/-- The first source that is routed to `cpuint`. -/
def sourceOf (m : IntMatrix) (cpuint : Nat) : Nat :=
  ((List.range' 1 maxSource).find? fun source => m.map source = cpuint).getD irqNone

def route (m : IntMatrix) (source cpuint : Nat) : IntMatrix :=
  { m with
    pri := fun c => if c = cpuint then priActive else m.pri c
    map := fun s => if s = source then cpuint else m.map s
    enable := m.enable ||| 1 <<< cpuint }

def unroute (m : IntMatrix) (source : Nat) : IntMatrix :=
  { m with map := fun s => if s = source then unrouted else m.map s }

/-- Drop an edge latch. -/
def clearPulse (m : IntMatrix) (cpuint : Nat) : IntMatrix :=
  { m with latch := fun c => if c = cpuint then false else m.latch c }

/-- A CPU interrupt is asserted; an edge is latched. -/
def raise (m : IntMatrix) (cpuint : Nat) : IntMatrix :=
  { m with latch := fun c => if c = cpuint then true else m.latch c }

end IntMatrix

def intcInit (m : IntMatrix) : IntMatrix := m.reset.route systimerTarget0Source timerCpuInt

/-- Let `line` interrupt; `none` where no number is left for it, which stops the machine. -/
def irqUnmask (m : IntMatrix) (line : Nat) : Option IntMatrix :=
  if m.cpuIntOf line = 0 then
    if lastDeviceCpuInt < m.next then none
    else some ({ m with next := m.next + 1 }.route line m.next)
  else some (m.route line (m.cpuIntOf line))

def irqMask (m : IntMatrix) (line : Nat) : IntMatrix := m.unroute line

/-- The CPU interrupt that a cause names. -/
def causeCode (cause : Nat) : Nat := cause % interruptFlag

def irqClaim (m : IntMatrix) (cause : Nat) : Nat :=
  if causeCode cause = timerCpuInt then irqTimer else m.sourceOf (causeCode cause)

def irqComplete (m : IntMatrix) (line : Nat) : IntMatrix :=
  if line = irqTimer then m.clearPulse timerCpuInt
  else if m.cpuIntOf line ≠ 0 then m.clearPulse (m.cpuIntOf line)
  else m

def irqLineValid (line : Nat) : Bool := line ≠ irqNone && line ≤ maxSource

/-- The board's kernel has these lines. -/
theorem board_lines [Build] : let board := @Riscv32.board _ ⟨.esp32c3⟩
    (board.irqNone, board.irqTimer, board.irqLineValid) = (irqNone, irqTimer, irqLineValid) := rfl

/-! ### The kernel over it -/

/-- What the kernel's Interrupt objects say of a line: it has none, it has one and may fire, or it fired and its fire is
    not acknowledged. -/
inductive LineStatus where
  | idle | armed | pending
  deriving DecidableEq

/-- The controller and the lines of the kernel. `routes` are the numbers that lines were routed to, the last first,
    which nothing reads. -/
structure Rig where
  matrix : IntMatrix
  lines : Nat → LineStatus
  routes : List (Nat × Nat)

/-- What the kernel does with lines: a bind, an acknowledgement, the service of a trap, and the end of an object. -/
inductive Act where
  | bind (line : Nat)
  | ack (line : Nat)
  | fire (cause : Nat)
  | retire (line : Nat)

namespace Rig

def boot (m : IntMatrix) : Rig := ⟨intcInit { m with next := firstDeviceCpuInt }, fun _ => .idle, []⟩

def setLine (r : Rig) (line : Nat) (status : LineStatus) : Nat → LineStatus := fun l =>
  if l = line then status else r.lines l

def unmask (r : Rig) (line : Nat) : Option Rig :=
  (irqUnmask r.matrix line).map fun m => ⟨m, r.setLine line .armed, (line, m.map line) :: r.routes⟩

/-- A claimed line is served: a device's is masked, and the line completed. -/
def service (r : Rig) (line : Nat) : Rig :=
  if line = irqNone then r
  else if line = irqTimer then { r with matrix := irqComplete r.matrix line }
  else
    { r with
      matrix := irqComplete (irqMask r.matrix line) line
      lines := if r.lines line = .armed then r.setLine line .pending else r.lines }

def step (r : Rig) : Act → Option Rig
  | .bind line => r.unmask line
  | .ack line => r.unmask line
  | .fire cause =>
    let m := r.matrix.raise (causeCode cause)
    some ({ r with matrix := m }.service (irqClaim m cause))
  | .retire line => some { r with matrix := irqMask r.matrix line, lines := r.setLine line .idle }

/-- What the kernel and the hardware do: a line is bound that is valid and has no object, a pending fire is
    acknowledged, an enabled CPU interrupt traps, an object ends. -/
def Allows (r : Rig) : Act → Prop
  | .bind line => irqLineValid line ∧ r.lines line = .idle
  | .ack line => r.lines line = .pending
  | .fire cause => r.matrix.enable.testBit (causeCode cause)
  | .retire line => r.lines line ≠ .idle

/-- `P` holds of each act of a sequence, in the state it is done in. -/
def Along (P : Rig → Act → Prop) (r : Rig) : List Act → Prop
  | [] => True
  | a :: rest => P r a ∧ match r.step a with
    | some r' => Along P r' rest
    | none => True

instance (r : Rig) : (a : Act) → Decidable (r.Allows a)
  | .bind _ => inferInstanceAs (Decidable (_ ∧ _))
  | .ack _ => inferInstanceAs (Decidable (_ = _))
  | .fire _ => inferInstanceAs (Decidable (_ = _))
  | .retire _ => inferInstanceAs (Decidable (¬_))

instance Along.decidable {P : Rig → Act → Prop} [∀ r a, Decidable (P r a)] :
    (r : Rig) → (acts : List Act) → Decidable (r.Along P acts)
  | _, [] => isTrue trivial
  | r, a :: rest =>
    have _ : Decidable (match r.step a with
        | some r' => Along P r' rest
        | none => True) := match r.step a with
      | some r' => Along.decidable r' rest
      | none => isTrue trivial
    inferInstanceAs (Decidable (_ ∧ _))

/-! ### What is asked of it -/

/-- The lines that were ever routed. -/
def used (r : Rig) : List Nat := (r.routes.map Prod.fst).dedup

/-- A line keeps its number and shares it with no other, the register of a line that may interrupt holds it, a claim
    of it answers the line, and the timer's route is its own. -/
structure Apart (r : Rig) : Prop where
  keeps : ∀ {l c c'}, (l, c) ∈ r.routes → (l, c') ∈ r.routes → c = c'
  alone : ∀ {l l' c}, (l, c) ∈ r.routes → (l', c) ∈ r.routes → l = l'
  held : ∀ {l}, r.lines l = .armed → (l, r.matrix.map l) ∈ r.routes
  claims : ∀ {l cause}, r.lines l = .armed → causeCode cause = r.matrix.map l → irqClaim r.matrix cause = l
  timer : r.matrix.map systimerTarget0Source = timerCpuInt
  own : ∀ {l c}, (l, c) ∈ r.routes → l ≠ systimerTarget0Source ∧ c ≠ timerCpuInt

/-- The number of distinct lines that would have been routed after an act. -/
def usedBy (r : Rig) : Act → Nat
  | .bind line | .ack line => (line :: r.routes.map Prod.fst).dedup.length
  | .fire _ | .retire _ => r.used.length

/-- A device's fire leaves no latch behind. -/
def Completes (r r' : Rig) : Act → Prop
  | .fire cause =>
    let line := irqClaim r.matrix cause
    line ≠ irqNone → line ≠ irqTimer → r'.matrix.latch (causeCode cause) = false
  | _ => True

/-- An act is done as it should be; the machine stops only when more lines were used than there are numbers. -/
def Meets (r : Rig) (a : Act) : Prop :=
  match r.step a with
  | some r' => r'.Apart ∧ r.Completes r' a
  | none => lastDeviceCpuInt - firstDeviceCpuInt + 1 < r.usedBy a

/-- No device line is served, none is unmasked that was masked since it was routed, and the timer's source is not
    unmasked. -/
def Spares (r : Rig) : Act → Prop
  | .bind line | .ack line =>
    line ≠ systimerTarget0Source ∧ (r.matrix.map line = unrouted → line ∉ r.routes.map Prod.fst)
  | .fire cause => irqClaim r.matrix cause = irqNone ∨ irqClaim r.matrix cause = irqTimer
  | .retire _ => True

instance (r : Rig) : (a : Act) → Decidable (r.Spares a)
  | .bind _ => inferInstanceAs (Decidable (_ ∧ (_ → _)))
  | .ack _ => inferInstanceAs (Decidable (_ ∧ (_ → _)))
  | .fire _ => inferInstanceAs (Decidable (_ ∨ _))
  | .retire _ => isTrue trivial

/-! ### Runs that mask nothing they need -/

/-- What holds while every act spares the assignments: no line is pending, a line that is armed has the number it was
    routed to, and the numbers are the ones from the first to the next. -/
structure Fresh (r : Rig) : Prop where
  timer : r.matrix.map systimerTarget0Source = timerCpuInt
  next : r.matrix.next = firstDeviceCpuInt + r.routes.length
  few : r.matrix.next ≤ lastDeviceCpuInt + 1
  once : (r.routes.map Prod.fst).Nodup
  alone : ∀ {l l' c}, (l, c) ∈ r.routes → (l', c) ∈ r.routes → l = l'
  own : ∀ {l c}, (l, c) ∈ r.routes → l ≠ systimerTarget0Source ∧ firstDeviceCpuInt ≤ c ∧ c < r.matrix.next
  held : ∀ {l}, r.lines l = .armed → (l, r.matrix.map l) ∈ r.routes
  masked : ∀ {l}, irqLineValid l → l ≠ systimerTarget0Source → r.lines l = .idle → r.matrix.map l = unrouted
  served : ∀ l, r.lines l ≠ .pending
  valid : ∀ {l}, r.lines l ≠ .idle → irqLineValid l
  enabled : ∀ {c}, r.matrix.enable.testBit c → c = timerCpuInt ∨ firstDeviceCpuInt ≤ c

variable {r r' : Rig} {a : Act}

theorem mem_range_of_valid {l : Nat} : l ∈ List.range' 1 maxSource ↔ irqLineValid l := by
  simp only [irqLineValid, List.mem_range'_1, Bool.and_eq_true, decide_eq_true_eq]
  unfold irqNone
  omega

/-- The scan finds a source that is routed to the number, or there is none. -/
theorem sourceOf_spec {m : IntMatrix} {c : Nat} : m.sourceOf c = irqNone ∧ (∀ l, irqLineValid l → m.map l ≠ c) ∨
    irqLineValid (m.sourceOf c) ∧ m.map (m.sourceOf c) = c := by
  unfold IntMatrix.sourceOf
  cases found : (List.range' 1 maxSource).find? fun source => m.map source = c with
  | none =>
    left
    refine ⟨rfl, fun l valid same => ?_⟩
    have none := List.find?_eq_none.mp found l (mem_range_of_valid.mpr valid)
    exact none (by simpa using same)
  | some l =>
    right
    have same := List.find?_some found
    exact ⟨mem_range_of_valid.mp (List.mem_of_find?_eq_some found), by simpa using same⟩

theorem Fresh.keeps (h : r.Fresh) {l c c' : Nat} (hc : (l, c) ∈ r.routes) (hc' : (l, c') ∈ r.routes) : c = c' := by
  have same := List.inj_on_of_nodup_map h.once hc hc' rfl
  exact congrArg Prod.snd same

/-- A number of a device's line is claimed for the line that holds it. -/
theorem Fresh.claims (h : r.Fresh) {l cause : Nat} (armed : r.lines l = .armed)
    (code : causeCode cause = r.matrix.map l) :
    irqClaim r.matrix cause = l := by
  have route := h.held armed
  obtain ⟨-, first, -⟩ := h.own route
  have notTimer : causeCode cause ≠ timerCpuInt := by
    rw [code]
    simp only [firstDeviceCpuInt, timerCpuInt] at first ⊢
    omega
  have valid : irqLineValid l := h.valid (by simp [armed])
  rw [irqClaim, if_neg notTimer, code]
  rcases sourceOf_spec (m := r.matrix) (c := r.matrix.map l) with ⟨-, none⟩ | ⟨validSource, same⟩
  · exact absurd rfl (none l valid)
  -- Whatever the scan finds holds the same number, so it is armed, and the number is its own.
  generalize hs : r.matrix.sourceOf (r.matrix.map l) = source at validSource same ⊢
  have number : source ≠ systimerTarget0Source := by
    rintro rfl
    rw [h.timer] at same
    exact notTimer (code.trans same.symm)
  cases status : r.lines source with
  | pending => exact absurd status (h.served source)
  | idle =>
    have zero := h.masked validSource number status
    rw [zero] at same
    simp only [firstDeviceCpuInt, unrouted] at first same
    omega
  | armed =>
    have other := h.held status
    rw [same] at other
    exact h.alone other route

theorem Fresh.apart (h : r.Fresh) : r.Apart where
  keeps := h.keeps
  alone := h.alone
  held := h.held
  claims := h.claims
  timer := h.timer
  own route := by
    obtain ⟨line, first, -⟩ := h.own route
    refine ⟨line, ?_⟩
    simp only [firstDeviceCpuInt, timerCpuInt] at first ⊢
    omega

theorem Fresh.boot {m : IntMatrix} : (boot m).Fresh where
  timer := by simp [Rig.boot, intcInit, IntMatrix.route]
  next := rfl
  few := show firstDeviceCpuInt ≤ lastDeviceCpuInt + 1 by decide
  once := .nil
  alone := by simp [Rig.boot]
  own := by simp [Rig.boot]
  held := by simp [Rig.boot]
  masked {l} valid other _ := by
    simp only [irqLineValid, Bool.and_eq_true, decide_eq_true_eq] at valid
    simp [Rig.boot, intcInit, IntMatrix.route, IntMatrix.reset, other, valid.2]
  served _ := by simp [Rig.boot]
  valid := by simp [Rig.boot]
  enabled {c} bit := by
    left
    simp only [Rig.boot, intcInit, IntMatrix.route, IntMatrix.reset, Nat.zero_or, Nat.shiftLeft_eq, Nat.one_mul,
      Nat.testBit_two_pow, decide_eq_true_eq] at bit
    exact bit.symm

/-- A line that was never routed gets the next number. -/
theorem unmask_unused {l : Nat} (off : r.matrix.map l = unrouted) : r.unmask l =
    if lastDeviceCpuInt < r.matrix.next then none
    else some ⟨{ r.matrix with next := r.matrix.next + 1 }.route l r.matrix.next, r.setLine l .armed,
      (l, r.matrix.next) :: r.routes⟩ := by
  have zero : r.matrix.cpuIntOf l = 0 := off
  rw [unmask, irqUnmask, if_pos zero]
  split
  · rfl
  · simp [IntMatrix.route]

theorem Fresh.route (h : r.Fresh) {l : Nat} (valid : irqLineValid l) (other : l ≠ systimerTarget0Source)
    (unused : l ∉ r.routes.map Prod.fst) (room : r.matrix.next ≤ lastDeviceCpuInt) :
    Fresh ⟨{ r.matrix with next := r.matrix.next + 1 }.route l r.matrix.next, r.setLine l .armed,
      (l, r.matrix.next) :: r.routes⟩ where
  timer := by simp [IntMatrix.route, other.symm, h.timer]
  next := by simp [IntMatrix.route, h.next, Nat.add_assoc]
  few := Nat.succ_le_succ room
  once := List.nodup_cons.mpr ⟨unused, h.once⟩
  alone {l₁ l₂ c} h₁ h₂ := by
    rcases List.mem_cons.mp h₁ with new | old <;> rcases List.mem_cons.mp h₂ with new' | old'
    · cases new
      exact (congrArg Prod.fst new').symm
    · cases new
      exact absurd (h.own old').2.2 (Nat.lt_irrefl _)
    · cases new'
      exact absurd (h.own old).2.2 (Nat.lt_irrefl _)
    · exact h.alone old old'
  own {l' c} route := by
    rcases List.mem_cons.mp route with new | old
    · cases new
      exact ⟨other, h.next ▸ Nat.le_add_right _ _, Nat.lt_succ_self _⟩
    · obtain ⟨line, first, last⟩ := h.own old
      exact ⟨line, first, Nat.lt_succ_of_lt last⟩
  held {l'} armed := by
    by_cases same : l' = l
    · simp [IntMatrix.route, same]
    · simp only [Rig.setLine, same, if_false] at armed
      have route := h.held armed
      simp [IntMatrix.route, same, route]
  masked {l'} valid' other' idle := by
    have different : l' ≠ l := by
      rintro rfl
      simp [Rig.setLine] at idle
    simp only [Rig.setLine, different, if_false] at idle
    simpa [IntMatrix.route, different] using h.masked valid' other' idle
  served l' := by
    simp only [Rig.setLine]
    split
    · exact LineStatus.noConfusion
    · exact h.served l'
  valid {l'} bound := by
    by_cases same : l' = l
    · exact same ▸ valid
    · simp only [Rig.setLine, same, if_false] at bound
      exact h.valid bound
  enabled {c} bit := by
    simp only [IntMatrix.route, Nat.testBit_or, Nat.shiftLeft_eq, Nat.one_mul, Nat.testBit_two_pow, Bool.or_eq_true,
      decide_eq_true_eq] at bit
    rcases bit with old | rfl
    · exact h.enabled old
    · exact Or.inr (h.next ▸ Nat.le_add_right _ _)

theorem Fresh.retire (h : r.Fresh) {l : Nat} (bound : r.lines l ≠ .idle) :
    Fresh { r with matrix := irqMask r.matrix l, lines := r.setLine l .idle } := by
  have armed : r.lines l = .armed := by
    cases status : r.lines l with
    | idle => exact absurd status bound
    | armed => rfl
    | pending => exact absurd status (h.served l)
  have other := (h.own (h.held armed)).1
  have others : ∀ {l'}, r.setLine l .idle l' ≠ .idle → l' ≠ l ∧ r.lines l' = r.setLine l .idle l' := by
    intro l' h'
    have different : l' ≠ l := by
      rintro rfl
      simp [Rig.setLine] at h'
    exact ⟨different, by simp [Rig.setLine, different]⟩
  exact { h with
    timer := by simp [irqMask, IntMatrix.unroute, other.symm, h.timer]
    held := by
      intro l' on
      have busy : r.setLine l .idle l' ≠ .idle := fun off => LineStatus.noConfusion (off.symm.trans on)
      obtain ⟨different, same⟩ := others busy
      have route := h.held (same.trans on)
      simpa [irqMask, IntMatrix.unroute, different] using route
    masked := by
      intro l' valid other' off
      by_cases same : l' = l
      · simp [irqMask, IntMatrix.unroute, same]
      · simp only [Rig.setLine, same, if_false] at off
        simpa [irqMask, IntMatrix.unroute, same] using h.masked valid other' off
    served := by
      intro l'
      simp only [Rig.setLine]
      split
      · exact LineStatus.noConfusion
      · exact h.served l'
    valid := by
      intro l' on
      exact h.valid ((others on).2 ▸ on) }

/-- Latches are of no account. -/
theorem Fresh.latch (h : r.Fresh) {f : Nat → Bool} : Fresh { r with matrix := { r.matrix with latch := f } } :=
  { h with }

theorem irqClaim_raise {m : IntMatrix} {c cause : Nat} : irqClaim (m.raise c) cause = irqClaim m cause := rfl

theorem Fresh.fire (h : r.Fresh) {cause : Nat}
    (quiet : irqClaim r.matrix cause = irqNone ∨ irqClaim r.matrix cause = irqTimer) :
    ∃ r', r.step (.fire cause) = some r' ∧ r'.Fresh := by
  refine ⟨_, rfl, ?_⟩
  rw [irqClaim_raise]
  rcases quiet with none | timer
  · rw [none, Rig.service, if_pos rfl]
    exact h.latch
  · rw [timer, Rig.service, if_neg (by decide), if_pos rfl, irqComplete, if_pos rfl]
    exact h.latch.latch

/-! ### Exactly when it is met -/

/-- The service of a device's line leaves the latch of its number: the mask has overwritten the number. -/
theorem not_completes {cause : Nat} (line : irqClaim r.matrix cause ≠ irqNone)
    (device : irqClaim r.matrix cause ≠ irqTimer) :
    ¬r.Meets (.fire cause) := by
  intro meets
  have clear := meets.2 line device
  rw [irqClaim_raise, Rig.service, if_neg line, if_neg device, irqComplete, if_neg device] at clear
  simp [IntMatrix.cpuIntOf, irqMask, IntMatrix.unroute, IntMatrix.raise, unrouted] at clear

/-- An unmask under the invariant: what is routed already gets a second number or takes the timer's. -/
theorem Fresh.unmask_iff (h : r.Fresh) {l : Nat} (unmasks : r.step a = r.unmask l)
    (counts : r.usedBy a = (l :: r.routes.map Prod.fst).dedup.length)
    (completes : ∀ r', r.Completes r' a) (valid : irqLineValid l) (idle : r.lines l = .idle) :
    r.Meets a ↔ l ≠ systimerTarget0Source ∧ (r.matrix.map l = unrouted → l ∉ r.routes.map Prod.fst) := by
  have all : lastDeviceCpuInt - firstDeviceCpuInt + 1 = 23 := rfl
  have next := h.next
  have few := h.few
  simp only [firstDeviceCpuInt, lastDeviceCpuInt] at next few
  by_cases timer : l = systimerTarget0Source
  · subst timer
    refine iff_of_false (fun meets => ?_) fun other => other.1 rfl
    have routed : r.matrix.cpuIntOf systimerTarget0Source = timerCpuInt := h.timer
    rw [Meets, unmasks, unmask, irqUnmask, routed, if_neg (by decide)] at meets
    exact (meets.1.own (List.mem_cons_self ..)).1 rfl
  have off := h.masked valid timer idle
  rw [Meets, unmasks, unmask_unused off, counts]
  by_cases full : lastDeviceCpuInt < r.matrix.next
  · rw [if_pos full]
    simp only [all]
    simp only [lastDeviceCpuInt] at full
    by_cases used : l ∈ r.routes.map Prod.fst
    · rw [List.dedup_cons_of_mem used, List.Nodup.dedup h.once, List.length_map]
      exact iff_of_false (by omega) fun spares => spares.2 off used
    · rw [List.dedup_cons_of_notMem used, List.Nodup.dedup h.once, List.length_cons, List.length_map]
      exact iff_of_true (by omega) ⟨timer, fun _ => used⟩
  · rw [if_neg full]
    by_cases used : l ∈ r.routes.map Prod.fst
    · refine iff_of_false (fun meets => ?_) fun spares => spares.2 off used
      obtain ⟨⟨l, c⟩, route, rfl⟩ := List.mem_map.mp used
      have same := meets.1.keeps (List.mem_cons_self ..) (List.mem_cons_of_mem _ route)
      have below := (h.own route).2.2
      omega
    · exact iff_of_true ⟨(h.route valid timer used (Nat.le_of_not_lt full)).apart, completes _⟩ ⟨timer, fun _ => used⟩

theorem Fresh.meets_iff (h : r.Fresh) (allowed : r.Allows a) : r.Meets a ↔ r.Spares a := by
  cases a with
  | bind l => exact h.unmask_iff rfl rfl (fun _ => trivial) allowed.1 allowed.2
  | ack l => exact absurd allowed (h.served l)
  | fire cause =>
    by_cases quiet : irqClaim r.matrix cause = irqNone ∨ irqClaim r.matrix cause = irqTimer
    · refine iff_of_true ?_ quiet
      obtain ⟨r', step, fresh⟩ := h.fire quiet
      rw [Meets, step]
      exact ⟨fresh.apart, fun line device => absurd quiet (not_or.mpr ⟨line, device⟩)⟩
    · obtain ⟨line, device⟩ := not_or.mp quiet
      exact iff_of_false (not_completes line device) quiet
  | retire l => exact iff_of_true ⟨(h.retire allowed).apart, trivial⟩ trivial

theorem Fresh.step (h : r.Fresh) (allowed : r.Allows a) (spares : r.Spares a) (step : r.step a = some r') :
    r'.Fresh := by
  cases a with
  | bind l =>
    obtain ⟨valid, idle⟩ := allowed
    have off := h.masked valid spares.1 idle
    rw [Rig.step, unmask_unused off] at step
    split at step
    · cases step
    · rename_i room
      cases step
      exact h.route valid spares.1 (spares.2 off) (Nat.le_of_not_lt room)
  | ack l => exact absurd allowed (h.served l)
  | fire cause =>
    obtain ⟨r'', did, fresh⟩ := h.fire spares
    rw [did] at step
    cases step
    exact fresh
  | retire l =>
    cases step
    exact h.retire allowed

/-- Whatever sequence of acts the kernel and the hardware do, each is done as it should be exactly when none of them
    is the service of a device's line, an unmask of a line masked since it was routed, or an unmask of the timer's
    source. -/
theorem lines_stay_apart_iff {m : IntMatrix} {acts : List Act} (driven : (Rig.boot m).Along Allows acts) :
    (Rig.boot m).Along Meets acts ↔ (Rig.boot m).Along Spares acts := by
  suffices from_ : ∀ acts (r : Rig), r.Fresh → r.Along Allows acts → (r.Along Meets acts ↔ r.Along Spares acts) from
    from_ acts _ Fresh.boot driven
  intro acts
  induction acts with
  | nil => exact fun _ _ _ => Iff.rfl
  | cons a rest ih =>
    intro r h allowed
    have now := h.meets_iff allowed.1
    have later : r.Spares a → ((match r.step a with
        | some r' => r'.Along Meets rest
        | none => True) ↔ match r.step a with
        | some r' => r'.Along Spares rest
        | none => True) := by
      intro spares
      have allowed' := allowed.2
      cases step : r.step a with
      | none => exact Iff.rfl
      | some r' =>
        rw [step] at allowed'
        exact ih r' (h.step allowed.1 spares step) allowed'
    constructor
    · rintro ⟨meets, rest⟩
      exact ⟨now.mp meets, (later (now.mp meets)).mp rest⟩
    · rintro ⟨spares, rest⟩
      exact ⟨now.mpr spares, (later spares).mpr rest⟩

/-- A controller as the machine comes up. -/
def off : IntMatrix := ⟨fun _ => 0, fun _ => 0, 0, 0, 0, fun _ => false, 0⟩

/-- Two lines are bound, the timer fires, and the first line is given up. -/
theorem lines_stay_apart_iff_quiet :
    (Rig.boot off).Along Meets [.bind 5, .bind 21, .fire (interruptFlag + timerCpuInt), .retire 5] :=
  (lines_stay_apart_iff (by decide +kernel)).mpr (by decide +kernel)

/-- A driver binds line 5, which gets number 8, and the first fire leaves the latch of number 8 behind. Without a
    fire, a line that is given up and bound again gets another number, and the timer's own source can be bound. -/
theorem fire_leaves_its_latch :
    (Rig.boot off).Along Allows [.bind 5, .fire (interruptFlag + 8), .ack 5] ∧
      ¬(Rig.boot off).Along Meets [.bind 5, .fire (interruptFlag + 8), .ack 5] ∧
    (Rig.boot off).Along Allows [.bind 5, .retire 5, .bind 5] ∧
      ¬(Rig.boot off).Along Meets [.bind 5, .retire 5, .bind 5] ∧
    (Rig.boot off).Along Allows [.bind 37] ∧ ¬(Rig.boot off).Along Meets [.bind 37] := by
  refine ⟨by decide +kernel, fun meets => ?_, by decide +kernel, fun meets => ?_, by decide +kernel, fun meets => ?_⟩
  · exact not_completes (by decide +kernel) (by decide +kernel) meets.2.1
  · have numbers : 9 = 8 := meets.2.2.1.1.keeps (l := 5) (List.mem_cons_self ..) (by decide +kernel)
    cases numbers
  · exact (meets.1.1.own (l := 37) (c := 7) (by decide +kernel)).1 rfl

end Rig

end Sawos.Esp32c3
