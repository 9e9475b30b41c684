import Sawos.Lib.Bus
import Mathlib.Data.Finset.Max

/-! # Controllers of interrupt lines

A controller lets some of its lines through to a processor. It hands out the number of one that asks, and holds that
line back until it is told that it was served. Its driver is compared, call by call, with what is asked of it. -/

namespace Exec
open Bus

/-! ### Which line goes first -/

section
variable {α : Type} [LinearOrder α]

/-- The first of the lines below `n` that are ready and of the least rank. -/
@[irreducible] def foremost (n : Nat) (ready : Nat → Bool) (rank : Nat → α) : Option Nat :=
  (List.range n).find? fun l => ready l && (List.range n).all fun k => !ready k || decide (rank l ≤ rank k)

variable {n : Nat} {ready : Nat → Bool} {rank : Nat → α}

theorem foremost_some {l : Nat} (h : foremost n ready rank = some l) : l < n ∧ ready l = true := by
  rw [foremost] at h
  have found := List.find?_some h
  rw [Bool.and_eq_true] at found
  exact ⟨List.mem_range.mp (List.mem_of_find?_eq_some h), found.1⟩

theorem foremost_none (h : foremost n ready rank = none) : ∀ l < n, ready l = false := by
  intro l hl
  rw [foremost] at h
  refine Bool.eq_false_iff.mpr fun here => ?_
  obtain ⟨m, hm, least⟩ := Finset.exists_min_image {k ∈ Finset.range n | ready k = true} rank ⟨l, by simp [hl, here]⟩
  obtain ⟨inside, there⟩ := Finset.mem_filter.mp hm
  have none := List.find?_eq_none.mp h m (List.mem_range.mpr (Finset.mem_range.mp inside))
  refine none (Bool.and_eq_true_iff.mpr ⟨there, List.all_eq_true.mpr fun k hk => ?_⟩)
  rcases asks : ready k with _ | _
  · rfl
  · have := least k (Finset.mem_filter.mpr ⟨Finset.mem_range.mpr (List.mem_range.mp hk), asks⟩)
    simpa using this

end

/-! ### What is asked of a controller -/

/-- The lines that a controller was told to let through, and the one that it handed out and that is being served. -/
structure Gate where
  lets : Nat → Bool
  serving : Option Nat

namespace Gate

def shut : Gate := ⟨fun _ => false, none⟩

def told (g : Gate) (l : Nat) (b : Bool) : Gate := { g with lets := fun k => if k = l then b else g.lets k }

def handed (g : Gate) (l : Nat) : Gate := { g with serving := some l }

def completed (g : Gate) : Gate := { g with serving := none }

end Gate

/-- A driver. `κ` are the ways to ask it for a line: it answers `nothing` if no line asks, and `timer` for a line that
    is quietened by what serves it. -/
structure LineDriver (δ ι ω κ : Type) [Device δ ι] where
  init : Prog (Bus δ ι) δ ω Unit
  unmask : Nat → Prog (Bus δ ι) δ ω Unit
  mask : Nat → Prog (Bus δ ι) δ ω Unit
  claim : κ → Prog (Bus δ ι) δ ω Nat
  complete : Nat → Prog (Bus δ ι) δ ω Unit
  nothing : Nat
  timer : Nat

/-- What is known of a controller: the lines that it may be told of, those that have a device, which of them their
    devices assert, which it lets through, which are served, and which ways to claim ask it. -/
structure Wiring (δ κ : Type) where
  valid : Nat → Prop
  wired : Nat → Prop
  asserted : δ → Nat → Prop
  through : δ → Nat → Prop
  served : δ → Nat → Prop
  asks : κ → Prop

section
variable {δ ι ω κ : Type} [Device δ ι] {n : Nat}

/-- A line is asked for, masked unless it is the timer's, and completed. -/
def LineDriver.serve (C : LineDriver δ ι ω κ) (how : κ) : Prog (Bus δ ι) δ ω Nat := do
  let line ← C.claim how
  if line = C.nothing then return line
  whenever (line ≠ C.timer) (C.mask line)
  C.complete line
  return line

/-- What a claim may answer a processor that serves no line: a line that is let through, which is then held back; that
    the timer is due, of which the controller knows nothing; or that nothing asks, and no line does that is let
    through. -/
inductive Handed (C : LineDriver δ ι ω κ) (W : Wiring δ κ) (R : Gate → δ → Prop) (g : Gate) (how : κ) : Nat → δ → Prop
  | nothing {d : δ} : R g d → (W.asks how → ∀ l, W.wired l → g.lets l = true → ¬W.asserted d l) →
    Handed C W R g how C.nothing d
  | due {d : δ} : R g d → Handed C W R g how C.timer d
  | line {l : Nat} {d : δ} : W.wired l → l ≠ C.nothing → g.lets l = true → R (g.handed l) d → Handed C W R g how l d

/-- Every call of the driver does at the controller what it does at the gate, whatever the devices do meanwhile. -/
structure Drives (C : LineDriver δ ι ω κ) (W : Wiring δ κ) (off : δ → Prop) (R : Gate → δ → Prop) : Prop where
  apart : C.timer ≠ C.nothing
  wired : ∀ l, W.wired l → W.valid l
  through : ∀ g d l, R g d → g.serving = none → W.wired l → (W.through d l ↔ g.lets l = true)
  served : ∀ g d l, R g d → g.serving = none → ¬W.served d l
  beat : ∀ g i d, R g d → R g (Device.beat i d)
  init : ∀ n, Brings n off C.init fun _ => R .shut
  unmask : ∀ n g l, W.valid l → g.serving = none → Brings n (R g) (C.unmask l) fun _ => R (g.told l true)
  mask : ∀ n g l, W.valid l → Brings n (R g) (C.mask l) fun _ => R (g.told l false)
  claim : ∀ n g how, g.serving = none → Brings n (R g) (C.claim how) (Handed C W R g how)
  complete : ∀ n g l, g.serving = some l → Brings n (R g) (C.complete l) fun _ => R g.completed
  due : ∀ n g, g.serving = none → Brings n (R g) (C.complete C.timer) fun _ => R g

/-- What serving a line answers. -/
inductive Answered (C : LineDriver δ ι ω κ) (W : Wiring δ κ) (R : Gate → δ → Prop) (g : Gate) (how : κ) : Nat → δ → Prop
  | nothing {d : δ} : R g d → (W.asks how → ∀ l, W.wired l → g.lets l = true → ¬W.asserted d l) →
    Answered C W R g how C.nothing d
  | timer {d : δ} : R g d → Answered C W R g how C.timer d
  | line {l : Nat} {d : δ} : W.wired l → l ≠ C.nothing → l ≠ C.timer → g.lets l = true → R (g.told l false) d →
      Answered C W R g how l d

variable {C : LineDriver δ ι ω κ} {W : Wiring δ κ} {off : δ → Prop} {R : Gate → δ → Prop}

/-- A gate that serves nothing serves nothing again once the line that was handed out is completed. -/
theorem Gate.completed_handed {g : Gate} (idle : g.serving = none) (l : Nat) : (g.handed l).completed = g := by
  obtain ⟨lets, serving⟩ := g
  cases idle
  rfl

theorem Gate.completed_idle {g : Gate} (idle : g.serving = none) : g.completed = g := by
  obtain ⟨lets, serving⟩ := g
  cases idle
  rfl

theorem Drives.serve (h : Drives C W off R) {g : Gate} {how : κ} (idle : g.serving = none) :
    Brings n (R g) (C.serve how) (Answered C W R g how) := by
  refine (h.claim n g how idle).bind fun line b hb => ?_
  rcases hb with ⟨kept, none⟩ | ⟨kept⟩ | ⟨wired, other, lets, held⟩
  · rw [if_pos rfl]
    exact wp_pure.mpr (.nothing kept none)
  · rw [if_neg h.apart, whenever, if_neg (by simp)]
    refine wp_bind.mpr (wp_pure.mpr (wp_bind.mpr ((h.due n g idle b kept).imp fun _ b' hb' => wp_pure.mpr ?_)))
    exact .timer hb'
  rw [if_neg other]
  by_cases own : line = C.timer
  · rw [whenever, if_neg (by simp [own])]
    refine wp_bind.mpr (wp_pure.mpr (wp_bind.mpr ((h.complete n _ line rfl b held).imp fun _ b' hb' => wp_pure.mpr ?_)))
    rw [Gate.completed_handed idle] at hb'
    exact own ▸ .timer hb'
  · rw [whenever, if_pos (by simp [own])]
    refine wp_bind.mpr ((h.mask n _ line (h.wired _ wired) b held).imp fun _ b₁ masked => ?_)
    refine wp_bind.mpr ((h.complete n _ line rfl b₁ masked).imp fun _ b' hb' => wp_pure.mpr ?_)
    exact .line wired other own lets (Gate.completed_handed (g := g.told line false) idle line ▸ hb')

/-! ### Runs -/

/-- A controller, and the lines that it was told to let through. -/
structure Rig (δ : Type) where
  dev : δ
  lets : Nat → Bool

def Rig.gate (r : Rig δ) : Gate := ⟨r.lets, none⟩

/-- A step of the devices, or a call from a kernel; what is asked is about the lines of the controller, and nothing is
    asked while a line is served. -/
inductive LineDriver.Step (C : LineDriver δ ι ω κ) (W : Wiring δ κ) : Rig δ → Rig δ → Prop
  | beat (r : Rig δ) (i : ι) : Step C W r { r with dev := Device.beat i r.dev }
  | unmask (r : Rig δ) {l n : Nat} {gaps : Nat → List ι} {b : Bus δ ι} {t : List δ} : W.valid l →
      C.unmask l n ⟨r.dev, gaps⟩ = .ok () b t → Step C W r ⟨b.dev, (r.gate.told l true).lets⟩
  | mask (r : Rig δ) {l n : Nat} {gaps : Nat → List ι} {b : Bus δ ι} {t : List δ} : W.valid l →
      C.mask l n ⟨r.dev, gaps⟩ = .ok () b t → Step C W r ⟨b.dev, (r.gate.told l false).lets⟩
  | serve (r : Rig δ) {how : κ} {a n : Nat} {gaps : Nat → List ι} {b : Bus δ ι} {t : List δ} :
      C.serve how n ⟨r.dev, gaps⟩ = .ok a b t →
      Step C W r ⟨b.dev, if a = C.nothing ∨ a = C.timer then r.lets else (r.gate.told a false).lets⟩

/-- What is reached from a controller that is off, once it was brought up. -/
inductive LineDriver.Reached (C : LineDriver δ ι ω κ) (W : Wiring δ κ) (off : δ → Prop) : Rig δ → Prop
  | boot {d : δ} {n : Nat} {gaps : Nat → List ι} {b : Bus δ ι} {t : List δ} : off d → C.init n ⟨d, gaps⟩ = .ok () b t →
      Reached C W off ⟨b.dev, fun _ => false⟩
  | step {r r' : Rig δ} : Reached C W off r → C.Step W r r' → Reached C W off r'

theorem Drives.step (h : Drives C W off R) {r r' : Rig δ} (step : C.Step W r r') (hr : R r.gate r.dev) :
    R r'.gate r'.dev := by
  cases step with
  | beat i => exact h.beat _ i _ hr
  | unmask valid run => exact (h.unmask _ _ _ valid rfl).ok hr run fun _ _ => trivial
  | mask valid run => exact (h.mask _ _ _ valid).ok hr run fun _ _ => trivial
  | serve run =>
    have answered := (h.serve rfl).ok hr run fun _ _ => trivial
    rcases answered with ⟨kept, -⟩ | ⟨kept⟩ | ⟨-, other, own, -, masked⟩
    · rw [if_pos (Or.inl rfl)]
      exact kept
    · rw [if_pos (Or.inr rfl)]
      exact kept
    · rw [if_neg (by simp [other, own])]
      exact masked

theorem Drives.reached (h : Drives C W off R) {r : Rig δ} (reached : C.Reached W off r) : R r.gate r.dev := by
  induction reached with
  | boot out run => exact (h.init _).ok out run fun _ _ => trivial
  | step _ step ih => exact h.step step ih

/-- What a controller does for a kernel, wherever it was brought: it lets through the lines that it was told to, and
    serves none between two calls. A line that is claimed and not the timer's is one of them, and if none is claimed
    of a controller that is asked, no device asserts any of them. -/
structure Obeys (C : LineDriver δ ι ω κ) (W : Wiring δ κ) (r : Rig δ) : Prop where
  through : ∀ l, W.wired l → (W.through r.dev l ↔ r.lets l = true)
  served : ∀ l, ¬W.served r.dev l
  claims : ∀ how n gaps a b t, C.serve how n ⟨r.dev, gaps⟩ = .ok a b t →
    (a ≠ C.nothing → a ≠ C.timer → W.wired a ∧ r.lets a = true ∧ ¬W.through b.dev a) ∧
    (a = C.nothing → W.asks how → ∀ l, W.wired l → r.lets l = true → ¬W.asserted b.dev l)

theorem Drives.obeys (h : Drives C W off R) {r : Rig δ} (reached : C.Reached W off r) : Obeys C W r := by
  have hr := h.reached reached
  refine ⟨fun l wired => h.through _ _ l hr rfl wired, fun l => h.served _ _ l hr rfl, fun how n gaps a b t run => ?_⟩
  have answered := (h.serve rfl).ok hr run fun _ _ => trivial
  rcases answered with ⟨-, none⟩ | - | ⟨wired, other, -, lets, masked⟩
  · exact ⟨fun other => absurd rfl other, fun _ => none⟩
  · exact ⟨fun _ own => absurd rfl own, fun same => absurd same h.apart⟩
  · refine ⟨fun _ _ => ⟨wired, lets, ?_⟩, fun same => absurd same other⟩
    rw [h.through _ _ _ masked rfl wired]
    simp [Gate.told]

end

end Exec
