import Sawos.Lib.Exec

/-! # Register accesses of a device that goes on by itself

Before each access of a program its device takes steps of its own, any number of them. Which ones it takes stands in
the state, so that a program is a function, and what is proved of every state is proved of every interleaving. The
events are the device as it is after each step and each access. -/

namespace Exec

/-- A device that takes steps of its own, of the kinds `ι`. -/
class Device (δ : Type) (ι : outParam Type) where
  beat : ι → δ → δ

/-- A device, and the steps that it takes before each of the accesses to come. -/
structure Bus (δ ι : Type) where
  dev : δ
  gaps : Nat → List ι

namespace Bus

section
variable {δ ι ω α : Type} [Device δ ι]

/-- The device takes steps of its own. -/
def goesOn : List ι → Prog (Bus δ ι) δ ω Unit
  | [] => return
  | i :: is => do
    modifies fun b => { b with dev := Device.beat i b.dev }
    emits dev
    goesOn is

/-- An access, which is answered, and which may change the device. -/
def access (f : δ → α × δ) : Prog (Bus δ ι) δ ω α := do
  goesOn (← reads fun b => b.gaps 0)
  let a ← reads fun b => (f b.dev).1
  modifies fun b => ⟨(f b.dev).2, fun k => b.gaps (k + 1)⟩
  emits dev
  return a

/-- Something about the device is noted, in no time. -/
def notes (f : δ → δ) : Prog (Bus δ ι) δ ω Unit := modifies fun b => { b with dev := f b.dev }

end

section
variable {δ ι ω α β κ : Type} {G V : δ → Prop} {n : Nat} {P : δ → Prop}

/-- While the moments satisfy `G`: from a device with `P`, the program answers with `R`, and each moment satisfies
    `V`. -/
def Steers (G : δ → Prop) (n : Nat) (V P : δ → Prop) (m : Prog (Bus δ ι) δ ω α) (R : α → δ → Prop) : Prop :=
  ∀ b : Bus δ ι, P b.dev → wp G n m (fun a b' => R a b'.dev) ⟨fun _ => False, fun _ => True, V⟩ b

/-- The same, of every moment and about none. -/
abbrev Brings (n : Nat) (P : δ → Prop) (m : Prog (Bus δ ι) δ ω α) (R : α → δ → Prop) : Prop :=
  Steers (fun _ => True) n (fun _ => True) P m R

theorem steers_pure {a : α} {R : α → δ → Prop} (h : ∀ d, P d → R a d) :
    Steers G n V P (pure a : Prog (Bus δ ι) δ ω α) R :=
  fun b hb => wp_pure.mpr (h b.dev hb)

theorem steers_notes {f : δ → δ} {R : Unit → δ → Prop} (h : ∀ d, P d → R () (f d)) :
    Steers G n V P (notes f : Prog (Bus δ ι) δ ω Unit) R :=
  fun b hb => wp_modifies.mpr (h b.dev hb)

theorem steers_reads {f : δ → α} {R : α → δ → Prop} (h : ∀ d, P d → R (f d) d) :
    Steers G n V P (reads fun b => f b.dev : Prog (Bus δ ι) δ ω α) R :=
  fun b hb => wp_reads.mpr (h b.dev hb)

theorem steers_halt {w : ω} {R : α → δ → Prop} : Steers G n V P (halt w : Prog (Bus δ ι) δ ω α) R :=
  fun _ _ => wp_halt.mpr trivial

theorem Steers.bind {m : Prog (Bus δ ι) δ ω α} {f : α → Prog (Bus δ ι) δ ω β} {R : α → δ → Prop} {S : β → δ → Prop}
    (hm : Steers G n V P m R) (hf : ∀ a, Steers G n V (R a) (f a) S) : Steers G n V P (m >>= f) S :=
  fun b hb => wp_bind.mpr ((hm b hb).imp fun a b' hb' => hf a b' hb')

theorem Steers.ite {c : Prop} [Decidable c] {m k : Prog (Bus δ ι) δ ω α} {R : α → δ → Prop}
    (hm : c → Steers G n V P m R) (hk : ¬c → Steers G n V P k R) : Steers G n V P (if c then m else k) R := by
  by_cases h : c
  · rw [if_pos h]
    exact hm h
  · rw [if_neg h]
    exact hk h

theorem Steers.whenever {c : Bool} {m : Prog (Bus δ ι) δ ω Unit} {R : Unit → δ → Prop}
    (hm : c = true → Steers G n V P m R) (hn : c = false → ∀ d, P d → R () d) : Steers G n V P (whenever c m) R := by
  cases c with
  | true => exact hm rfl
  | false => exact steers_pure (hn rfl)

theorem Steers.imp {m : Prog (Bus δ ι) δ ω α} {P' : δ → Prop} {R R' : α → δ → Prop} (h : Steers G n V P m R)
    (hP : ∀ d, P' d → P d) (hR : ∀ a d, R a d → R' a d) : Steers G n V P' m R' :=
  fun b hb => (h b (hP _ hb)).imp fun a b' => hR a b'.dev

theorem Steers.loop {body : κ → Prog (Bus δ ι) δ ω (κ ⊕ α)} {I : κ → δ → Prop} {R : α → δ → Prop}
    (h : ∀ k, Steers G n V (I k) (body k) (Round I R)) (k : κ) : Steers G n V (I k) (Exec.loop body k) R := by
  intro b hb
  refine wp_loop (I := fun k b => I k b.dev) (fun k b hb => (h k b hb).imp ?_) hb
  rintro (k' | a) b' hb'
  · exact hb'
  · exact hb'

/-- What a run answers when all of its moments satisfy `G`. -/
theorem Steers.ok {m : Prog (Bus δ ι) δ ω α} {R : α → δ → Prop} (h : Steers G n V P m R) {b b' : Bus δ ι}
    {a : α} {t : List δ} (hb : P b.dev) (run : m n b = .ok a b' t) (good : ∀ d ∈ t, G d) : R a b'.dev := by
  have sat := h b hb
  rw [wp, run] at sat
  exact sat.2 good

/-- Its moments, when all of them satisfy `G`. -/
theorem Steers.moments {m : Prog (Bus δ ι) δ ω α} {R : α → δ → Prop} (h : Steers G n V P m R)
    {b : Bus δ ι} (hb : P b.dev) (good : ∀ d ∈ (m n b).trace, G d) : ∀ d ∈ (m n b).trace, V d :=
  (h b hb).told.all good

end

section
variable {δ ι ω α : Type} [Device δ ι] {G V : δ → Prop} {n : Nat} {P : δ → Prop}

/-- `P` stays as it is while the device goes on. -/
def Lasts (G V P : δ → Prop) : Prop := ∀ i d, P d → V (Device.beat i d) ∧ (G (Device.beat i d) → P (Device.beat i d))

theorem Lasts.goesOn (lasts : Lasts G V P) (is : List ι) :
    Steers G n V P (goesOn is : Prog (Bus δ ι) δ ω Unit) fun _ => P := by
  induction is with
  | nil => exact fun b h => wp_pure.mpr h
  | cons i is ih =>
    intro b h
    obtain ⟨moment, after⟩ := lasts i b.dev h
    rw [Bus.goesOn, wp_bind, wp_modifies, wp_bind, wp_emits]
    exact ⟨moment, fun good => ih _ (after good)⟩

/-- What each step of the device keeps stays as it is. -/
theorem lasts_of {P : δ → Prop} (h : ∀ i d, P d → P (Device.beat i d)) : Lasts (fun _ => True) (fun _ => True) P :=
  fun i d hd => ⟨trivial, fun _ => h i d hd⟩

theorem steers_access {f : δ → α × δ} {R : α → δ → Prop} (lasts : Lasts G V P)
    (h : ∀ d, P d → V (f d).2 ∧ (G (f d).2 → R (f d).1 (f d).2)) :
      Steers G n V P (access f : Prog (Bus δ ι) δ ω α) R := by
  intro b hb
  rw [access, wp_bind, wp_reads, wp_bind]
  refine (lasts.goesOn (b.gaps 0) b hb).imp fun _ b' hb' => ?_
  rw [wp_bind, wp_reads, wp_bind, wp_modifies, wp_bind, wp_emits]
  obtain ⟨moment, after⟩ := h b'.dev hb'
  exact ⟨moment, fun good => wp_pure.mpr (after good)⟩

/-- An access that changes the device, and answers nothing. -/
theorem steers_store {f : δ → δ} {R : δ → Prop} (lasts : Lasts G V P) (h : ∀ d, P d → V (f d) ∧ (G (f d) → R (f d))) :
    Steers G n V P (access fun d => ((), f d) : Prog (Bus δ ι) δ ω Unit) fun _ => R := steers_access lasts h

/-- An access that answers, and leaves the device. -/
theorem steers_load {f : δ → α} {R : α → δ → Prop} (lasts : Lasts G V P) (h : ∀ d, P d → V d ∧ (G d → R (f d) d)) :
    Steers G n V P (access fun d => (f d, d) : Prog (Bus δ ι) δ ω α) R := steers_access lasts h

/-- The device after steps of its own. -/
def gone (is : List ι) (d : δ) : δ := is.foldl (fun d i => Device.beat i d) d

theorem lands_goesOn {Q : Unit → Bus δ ι → Prop} {is : List ι} : ∀ {b : Bus δ ι}, Q () ⟨gone is b.dev, b.gaps⟩ →
    Lands n (goesOn is : Prog (Bus δ ι) δ ω Unit) Q b := by
  induction is with
  | nil => exact fun h => lands_pure h
  | cons i is ih => exact fun h => lands_bind (lands_modifies (lands_bind (lands_emits (ih h))))

theorem lands_access {f : δ → α × δ} {Q : α → Bus δ ι → Prop} {b : Bus δ ι}
    (h : Q (f (gone (b.gaps 0) b.dev)).1 ⟨(f (gone (b.gaps 0) b.dev)).2, fun k => b.gaps (k + 1)⟩) :
    Lands n (access f : Prog (Bus δ ι) δ ω α) Q b :=
  lands_bind (lands_reads (lands_bind (lands_goesOn
    (lands_bind (lands_reads (lands_bind (lands_modifies (lands_bind (lands_emits (lands_pure h))))))))))

theorem wp_goesOn {G : δ → Prop} {E : Exits (Bus δ ι) δ ω} {is : List ι} : ∀ {b : Bus δ ι},
    (∀ k ≤ is.length, E.emitted (gone (is.take k) b.dev)) →
    wp G n (goesOn is : Prog (Bus δ ι) δ ω Unit) (fun _ b' => b' = ⟨gone is b.dev, b.gaps⟩) E b := by
  induction is with
  | nil => exact fun _ => wp_pure.mpr rfl
  | cons i is ih =>
    intro b h
    rw [goesOn, wp_bind, wp_modifies, wp_bind, wp_emits]
    refine ⟨h 1 (by simp), fun _ => ih fun k le => ?_⟩
    exact h (k + 1) (Nat.succ_le_succ le)

/-- How many steps the device takes before so many accesses. -/
def steps : Nat → (Nat → List ι) → Nat
  | 0, _ => 0
  | k + 1, gaps => (gaps 0).length + steps k fun i => gaps (i + 1)

end

section
variable {δ ι ω α : Type} {n : Nat}

/-- On a device that takes no step of its own meanwhile, the program returns with what passes the test. -/
def returns (m : Prog (Bus δ ι) δ ω α) (n : Nat) (d : δ) (test : α → δ → Bool) : Bool :=
  match m n ⟨d, fun _ => []⟩ with
  | .ok a b _ => test a b.dev
  | _ => false

theorem of_returns {m : Prog (Bus δ ι) δ ω α} {d : δ} {test : α → δ → Bool} (h : returns m n d test = true) :
    ∃ a b t, m n ⟨d, fun _ => []⟩ = .ok a b t ∧ test a b.dev = true := by
  unfold returns at h
  split at h
  · exact ⟨_, _, _, ‹_›, h⟩
  · cases h

end

end Bus

end Exec
