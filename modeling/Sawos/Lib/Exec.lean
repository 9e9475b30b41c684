import Mathlib.Logic.Basic

/-! # Traced programs that may run for ever

A program over a state `σ` emits events `ε` and ends in one of three ways: it returns a value, it leaves for
good (the rest of its caller is abandoned, but the state lives on), or it stops the machine for a reason `ω`.
Loops and recursions are cut off after a number of rounds that is the same for the whole run, so that a
program is a function; what it does is what it does for some number of rounds that is large enough.

The rules compute what a program guarantees under an assumption on its events, so "this branch is never
taken" is an assumption that a proof can make without a second semantics. -/

namespace Exec

/-- How a program ends, with the events it emitted; `spent` is a run that was cut off. -/
inductive Outcome (σ ε ω α : Type) where
  | ok (a : α) (s : σ) (t : List ε)
  | away (s : σ) (t : List ε)
  | stop (w : ω) (t : List ε)
  | spent (t : List ε)

/-- What was emitted before stays in front of what is emitted now. -/
def Outcome.after {σ ε ω α : Type} (t : List ε) : Outcome σ ε ω α → Outcome σ ε ω α
  | .ok a s u => .ok a s (t ++ u)
  | .away s u => .away s (t ++ u)
  | .stop w u => .stop w (t ++ u)
  | .spent u => .spent (t ++ u)

/-- A program that returns an `α`, given the number of rounds after which its loops are cut off. -/
def Prog (σ ε ω α : Type) : Type := Nat → σ → Outcome σ ε ω α

section Programs
variable {σ ε ω α β κ : Type}

protected def pure (a : α) : Prog σ ε ω α := fun _ s => .ok a s []

protected def bind (m : Prog σ ε ω α) (f : α → Prog σ ε ω β) : Prog σ ε ω β := fun n s =>
  match m n s with
  | .ok a s' t => (f a n s').after t
  | .away s' t => .away s' t
  | .stop w t => .stop w t
  | .spent t => .spent t

instance : Monad (Prog σ ε ω) where
  pure := Exec.pure
  bind := Exec.bind

/-- Read something off the state. -/
def reads (f : σ → α) : Prog σ ε ω α := fun _ s => .ok (f s) s []

/-- Change the state. -/
def modifies (f : σ → σ) : Prog σ ε ω Unit := fun _ s => .ok () (f s) []

/-- Emit one event, which may report on the state. -/
def emits (e : σ → ε) : Prog σ ε ω Unit := fun _ s => .ok () s [e s]

/-- Stop the machine. -/
def halt (w : ω) : Prog σ ε ω α := fun _ _ => .stop w []

/-- Leave for good in the present state. -/
def leave : Prog σ ε ω α := fun _ s => .away s []

/-- The run that is cut off. -/
def spent : Prog σ ε ω α := fun _ _ => .spent []

/-- Run `m` only when `c` holds. -/
def whenever (c : Bool) (m : Prog σ ε ω Unit) : Prog σ ε ω Unit := if c then m else pure ()

/-- Run `body i` for `i = from, from + 1, …`, `k` times. -/
def countUp (body : Nat → Prog σ ε ω Unit) : Nat → Nat → Prog σ ε ω Unit
  | 0, _ => pure ()
  | k + 1, i => do
    body i
    countUp body k (i + 1)

/-- At most `n` rounds of a loop with a local variable: `body` answers its next value, or the result. -/
def rounds (body : κ → Prog σ ε ω (κ ⊕ α)) : Nat → κ → Prog σ ε ω α
  | 0, _ => spent
  | n + 1, k => do
    match ← body k with
    | .inl k' => rounds body n k'
    | .inr a => pure a

/-- A loop with a local variable. -/
def loop (body : κ → Prog σ ε ω (κ ⊕ α)) (k : κ) : Prog σ ε ω α := fun n => rounds body n k n

/-- At most `n` nested calls of a recursive program. -/
def calls (body : (κ → Prog σ ε ω α) → κ → Prog σ ε ω α) : Nat → κ → Prog σ ε ω α
  | 0 => fun _ => spent
  | n + 1 => body (calls body n)

/-- A recursive program: `body` is given what it calls itself. -/
def recur (body : (κ → Prog σ ε ω α) → κ → Prog σ ε ω α) (k : κ) : Prog σ ε ω α := fun n => calls body n k n

end Programs

/-- What is promised whether or not a program returns: of the state it leaves, of the reason it stops, and of each
    event that it emits. -/
structure Exits (σ ε ω : Type) where
  away : σ → Prop
  stop : ω → Prop
  emitted : ε → Prop

/-- What is promised of a program that may stop the machine: of the state it leaves, and of each event. -/
structure Conduct (σ ε : Type) where
  away : σ → Prop
  emitted : ε → Prop

instance {σ ε : Type} : Coe (σ → Prop) (Conduct σ ε) := ⟨fun A => ⟨A, fun _ => True⟩⟩

/-- The program never leaves. -/
def Conduct.stays {σ ε : Type} : Conduct σ ε := ⟨fun _ => False, fun _ => True⟩

/-- The program may stop the machine, and never leaves. -/
def Exits.stops {σ ε ω : Type} : Exits σ ε ω := ⟨fun _ => False, fun _ => True, fun _ => True⟩

/-- The program may stop the machine, and conducts itself as `A` says. -/
def Exits.leaving {σ ε ω : Type} (A : Conduct σ ε) : Exits σ ε ω := ⟨A.away, fun _ => True, A.emitted⟩

/-- Each event satisfies `V`, when those before it satisfied `G`. -/
def Told {ε : Type} (G V : ε → Prop) : List ε → Prop
  | [] => True
  | e :: t => V e ∧ (G e → Told G V t)

/-- What was emitted. -/
def Outcome.trace {σ ε ω α : Type} : Outcome σ ε ω α → List ε
  | .ok _ _ t => t
  | .away _ t => t
  | .stop _ t => t
  | .spent t => t

/-- What an outcome promises when every event emitted satisfies `G`. -/
def Outcome.Sat {σ ε ω α : Type} (G : ε → Prop) (Q : α → σ → Prop) (E : Exits σ ε ω) : Outcome σ ε ω α → Prop
  | .ok a s t => Told G E.emitted t ∧ ((∀ e ∈ t, G e) → Q a s)
  | .away s t => Told G E.emitted t ∧ ((∀ e ∈ t, G e) → E.away s)
  | .stop w t => Told G E.emitted t ∧ ((∀ e ∈ t, G e) → E.stop w)
  | .spent t => Told G E.emitted t

/-- From `s`, in `n` rounds, if every event emitted satisfies `G`, then `m` returns with `Q`, exits as `E`
    allows, or is cut off; and `E` allows every event up to the first that does not satisfy `G`. -/
def wp {σ ε ω α : Type} (G : ε → Prop) (n : Nat) (m : Prog σ ε ω α) (Q : α → σ → Prop) (E : Exits σ ε ω)
    (s : σ) : Prop :=
  (m n s).Sat G Q E

/-- Some event that `m` emits from `s` satisfies `P`. -/
def Tells {σ ε ω α : Type} (P : ε → Prop) (n : Nat) (m : Prog σ ε ω α) (s : σ) : Prop := ∃ e ∈ (m n s).trace, P e

section Told
variable {ε : Type} {G V : ε → Prop}

theorem told_append {t u : List ε} : Told G V (t ++ u) ↔ Told G V t ∧ ((∀ e ∈ t, G e) → Told G V u) := by
  induction t with
  | nil => simp [Told]
  | cons e t ih =>
    simp only [List.cons_append, Told, ih, List.forall_mem_cons]
    exact ⟨fun h => ⟨⟨h.1, fun he => (h.2 he).1⟩, fun h' => (h.2 h'.1).2 h'.2⟩,
      fun h => ⟨h.1.1, fun he => ⟨h.1.2 he, fun ht => h.2 ⟨he, ht⟩⟩⟩⟩

theorem Told.mono {G' V' : ε → Prop} {t : List ε} (h : Told G V t) (hG : ∀ e, G' e → G e) (hV : ∀ e, V e → V' e) :
    Told G' V' t := by
  induction t with
  | nil => trivial
  | cons e t ih => exact ⟨hV e h.1, fun he => ih (h.2 (hG e he))⟩

theorem Told.and {V' : ε → Prop} {t : List ε} (h : Told G V t) (h' : Told G V' t) : Told G (fun e => V e ∧ V' e) t := by
  induction t with
  | nil => trivial
  | cons e t ih => exact ⟨⟨h.1, h'.1⟩, fun he => ih (h.2 he) (h'.2 he)⟩

theorem Told.all {t : List ε} (h : Told G V t) (good : ∀ e ∈ t, G e) : ∀ e ∈ t, V e := by
  induction t with
  | nil => simp
  | cons e t ih =>
    obtain ⟨first, rest⟩ := List.forall_mem_cons.mp good
    exact List.forall_mem_cons.mpr ⟨h.1, ih (h.2 first) rest⟩

theorem Told.forall {t : List ε} (h : Told (fun _ => True) V t) : ∀ e ∈ t, V e := h.all fun _ _ => trivial

end Told

section Tells
variable {σ ε ω α β κ : Type} {P : ε → Prop} {n : Nat} {s : σ}

theorem Outcome.trace_after {t : List ε} (o : Outcome σ ε ω α) : (o.after t).trace = t ++ o.trace := by
  cases o <;> rfl

@[simp] theorem Outcome.after_nil (o : Outcome σ ε ω α) : o.after [] = o := by
  cases o <;> rfl

theorem Outcome.after_after {t u : List ε} (o : Outcome σ ε ω α) : (o.after u).after t = o.after (t ++ u) := by
  cases o <;> simp [Outcome.after]

theorem bind_assoc {m : Prog σ ε ω α} {f : α → Prog σ ε ω β} {g : β → Prog σ ε ω κ} :
    m >>= f >>= g = m >>= fun a => f a >>= g := by
  funext n s
  simp only [bind, Exec.bind]
  rcases m n s with ⟨a, s', t⟩ | ⟨s', t⟩ | ⟨w, t⟩ | t
  · rcases h : f a n s' with ⟨b, s'', u⟩ | ⟨s'', u⟩ | ⟨w, u⟩ | u <;> simp only [h, Outcome.after]
    exact (Outcome.after_after _).symm
  all_goals rfl

theorem pure_then {a : α} {f : α → Prog σ ε ω β} : (pure a : Prog σ ε ω α) >>= f = f a := by
  funext n s
  exact Outcome.after_nil _

theorem reads_then {g : σ → α} {f : α → Prog σ ε ω β} : (reads g >>= f) n s = f (g s) n s := Outcome.after_nil _

theorem then_pure {m : Prog σ ε ω α} : (m >>= fun a => pure a) = m := by
  funext n s
  simp only [bind, Exec.bind, pure, Exec.pure]
  rcases m n s with ⟨a, s', t⟩ | ⟨s', t⟩ | ⟨w, t⟩ | t <;> simp [Outcome.after]

/-- What follows a program follows each of its continuations. -/
theorem bind_then {m : Prog σ ε ω α} {f : α → Prog σ ε ω β} {g : β → Prog σ ε ω κ} {h : α → Prog σ ε ω κ}
    (each : ∀ a, f a >>= g = h a) : m >>= f >>= g = m >>= h :=
  bind_assoc.trans (congrArg _ (funext each))

@[simp] theorem tells_bind_assoc {m : Prog σ ε ω α} {f : α → Prog σ ε ω β} {g : β → Prog σ ε ω κ} :
    Tells P n (m >>= f >>= g) s ↔ Tells P n (m >>= fun a => f a >>= g) s := by
  rw [bind_assoc]

@[simp] theorem tells_pure_bind {a : α} {f : α → Prog σ ε ω β} : Tells P n (pure a >>= f) s ↔ Tells P n (f a) s := by
  simp [Tells, bind, Exec.bind, pure, Exec.pure]

@[simp] theorem tells_reads_bind {g : σ → α} {f : α → Prog σ ε ω β} :
    Tells P n (reads g >>= f) s ↔ Tells P n (f (g s)) s := by
  simp [Tells, bind, Exec.bind, reads]

@[simp] theorem tells_modifies_bind {g : σ → σ} {f : Unit → Prog σ ε ω β} :
    Tells P n (modifies g >>= f) s ↔ Tells P n (f ()) (g s) := by
  simp [Tells, bind, Exec.bind, modifies]

theorem tells_emits {e : σ → ε} (h : P (e s)) : Tells P n (emits e : Prog σ ε ω Unit) s :=
  ⟨e s, by simp [emits, Outcome.trace], h⟩

theorem Tells.emits {e : σ → ε} {f : Unit → Prog σ ε ω β} (h : Tells P n (f ()) s) : Tells P n (emits e >>= f) s := by
  obtain ⟨e', he, good⟩ := h
  refine ⟨e', ?_, good⟩
  simp only [Bind.bind, Exec.bind, Exec.emits, Outcome.trace_after]
  exact List.mem_append_right _ he

/-- What a program tells at first, it tells whatever follows. -/
theorem Tells.bind {m : Prog σ ε ω α} {f : α → Prog σ ε ω β} (h : Tells P n m s) : Tells P n (m >>= f) s := by
  obtain ⟨e, he, good⟩ := h
  refine ⟨e, ?_, good⟩
  simp only [Bind.bind, Exec.bind]
  rcases run : m n s with ⟨a, s', t⟩ | ⟨s', t⟩ | ⟨w, t⟩ | t <;> rw [run] at he
  · rw [Outcome.trace_after]
    exact List.mem_append_left _ he
  all_goals exact he

end Tells

section Rules
variable {σ ε ω α β κ : Type} {G : ε → Prop} {E : Exits σ ε ω} {s : σ} {n : Nat}

@[simp] theorem Exits.stops_away (s : σ) : (Exits.stops : Exits σ ε ω).away s ↔ False := Iff.rfl
@[simp] theorem Exits.stops_stop (w : ω) : (Exits.stops : Exits σ ε ω).stop w ↔ True := Iff.rfl
@[simp] theorem Exits.stops_emitted (e : ε) : (Exits.stops : Exits σ ε ω).emitted e ↔ True := Iff.rfl
@[simp] theorem Exits.leaving_away (A : Conduct σ ε) (s : σ) : (Exits.leaving A : Exits σ ε ω).away s ↔ A.away s :=
  Iff.rfl
@[simp] theorem Exits.leaving_stop (A : Conduct σ ε) (w : ω) : (Exits.leaving A : Exits σ ε ω).stop w ↔ True := Iff.rfl
@[simp] theorem Exits.leaving_emitted (A : Conduct σ ε) (e : ε) :
    (Exits.leaving A : Exits σ ε ω).emitted e ↔ A.emitted e :=
  Iff.rfl
@[simp] theorem Conduct.stays_away (s : σ) : (Conduct.stays : Conduct σ ε).away s ↔ False := Iff.rfl
@[simp] theorem Conduct.stays_emitted (e : ε) : (Conduct.stays : Conduct σ ε).emitted e ↔ True := Iff.rfl

@[simp] theorem wp_pure {a : α} {Q : α → σ → Prop} : wp G n (pure a) Q E s ↔ Q a s := by
  simp [wp, Outcome.Sat, Told, pure, Exec.pure]

@[simp] theorem wp_bind {m : Prog σ ε ω α} {f : α → Prog σ ε ω β} {Q : β → σ → Prop} :
    wp G n (m >>= f) Q E s ↔ wp G n m (fun a => wp G n (f a) Q E) E s := by
  unfold wp
  simp only [bind, Exec.bind]
  rcases m n s with ⟨a, s', t⟩ | ⟨s', t⟩ | ⟨w, t⟩ | t <;> simp only [Outcome.Sat]
  have split : ∀ {u : List ε} {R : Prop}, (Told G E.emitted (t ++ u) ∧ ((∀ e ∈ t ++ u, G e) → R)) ↔
      Told G E.emitted t ∧ ((∀ e ∈ t, G e) → Told G E.emitted u ∧ ((∀ e ∈ u, G e) → R)) := by
    intro u R
    rw [told_append, List.forall_mem_append]
    exact ⟨fun h => ⟨h.1.1, fun ht => ⟨h.1.2 ht, fun hu => h.2 ⟨ht, hu⟩⟩⟩,
      fun h => ⟨⟨h.1, fun ht => (h.2 ht).1⟩, fun htu => (h.2 htu.1).2 htu.2⟩⟩
  rcases f a n s' with ⟨b, s'', u⟩ | ⟨s'', u⟩ | ⟨w, u⟩ | u <;> simp only [Outcome.after]
  · exact split
  · exact split
  · exact split
  · exact told_append

@[simp] theorem wp_reads {f : σ → α} {Q : α → σ → Prop} : wp G n (reads f) Q E s ↔ Q (f s) s := by
  simp [wp, Outcome.Sat, Told, reads]

@[simp] theorem wp_modifies {f : σ → σ} {Q : Unit → σ → Prop} : wp G n (modifies f) Q E s ↔ Q () (f s) := by
  simp [wp, Outcome.Sat, Told, modifies]

@[simp] theorem wp_emits {e : σ → ε} {Q : Unit → σ → Prop} : 
    wp G n (emits e) Q E s ↔ E.emitted (e s) ∧ (G (e s) → Q () s) := by
  simp [wp, Outcome.Sat, Told, emits]

@[simp] theorem wp_halt {w : ω} {Q : α → σ → Prop} : wp G n (halt w) Q E s ↔ E.stop w := by
  simp [wp, Outcome.Sat, Told, halt]

@[simp] theorem wp_leave {Q : α → σ → Prop} : wp G n leave Q E s ↔ E.away s := by
  simp [wp, Outcome.Sat, Told, leave]

@[simp] theorem wp_spent {Q : α → σ → Prop} : wp G n spent Q E s ↔ True := by
  simp [wp, Outcome.Sat, Told, spent]

theorem wp_ite {c : Prop} [Decidable c] {m k : Prog σ ε ω α} {Q : α → σ → Prop} :
    wp G n (if c then m else k) Q E s ↔ (c → wp G n m Q E s) ∧ (¬c → wp G n k Q E s) := by
  by_cases h : c <;> simp [h]

theorem wp_whenever {c : Bool} {m : Prog σ ε ω Unit} {Q : Unit → σ → Prop} :
    wp G n (whenever c m) Q E s ↔ (c = true → wp G n m Q E s) ∧ (c = false → Q () s) := by
  cases c <;> simp [whenever]

/-- What holds after `m` may be weakened, and so may the assumption on its events be strengthened. -/
theorem wp.mono {G' : ε → Prop} {m : Prog σ ε ω α} {Q Q' : α → σ → Prop} {E' : Exits σ ε ω} (h : wp G n m Q E s)
    (hG : ∀ e, G' e → G e) (hQ : ∀ a t, Q a t → Q' a t) (ha : ∀ t, E.away t → E'.away t)
    (hs : ∀ w, E.stop w → E'.stop w) (he : ∀ e, E.emitted e → E'.emitted e) : wp G' n m Q' E' s := by
  unfold wp at h ⊢
  generalize m n s = o at h ⊢
  rcases o with ⟨a, s', t⟩ | ⟨s', t⟩ | ⟨w, t⟩ | t
  · exact ⟨h.1.mono hG he, fun ht => hQ _ _ (h.2 fun e he => hG e (ht e he))⟩
  · exact ⟨h.1.mono hG he, fun ht => ha _ (h.2 fun e he => hG e (ht e he))⟩
  · exact ⟨h.1.mono hG he, fun ht => hs _ (h.2 fun e he => hG e (ht e he))⟩
  · exact h.mono hG he

theorem wp.imp {m : Prog σ ε ω α} {Q Q' : α → σ → Prop} (h : wp G n m Q E s) (hQ : ∀ a t, Q a t → Q' a t) :
    wp G n m Q' E s :=
  h.mono (fun _ => id) hQ (fun _ => id) (fun _ => id) fun _ => id

/-- What a run that returned satisfies. -/
theorem wp.ok {m : Prog σ ε ω α} {Q : α → σ → Prop} {a : α} {s' : σ} {t : List ε} (h : wp (fun _ => True) n m Q E s)
    (run : m n s = .ok a s' t) : Q a s' := by
  rw [wp, run] at h
  exact h.2 fun _ _ => trivial

/-- What a run emits. -/
theorem wp.emitted {m : Prog σ ε ω α} {Q : α → σ → Prop} (h : wp (fun _ => True) n m Q E s) :
    ∀ e ∈ (m n s).trace, E.emitted e := by
  unfold wp at h
  generalize m n s = o at h ⊢
  rcases o with ⟨a, s', t⟩ | ⟨s', t⟩ | ⟨w, t⟩ | t
  · exact h.1.forall
  · exact h.1.forall
  · exact h.1.forall
  · exact h.forall

/-- What a run emits, up to the first event that does not satisfy the assumption. -/
theorem wp.told {m : Prog σ ε ω α} {Q : α → σ → Prop} (h : wp G n m Q E s) : Told G E.emitted (m n s).trace := by
  unfold wp at h
  generalize m n s = o at h ⊢
  rcases o with ⟨a, s', t⟩ | ⟨s', t⟩ | ⟨w, t⟩ | t
  · exact h.1
  · exact h.1
  · exact h.1
  · exact h

/-- A program of which nothing is asked. -/
theorem wp_any {m : Prog σ ε ω α} {Q : α → σ → Prop} (hQ : ∀ a t, Q a t) (ha : ∀ t, E.away t) (hs : ∀ w, E.stop w)
    (he : ∀ e, E.emitted e) : wp G n m Q E s := by
  have told : ∀ t : List ε, Told G E.emitted t := by
    intro t
    induction t with
    | nil => trivial
    | cons e t ih => exact ⟨he e, fun _ => ih⟩
  unfold wp
  rcases m n s with ⟨a, s', t⟩ | ⟨s', t⟩ | ⟨w, t⟩ | t
  · exact ⟨told t, fun _ => hQ a s'⟩
  · exact ⟨told t, fun _ => ha s'⟩
  · exact ⟨told t, fun _ => hs w⟩
  · exact told t

/-- Both promises hold where both are made. -/
def Exits.both (E E' : Exits σ ε ω) : Exits σ ε ω :=
  ⟨fun s => E.away s ∧ E'.away s, fun w => E.stop w ∧ E'.stop w, fun e => E.emitted e ∧ E'.emitted e⟩

theorem wp.and {m : Prog σ ε ω α} {Q Q' : α → σ → Prop} {E' : Exits σ ε ω} (h : wp G n m Q E s)
    (h' : wp G n m Q' E' s) : wp G n m (fun a t => Q a t ∧ Q' a t) (E.both E') s := by
  unfold wp at h h' ⊢
  generalize m n s = o at h h' ⊢
  rcases o with ⟨a, s', t⟩ | ⟨s', t⟩ | ⟨w, t⟩ | t
  · exact ⟨h.1.and h'.1, fun ht => ⟨h.2 ht, h'.2 ht⟩⟩
  · exact ⟨h.1.and h'.1, fun ht => ⟨h.2 ht, h'.2 ht⟩⟩
  · exact ⟨h.1.and h'.1, fun ht => ⟨h.2 ht, h'.2 ht⟩⟩
  · exact h.and h'

/-- What returned is what the program computes. -/
theorem wp.run {m : Prog σ ε ω α} {Q : α → σ → Prop} (h : wp G n m Q E s) :
    wp G n m (fun a t => Q a t ∧ ∃ tr, m n s = .ok a t tr) E s := by
  unfold wp at h ⊢
  generalize m n s = o at h ⊢
  cases o with
  | ok a t tr => exact ⟨h.1, fun ht => ⟨h.2 ht, tr, rfl⟩⟩
  | away t tr => exact h
  | stop w tr => exact h
  | spent tr => exact h

/-- A counted loop keeps what each of its rounds keeps. -/
theorem wp_countUp {body : Nat → Prog σ ε ω Unit} {I : Nat → σ → Prop} {k : Nat} :
    ∀ {i : Nat} {s : σ}, I i s → (∀ j t, i ≤ j → j < i + k → I j t → wp G n (body j) (fun _ => I (j + 1)) E t) →
      wp G n (countUp body k i) (fun _ => I (i + k)) E s := by
  induction k with
  | zero => intro i s h _; simpa [countUp] using h
  | succ k ih =>
    intro i s h hbody
    simp only [countUp, wp_bind]
    refine (hbody i s (Nat.le_refl i) (by omega) h).imp fun _ t ht => ?_
    have := ih (i := i + 1) ht fun j u hj hj' => hbody j u (by omega) (by omega)
    rwa [show i + 1 + k = i + (k + 1) by omega] at this

/-- What one round of a loop promises: the invariant for the next value, or the result. -/
def Round (I : κ → σ → Prop) (Q : α → σ → Prop) : κ ⊕ α → σ → Prop
  | .inl k, s => I k s
  | .inr a, s => Q a s

theorem wp_rounds {body : κ → Prog σ ε ω (κ ⊕ α)} {I : κ → σ → Prop} {Q : α → σ → Prop}
    (hbody : ∀ k t, I k t → wp G n (body k) (Round I Q) E t) :
    ∀ {m : Nat} {k : κ} {s : σ}, I k s → wp G n (rounds body m k) Q E s
  | 0, k, s, _ => by simp [rounds]
  | m + 1, k, s, h => by
    simp only [rounds, wp_bind]
    refine (hbody k s h).imp fun r t ht => ?_
    rcases r with k' | a
    · exact wp_rounds hbody ht
    · exact wp_pure.mpr ht

theorem wp_loop {body : κ → Prog σ ε ω (κ ⊕ α)} {I : κ → σ → Prop} {Q : α → σ → Prop} {k : κ}
    (hbody : ∀ k t, I k t → wp G n (body k) (Round I Q) E t) (h : I k s) : wp G n (loop body k) Q E s :=
  wp_rounds (m := n) hbody h

/-- A recursive program meets the specification that its body meets when its own calls do. -/
theorem wp_recur {body : (κ → Prog σ ε ω α) → κ → Prog σ ε ω α} {P : κ → σ → Prop} {Q : κ → α → σ → σ → Prop}
    {A : κ → σ → Exits σ ε ω}
    (hbody : ∀ f : κ → Prog σ ε ω α, (∀ k t, P k t → wp G n (f k) (Q k · t) (A k t) t) →
      ∀ k t, P k t → wp G n (body f k) (Q k · t) (A k t) t) {k : κ} (h : P k s) :
    wp G n (recur body k) (Q k · s) (A k s) s := by
  have all : ∀ m k t, P k t → wp G n (calls body m k) (Q k · t) (A k t) t := by
    intro m
    induction m with
    | zero => intro k t _; simp [calls]
    | succ m ih => exact hbody _ ih
  exact all n k s h

end Rules

/-! ### Runs that return -/

/-- From `s`, in `n` rounds, `m` returns, with `Q`. -/
def Lands {σ ε ω α : Type} (n : Nat) (m : Prog σ ε ω α) (Q : α → σ → Prop) (s : σ) : Prop :=
  ∃ a t tr, m n s = .ok a t tr ∧ Q a t

section Lands
variable {σ ε ω α β κ : Type} {n : Nat} {s : σ}

theorem Lands.imp {m : Prog σ ε ω α} {Q Q' : α → σ → Prop} (h : Lands n m Q s) (hQ : ∀ a t, Q a t → Q' a t) :
    Lands n m Q' s := by
  obtain ⟨a, t, tr, run, post⟩ := h
  exact ⟨a, t, tr, run, hQ a t post⟩

theorem Lands.and_wp {m : Prog σ ε ω α} {Q Q' : α → σ → Prop} {E : Exits σ ε ω} (h : Lands n m Q s)
    (h' : wp (fun _ => True) n m Q' E s) : Lands n m (fun a t => Q a t ∧ Q' a t) s := by
  obtain ⟨a, t, tr, run, post⟩ := h
  exact ⟨a, t, tr, run, post, h'.ok run⟩

/-- A program that returns does so with whatever it returns with. -/
theorem Lands.of_wp {m : Prog σ ε ω α} {Q : α → σ → Prop} {E : Exits σ ε ω} (returns : Lands n m (fun _ _ => True) s)
    (h : wp (fun _ => True) n m Q E s) : Lands n m Q s := (returns.and_wp h).imp fun _ _ => And.right

theorem lands_pure {a : α} {Q : α → σ → Prop} (h : Q a s) : Lands n (pure a : Prog σ ε ω α) Q s := ⟨a, s, [], rfl, h⟩

theorem lands_bind {m : Prog σ ε ω α} {f : α → Prog σ ε ω β} {Q : β → σ → Prop}
    (h : Lands n m (fun a => Lands n (f a) Q) s) : Lands n (m >>= f) Q s := by
  obtain ⟨a, t, tr, run, b, u, tr', run', post⟩ := h
  refine ⟨b, u, tr ++ tr', ?_, post⟩
  simp only [bind, Exec.bind, run, run', Outcome.after]

theorem lands_reads {f : σ → α} {Q : α → σ → Prop} (h : Q (f s) s) : Lands n (reads f : Prog σ ε ω α) Q s :=
  ⟨f s, s, [], rfl, h⟩

theorem lands_modifies {f : σ → σ} {Q : Unit → σ → Prop} (h : Q () (f s)) :
    Lands n (modifies f : Prog σ ε ω Unit) Q s :=
  ⟨(), f s, [], rfl, h⟩

theorem lands_emits {e : σ → ε} {Q : Unit → σ → Prop} (h : Q () s) : Lands n (emits e : Prog σ ε ω Unit) Q s :=
  ⟨(), s, [e s], rfl, h⟩

theorem lands_whenever {c : Bool} {m : Prog σ ε ω Unit} {Q : Unit → σ → Prop} (yes : c = true → Lands n m Q s)
    (no : c = false → Q () s) : Lands n (whenever c m) Q s := by
  cases c with
  | true => exact yes rfl
  | false => exact lands_pure (no rfl)

/-- From `s`, in `n` rounds, `m` returns, with `Q`, or it stops by one of `W`. -/
def LandsOr (W : ω → Prop) (n : Nat) (m : Prog σ ε ω α) (Q : α → σ → Prop) (s : σ) : Prop :=
  Lands n m Q s ∨ ∃ w tr, W w ∧ m n s = .stop w tr

theorem Lands.or {W : ω → Prop} {m : Prog σ ε ω α} {Q : α → σ → Prop} (h : Lands n m Q s) :
    LandsOr W n m Q s := Or.inl h

theorem LandsOr.imp {W : ω → Prop} {m : Prog σ ε ω α} {Q Q' : α → σ → Prop} (h : LandsOr W n m Q s)
    (hQ : ∀ a t, Q a t → Q' a t) : LandsOr W n m Q' s :=
  h.imp_left fun returns => returns.imp hQ

theorem LandsOr.lands {m : Prog σ ε ω α} {Q : α → σ → Prop} (h : LandsOr (fun _ => False) n m Q s) : Lands n m Q s := by
  rcases h with returns | ⟨_, _, none, -⟩
  · exact returns
  · exact none.elim

theorem landsOr_halt {W : ω → Prop} {w : ω} {Q : α → σ → Prop} (hw : W w) : LandsOr W n (halt w : Prog σ ε ω α) Q s :=
  Or.inr ⟨w, [], hw, rfl⟩

theorem landsOr_bind {W : ω → Prop} {m : Prog σ ε ω α} {f : α → Prog σ ε ω β} {Q : β → σ → Prop}
    (h : LandsOr W n m (fun a => LandsOr W n (f a) Q) s) : LandsOr W n (m >>= f) Q s := by
  rcases h with ⟨a, t, tr, run, ⟨b, u, tr', run', post⟩ | ⟨w, tr', hw, run'⟩⟩ | ⟨w, tr, hw, run⟩
  · refine Or.inl ⟨b, u, tr ++ tr', ?_, post⟩
    simp only [bind, Exec.bind, run, run', Outcome.after]
  · refine Or.inr ⟨w, tr ++ tr', hw, ?_⟩
    simp only [bind, Exec.bind, run, run', Outcome.after]
  · refine Or.inr ⟨w, tr, hw, ?_⟩
    simp only [bind, Exec.bind, run]

theorem landsOr_whenever {W : ω → Prop} {c : Bool} {m : Prog σ ε ω Unit} {Q : Unit → σ → Prop}
    (yes : c = true → LandsOr W n m Q s) (no : c = false → Q () s) : LandsOr W n (whenever c m) Q s := by
  cases c with
  | true => exact yes rfl
  | false => exact (lands_pure (no rfl)).or

theorem landsOr_rounds {W : ω → Prop} {body : κ → Prog σ ε ω (κ ⊕ α)} {I : Nat → κ → σ → Prop} {Q : α → σ → Prop}
    (hbody : ∀ m k t, I m k t → LandsOr W n (body k) (Round (fun k' u => ∃ m' < m, I m' k' u) Q) t) :
    ∀ {rest m : Nat} {k : κ} {s : σ}, I m k s → m < rest → LandsOr W n (rounds body rest k) Q s
  | rest + 1, m, k, s, h, bound => by
    refine landsOr_bind ((hbody m k s h).imp fun r t ht => ?_)
    rcases r with k' | a
    · obtain ⟨m', less, next⟩ := ht
      exact landsOr_rounds hbody next (by omega)
    · exact (lands_pure (Q := Q) ht).or

/-- A loop with a measure that each round lowers returns or stops, when it is below the number of rounds. -/
theorem landsOr_loop {W : ω → Prop} {body : κ → Prog σ ε ω (κ ⊕ α)} {I : Nat → κ → σ → Prop}
    {Q : α → σ → Prop} {m : Nat} {k : κ}
    (hbody : ∀ m k t, I m k t → LandsOr W n (body k) (Round (fun k' u => ∃ m' < m, I m' k' u) Q) t)
    (h : I m k s) (bound : m < n) :
    LandsOr W n (loop body k) Q s :=
  landsOr_rounds hbody h bound

/-- A loop with a measure that each round lowers returns, when it is below the number of rounds. -/
theorem lands_loop {body : κ → Prog σ ε ω (κ ⊕ α)} {I : Nat → κ → σ → Prop} {Q : α → σ → Prop} {m : Nat} {k : κ}
    (hbody : ∀ m k t, I m k t → Lands n (body k) (Round (fun k' u => ∃ m' < m, I m' k' u) Q) t)
    (h : I m k s) (bound : m < n) :
    Lands n (loop body k) Q s :=
  (landsOr_loop (fun m k t ht => (hbody m k t ht).or) h bound).lands

end Lands

/-- `m` keeps `I`, whatever it returns, while its events satisfy `G`, and conducts itself as `A` says. -/
def Keeps {σ ε ω α : Type} (G : ε → Prop) (n : Nat) (A : Conduct σ ε) (I : σ → Prop) (m : Prog σ ε ω α) : Prop :=
  ∀ s, I s → wp G n m (fun _ => I) (Exits.leaving A) s

section Keeps
variable {σ ε ω α β κ : Type} {G : ε → Prop} {n : Nat} {A : Conduct σ ε} {I : σ → Prop}

@[simp] theorem keeps_pure {a : α} : Keeps G n A I (pure a : Prog σ ε ω α) := fun _ h => wp_pure.mpr h

@[simp] theorem keeps_reads {f : σ → α} : Keeps G n A I (reads f : Prog σ ε ω α) := fun _ h => wp_reads.mpr h

@[simp] theorem keeps_halt {w : ω} : Keeps G n A I (halt w : Prog σ ε ω α) := fun _ _ => wp_halt.mpr trivial


@[simp] theorem keeps_spent : Keeps G n A I (spent : Prog σ ε ω α) := fun _ _ => wp_spent.mpr trivial

theorem keeps_emits {e : σ → ε} (he : ∀ s, A.emitted (e s)) : Keeps G n A I (emits e : Prog σ ε ω Unit) :=
  fun s h => wp_emits.mpr ⟨he s, fun _ => h⟩

theorem Keeps.bind {m : Prog σ ε ω α} {f : α → Prog σ ε ω β} (hm : Keeps G n A I m)
    (hf : ∀ a, Keeps G n A I (f a)) : Keeps G n A I (m >>= f) := fun s h =>
  wp_bind.mpr ((hm s h).imp fun a t ht => hf a t ht)

theorem Keeps.ite {c : Prop} [Decidable c] {m k : Prog σ ε ω α} (hm : Keeps G n A I m) (hk : Keeps G n A I k) :
    Keeps G n A I (if c then m else k) := by
  by_cases h : c <;> simp [h, hm, hk]

theorem Keeps.whenever {c : Bool} {m : Prog σ ε ω Unit} (hm : Keeps G n A I m) : Keeps G n A I (whenever c m) := by
  cases c <;> simp [Exec.whenever, hm]

theorem Keeps.countUp {body : Nat → Prog σ ε ω Unit} (hb : ∀ i, Keeps G n A I (body i)) :
    ∀ {k i : Nat}, Keeps G n A I (countUp body k i)
  | 0, _ => keeps_pure
  | _ + 1, _ => Keeps.bind (hb _) fun _ => Keeps.countUp hb

theorem Keeps.loop {body : κ → Prog σ ε ω (κ ⊕ α)} (hb : ∀ k, Keeps G n A I (body k)) {k : κ} :
    Keeps G n A I (loop body k) := fun _ h =>
  wp_loop (I := fun _ => I) (Q := fun _ => I)
    (fun k t ht => (hb k t ht).imp fun r u hu => by cases r <;> exact hu) h

theorem Keeps.recur {body : (κ → Prog σ ε ω α) → κ → Prog σ ε ω α}
    (hb : ∀ f : κ → Prog σ ε ω α, (∀ k, Keeps G n A I (f k)) → ∀ k, Keeps G n A I (body f k)) {k : κ} :
    Keeps G n A I (recur body k) := fun _ h =>
  wp_recur (P := fun _ => I) (Q := fun _ _ _ => I) (A := fun _ _ => Exits.leaving A) hb h

end Keeps

/-- From a state that satisfies `I`, `m` returns in one that satisfies `J`, and conducts itself as `A` says. -/
def Leads {σ ε ω α : Type} (G : ε → Prop) (n : Nat) (A : Conduct σ ε) (I J : σ → Prop) (m : Prog σ ε ω α) : Prop :=
  ∀ s, I s → wp G n m (fun _ => J) (Exits.leaving A) s

section Leads
variable {σ ε ω α β : Type} {G : ε → Prop} {n : Nat} {A : Conduct σ ε} {I J L : σ → Prop}

theorem Keeps.leads {m : Prog σ ε ω α} (h : Keeps G n A I m) : Leads G n A I I m := h

theorem Leads.bind {m : Prog σ ε ω α} {f : α → Prog σ ε ω β} (hm : Leads G n A I J m)
    (hf : ∀ a, Leads G n A J L (f a)) : Leads G n A I L (m >>= f) := fun s h =>
  wp_bind.mpr ((hm s h).imp fun a t ht => hf a t ht)

theorem Leads.ite {c : Prop} [Decidable c] {m k : Prog σ ε ω α} (hm : Leads G n A I J m) (hk : Leads G n A I J k) :
    Leads G n A I J (if c then m else k) := by
  by_cases h : c <;> simp [h, hm, hk]

theorem leads_halt {w : ω} : Leads G n A I J (halt w : Prog σ ε ω α) := fun _ _ => wp_halt.mpr trivial

theorem leads_leave (h : ∀ s, I s → A.away s) : Leads G n A I J (leave : Prog σ ε ω α) := fun s hs =>
  wp_leave.mpr (h s hs)

theorem Leads.and {A B I' J' : σ → Prop} {m : Prog σ ε ω α} (h : Leads G n A I J m) (h' : Leads G n B I' J' m) :
    Leads G n (fun s => A s ∧ B s : σ → Prop) (fun s => I s ∧ I' s) (fun s => J s ∧ J' s) m := fun s hs =>
  (wp.and (h s hs.1) (h' s hs.2)).mono (fun _ => id) (fun _ _ => id) (fun _ => id)
    (fun _ _ => trivial) fun _ _ => trivial

theorem Keeps.and {A B I' : σ → Prop} {m : Prog σ ε ω α} (h : Keeps G n A I m) (h' : Keeps G n B I' m) :
    Keeps G n (fun s => A s ∧ B s : σ → Prop) (fun s => I s ∧ I' s) m :=
  Leads.and h h'

theorem Leads.imp {I' J' : σ → Prop} {m : Prog σ ε ω α} (h : Leads G n A I J m) (hI : ∀ s, I' s → I s)
    (hJ : ∀ s, J s → J' s) : Leads G n A I' J' m := fun s hs => (h s (hI s hs)).imp fun _ t => hJ t

/-- A program that does not return satisfies every postcondition. -/
theorem Leads.never {m : Prog σ ε ω α} (h : Leads G n A I (fun _ => False) m) {Q : α → σ → Prop} {s : σ} (hs : I s) :
    wp G n m Q (Exits.leaving A) s :=
  (h s hs).imp fun _ _ => False.elim

end Leads
end Exec
