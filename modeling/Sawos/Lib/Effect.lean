import Sawos.Lib.Exec

/-! # What a program leaves alone

A state has named parts, and `same` says when two states agree on a part. A program spares the parts `S` when every
state it ends in agrees on them with the one it started from, and every event that it emits is a quiet one. -/

namespace Exec

/-- The parts of a state, when two states agree on one, and which events are of no account. -/
class Parts (σ : Type) (φ ε : outParam Type) where
  quiet : ε → Prop
  same : φ → σ → σ → Prop
  refl : ∀ x s, same x s s
  trans : ∀ x s t u, same x s t → same x t u → same x s u

section
variable {σ ε ω α β κ φ : Type} [Parts σ φ ε] {S S' : List φ}

/-- `s` and `t` agree on the parts `S`. -/
def Agree (S : List φ) (s t : σ) : Prop := ∀ x ∈ S, Parts.same x s t

theorem Agree.refl (s : σ) : Agree S s s := fun x _ => Parts.refl x s

theorem Agree.trans {s t u : σ} (h : Agree S s t) (h' : Agree S t u) : Agree S s u :=
  fun x hx => Parts.trans x s t u (h x hx) (h' x hx)

theorem Agree.mono {s t : σ} (h : Agree S' s t) (hS : ∀ x ∈ S, x ∈ S') : Agree S s t := fun x hx => h x (hS x hx)

/-- The program never leaves, and emits only quiet events. -/
def Conduct.quiet : Conduct σ ε := ⟨fun _ => False, Parts.quiet σ⟩

/-- `m` never leaves, spares the parts `S`, and emits only quiet events. -/
def Spares (S : List φ) (m : Prog σ ε ω α) : Prop :=
  ∀ n s, wp (fun _ => True) n m (fun _ t => Agree S s t) (Exits.leaving Conduct.quiet) s

theorem Spares.wp {m : Prog σ ε ω α} (h : Spares S m) {G : ε → Prop} {A : Conduct σ ε}
    (quiet : ∀ e, Parts.quiet σ e → A.emitted e) (n : Nat) (s : σ) :
    wp G n m (fun _ t => Agree S s t) (Exits.leaving A) s :=
  (h n s).mono (fun _ _ => trivial) (fun _ _ => id) (fun _ => False.elim) (fun _ => id) quiet

theorem Spares.mono {m : Prog σ ε ω α} (h : Spares S' m) (hS : ∀ x ∈ S, x ∈ S') : Spares S m := fun n s =>
  (h n s).imp fun _ _ ht => ht.mono hS

@[simp] theorem spares_pure {a : α} : Spares S (pure a : Prog σ ε ω α) := fun _ s => wp_pure.mpr (Agree.refl s)

@[simp] theorem spares_reads {f : σ → α} : Spares S (reads f : Prog σ ε ω α) := fun _ s =>
  wp_reads.mpr (Agree.refl s)

@[simp] theorem spares_emits {e : σ → ε} (quiet : ∀ s, Parts.quiet σ (e s)) : Spares S (emits e : Prog σ ε ω Unit) :=
  fun _ s => wp_emits.mpr ⟨quiet s, fun _ => Agree.refl s⟩

@[simp] theorem spares_halt {w : ω} : Spares S (halt w : Prog σ ε ω α) := fun _ _ => wp_halt.mpr trivial

@[simp] theorem spares_spent : Spares S (spent : Prog σ ε ω α) := fun _ _ => wp_spent.mpr trivial

theorem Spares.modifies {f : σ → σ} (h : ∀ s, Agree S s (f s)) : Spares S (modifies f : Prog σ ε ω Unit) :=
  fun _ s => wp_modifies.mpr (h s)

theorem Spares.bind {m : Prog σ ε ω α} {f : α → Prog σ ε ω β} (hm : Spares S m) (hf : ∀ a, Spares S (f a)) :
    Spares S (m >>= f) := fun n s =>
  wp_bind.mpr ((hm n s).imp fun a t ht => (hf a n t).imp fun _ _ hu => ht.trans hu)

theorem Spares.ite {c : Prop} [Decidable c] {m k : Prog σ ε ω α} (hm : Spares S m) (hk : Spares S k) :
    Spares S (if c then m else k) := by
  by_cases h : c <;> simp [h, hm, hk]

theorem Spares.whenever {c : Bool} {m : Prog σ ε ω Unit} (hm : Spares S m) : Spares S (whenever c m) := by
  cases c <;> simp [Exec.whenever, hm]

theorem Spares.countUp {body : Nat → Prog σ ε ω Unit} (hb : ∀ i, Spares S (body i)) :
    ∀ {k i : Nat}, Spares S (countUp body k i)
  | 0, _ => spares_pure
  | _ + 1, _ => Spares.bind (hb _) fun _ => Spares.countUp hb

theorem Spares.loop {body : κ → Prog σ ε ω (κ ⊕ α)} (hb : ∀ k, Spares S (body k)) {k : κ} :
    Spares S (loop body k) := fun n s =>
  wp_loop (I := fun _ t => Agree S s t) (Q := fun _ t => Agree S s t)
    (fun k t ht => (hb k n t).imp fun r u hu => by cases r <;> exact ht.trans hu) (Agree.refl s)

theorem Spares.recur {body : (κ → Prog σ ε ω α) → κ → Prog σ ε ω α}
    (hb : ∀ f : κ → Prog σ ε ω α, (∀ k, Spares S (f k)) → ∀ k, Spares S (body f k)) {k : κ} :
    Spares S (recur body k) := by
  have all : ∀ m k, Spares S (calls body m k) := by
    intro m
    induction m with
    | zero => exact fun k => spares_spent
    | succ m ih => exact hb _ ih
  exact fun n s => all n k n s

theorem wp.andSpares {m : Prog σ ε ω α} {G : ε → Prop} {n : Nat} {A : Conduct σ ε} {Q : α → σ → Prop} {s : σ}
    (h : Exec.wp G n m Q (Exits.leaving A) s) (hm : Spares S m) :
    Exec.wp G n m (fun a t => Q a t ∧ Agree S s t) (Exits.leaving A) s :=
  (wp.and h (hm.wp (A := Conduct.quiet) (fun _ => id) n s)).mono (fun _ => id) (fun _ _ => id) (fun _ => And.left)
    (fun _ => And.left) fun _ => And.left

/-- What `m` keeps, it keeps with what is about parts that it spares. -/
theorem Keeps.andSpares {m : Prog σ ε ω α} {G : ε → Prop} {n : Nat} {A : Conduct σ ε} {I J : σ → Prop}
    (h : Keeps G n A I m)
    (hm : Spares S m) (about : ∀ s t, Agree S s t → J s → J t) : Keeps G n A (fun s => I s ∧ J s) m := fun s hs =>
  ((h s hs.1).andSpares hm).imp fun _ t ht => ⟨ht.1, about s t ht.2 hs.2⟩

/-- An invariant that is about parts that `m` spares is kept. -/
theorem Spares.keepsQuietly {m : Prog σ ε ω α} (h : Spares S m) {I : σ → Prop} (hI : ∀ s t, Agree S s t → I s → I t)
    {G : ε → Prop} {n : Nat} {A : Conduct σ ε} (quiet : ∀ e, Parts.quiet σ e → A.emitted e) :
      Keeps G n A I m := fun s hs =>
  (h.wp quiet n s).imp fun _ _ ht => hI _ _ ht hs

theorem Spares.keeps {m : Prog σ ε ω α} (h : Spares S m) {I : σ → Prop} (hI : ∀ s t, Agree S s t → I s → I t)
    {G : ε → Prop} {n : Nat} {A : σ → Prop} : Keeps G n A I m :=
  h.keepsQuietly hI fun _ _ => trivial

end

end Exec
