import Sawos.Lib.Exec

/-! # Machines with a history

A machine starts in some states and steps between states, and each start and step emits events. A run is a
state that the machine reached, with all that was emitted on the way. -/

namespace Exec

structure Machine (σ ε : Type) where
  start : σ → List ε → Prop
  step : σ → σ → List ε → Prop

namespace Machine
variable {σ ε ω : Type}

/-- The machine reaches `s`, and emitted `h` since it started. -/
inductive Run (m : Machine σ ε) : σ → List ε → Prop
  | start {s : σ} {h : List ε} : m.start s h → Run m s h
  | step {s s' : σ} {h t : List ε} : Run m s h → m.step s s' t → Run m s' (h ++ t)

/-- The machine reaches `s` by a run all of whose events satisfy `G`. -/
def Reach (m : Machine σ ε) (G : ε → Prop) (s : σ) : Prop := ∃ h, m.Run s h ∧ ∀ e ∈ h, G e

variable {m : Machine σ ε} {G : ε → Prop} {I : σ → Prop}

/-- What holds at the start and is kept by each step, when their events satisfy `G`, holds wherever a run of
    such events reaches. -/
theorem Reach.induct {s : σ} (hr : m.Reach G s) (start : ∀ s h, m.start s h → (∀ e ∈ h, G e) → I s)
    (step : ∀ s s' t, m.step s s' t → (∀ e ∈ t, G e) → I s → I s') : I s := by
  obtain ⟨h, run, good⟩ := hr
  induction run with
  | start hs => exact start _ _ hs good
  | step _ hs ih =>
    exact step _ _ _ hs (fun e he => good e (List.mem_append_right _ he))
      (ih fun e he => good e (List.mem_append_left _ he))

/-- The machine goes on from `s` to `s'`. -/
inductive Later (m : Machine σ ε) (s : σ) : σ → Prop
  | here : Later m s s
  | step {s' u : σ} {t : List ε} : Later m s s' → m.step s' u t → Later m s u

/-- The machine goes on from `s` to `s'`, and emits `h` on the way. -/
inductive Ahead (m : Machine σ ε) (s : σ) : σ → List ε → Prop
  | here : Ahead m s s []
  | step {s' u : σ} {h t : List ε} : Ahead m s s' h → m.step s' u t → Ahead m s u (h ++ t)

theorem Ahead.later {s s' : σ} {h : List ε} (ahead : m.Ahead s s' h) : m.Later s s' := by
  induction ahead with
  | here => exact .here
  | step _ hs ih => exact ih.step hs

/-- What is ahead of a state that is reached is reached. -/
theorem Reach.ahead {s s' : σ} {h : List ε} (hr : m.Reach G s) (ahead : m.Ahead s s' h) (good : ∀ e ∈ h, G e) :
    m.Reach G s' := by
  induction ahead with
  | here => exact hr
  | step _ hs ih =>
    obtain ⟨first, last⟩ := List.forall_mem_append.mp good
    obtain ⟨before, run, all⟩ := ih first
    exact ⟨_, run.step hs, List.forall_mem_append.mpr ⟨all, last⟩⟩

/-- The machine whose steps are the runs, of any length, of one of the programs `act i` to its end. -/
def ofPrograms {ι : Type} (init : σ → Prop) (boot : Prog σ ε ω Unit) (act : ι → Prog σ ε ω Unit) : Machine σ ε where
  start s h := ∃ s₀ n, init s₀ ∧ boot n s₀ = .ok () s h
  step s s' t := ∃ i n, act i n s = .ok () s' t ∨ act i n s = .away s' t

variable {ι : Type} {init : σ → Prop} {boot : Prog σ ε ω Unit} {act : ι → Prog σ ε ω Unit}

/-- An invariant of a machine of programs: established by the boot, and kept by every program. -/
theorem Reach.ofPrograms {V : ε → Prop} {s : σ} (hr : (ofPrograms init boot act).Reach G s)
    (hboot : ∀ n s₀, init s₀ → wp G n boot (fun _ => I) Exits.stops s₀) (hact : ∀ i n, Keeps G n ⟨I, V⟩ I (act i)) :
      I s := by
  refine hr.induct ?_ ?_
  · rintro s h ⟨s₀, n, hs, run⟩ good
    have := hboot n s₀ hs
    rw [wp, run] at this
    exact this.2 good
  · rintro s s' t ⟨i, n, run | run⟩ good hI
    · have := hact i n s hI
      rw [wp, run] at this
      exact this.2 good
    · have := hact i n s hI
      rw [wp, run] at this
      exact this.2 good

/-- What every program keeps holds from a state on. -/
theorem Later.ofPrograms {s s' : σ} (later : (ofPrograms init boot act).Later s s') (hs : I s)
    (hact : ∀ i n, Keeps (fun _ => True) n I I (act i)) : I s' := by
  induction later with
  | here => exact hs
  | @step s' u t _ run ih =>
    obtain ⟨i, n, run | run⟩ := run
    · have kept := hact i n s' ih
      rw [wp, run] at kept
      exact kept.2 fun _ _ => trivial
    · have kept := hact i n s' ih
      rw [wp, run] at kept
      exact kept.2 fun _ _ => trivial

/-- What every program keeps while its events satisfy `G` holds from a state on, as long as they do. -/
theorem Ahead.ofPrograms {V : ε → Prop} {s s' : σ} {h : List ε} (ahead : (ofPrograms init boot act).Ahead s s' h)
    (good : ∀ e ∈ h, G e) (hs : I s) (hact : ∀ i n, Keeps G n ⟨I, V⟩ I (act i)) : I s' := by
  induction ahead with
  | here => exact hs
  | @step s' u h t _ run ih =>
    obtain ⟨first, last⟩ := List.forall_mem_append.mp good
    obtain ⟨i, n, run | run⟩ := run
    · have kept := hact i n s' (ih first)
      rw [wp, run] at kept
      exact kept.2 last
    · have kept := hact i n s' (ih first)
      rw [wp, run] at kept
      exact kept.2 last

/-! ### Runs that are computed -/

/-- The state after the programs of a list, one after the other, and what they emitted. -/
def goOn (act : ι → Prog σ ε ω Unit) (n : Nat) : List ι → σ → Option (σ × List ε)
  | [], s => some (s, [])
  | i :: rest, s =>
    match act i n s with
    | .ok _ s' t | .away s' t => (goOn act n rest s').map fun (u, t') => (u, t ++ t')
    | _ => none

/-- The state after the boot and the programs of a list, and what was emitted. -/
def play (boot : Prog σ ε ω Unit) (act : ι → Prog σ ε ω Unit) (n : Nat) (is : List ι) (s₀ : σ) :
    Option (σ × List ε) :=
  match boot n s₀ with
  | .ok _ s h => (goOn act n is s).map fun (u, t) => (u, h ++ t)
  | _ => none

theorem Run.goOn {n : Nat} : ∀ {is : List ι} {s u : σ} {h t : List ε}, (ofPrograms init boot act).Run s h →
    Machine.goOn act n is s = some (u, t) → (ofPrograms init boot act).Run u (h ++ t)
  | [], s, u, h, t, run, hgo => by
    cases hgo
    rwa [List.append_nil]
  | i :: rest, s, u, h, t, run, hgo => by
    have next : ∀ s' t₁, (act i n s = .ok () s' t₁ ∨ act i n s = .away s' t₁) →
        ((Machine.goOn act n rest s').map fun (u, t') => (u, t₁ ++ t')) = some (u, t) →
        (ofPrograms init boot act).Run u (h ++ t) := by
      intro s' t₁ did hmap
      obtain ⟨⟨u', t'⟩, hrest, heq⟩ := Option.map_eq_some_iff.mp hmap
      cases heq
      rw [← List.append_assoc]
      exact Run.goOn (.step run ⟨i, n, did⟩) hrest
    rw [Machine.goOn] at hgo
    split at hgo
    · exact next _ _ (Or.inl ‹_›) hgo
    · exact next _ _ (Or.inr ‹_›) hgo
    · cases hgo

/-- A state with a property that a run is computed to reach, with events of which a test says that they are good. -/
theorem reach_of_play {n : Nat} {is : List ι} {s₀ : σ} {c : σ → Bool} {g : ε → Bool} (hs : init s₀)
    (hp : (play boot act n is s₀).any (fun (s, t) => c s && t.all g) = true) (hg : ∀ e, g e = true → G e) :
    ∃ s, (ofPrograms init boot act).Reach G s ∧ c s = true := by
  cases played : play boot act n is s₀ with
  | none =>
    rw [played] at hp
    cases hp
  | some r =>
    obtain ⟨s, t⟩ := r
    rw [played] at hp
    simp only [Option.any_some, Bool.and_eq_true, List.all_eq_true] at hp
    refine ⟨s, ⟨t, ?_, fun e he => hg e (hp.2 e he)⟩, hp.1⟩
    unfold play at played
    split at played
    · obtain ⟨⟨u, t'⟩, hgo, heq⟩ := Option.map_eq_some_iff.mp played
      cases heq
      exact Run.goOn (.start ⟨s₀, n, hs, ‹_›⟩) hgo
    · cases played

theorem Ahead.goOn {n : Nat} {is : List ι} {s u v : σ} {h t : List ε}
    (ahead : (Machine.ofPrograms init boot act).Ahead v s h)
    (hgo : Machine.goOn act n is s = some (u, t)) : (Machine.ofPrograms init boot act).Ahead v u (h ++ t) := by
  induction is generalizing s h t with
  | nil =>
    cases hgo
    rwa [List.append_nil]
  | cons i rest ih =>
    have next : ∀ s' t₁, (act i n s = .ok () s' t₁ ∨ act i n s = .away s' t₁) →
        ((Machine.goOn act n rest s').map fun (u, t') => (u, t₁ ++ t')) = some (u, t) →
        (Machine.ofPrograms init boot act).Ahead v u (h ++ t) := by
      intro s' t₁ did hmap
      obtain ⟨⟨u', t'⟩, hrest, heq⟩ := Option.map_eq_some_iff.mp hmap
      cases heq
      rw [← List.append_assoc]
      exact ih (.step ahead ⟨i, n, did⟩) hrest
    rw [Machine.goOn] at hgo
    split at hgo
    · exact next _ _ (Or.inl ‹_›) hgo
    · exact next _ _ (Or.inr ‹_›) hgo
    · cases hgo

/-- A state that a run is computed to reach, and one that it is computed to go on to. -/
theorem ahead_of_play {n : Nat} {is js : List ι} {s₀ : σ} {c : σ → List ε → σ → Bool} (hs : init s₀)
    (hp : (play boot act n is s₀).any (fun (s, _) => (goOn act n js s).any fun (t, h) => c s h t) = true) :
    ∃ s t h, (ofPrograms init boot act).Reach (fun _ => True) s ∧ (ofPrograms init boot act).Ahead s t h ∧
      c s h t = true := by
  have any : ∀ l : List ε, (l.all fun _ => true) = true := fun l => List.all_eq_true.mpr fun _ _ => rfl
  have first : ∃ s, (ofPrograms init boot act).Reach (fun _ => True) s ∧
    ((goOn act n js s).any fun (t, h) => c s h t) = true :=
    reach_of_play (g := fun _ => true) hs (by simpa [any] using hp) fun _ _ => trivial
  obtain ⟨s, reached, goes⟩ := first
  cases went : goOn act n js s with
  | none =>
    rw [went] at goes
    cases goes
  | some r =>
    obtain ⟨t, h⟩ := r
    rw [went] at goes
    exact ⟨s, t, h, reached, Ahead.goOn .here went, goes⟩

end Machine
end Exec
