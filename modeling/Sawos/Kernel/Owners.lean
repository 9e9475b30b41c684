import Sawos.Kernel.Grounded

/-! # Threads and their processes

Every thread belongs to a process that has started or may start, a process that is gone may own nothing more, and
the root process is there. -/

namespace Sawos
open Exec

variable [Hal]

/-- A slot that holds a process which is not dead. -/
def ProcessSlot.Lives (slot : ProcessSlot) : Prop := slot.state ≠ .free ∧ slot.state ≠ .gone

/-- Threads belong to processes that are not dead, except for the process `E` that is being dismantled; free thread
    slots read as the root's, and dead processes have no quota left. -/
structure Owned (E : Option Nat) (s : K) : Prop where
  alive : ∀ t < s.threads.cap, some (s.threads.slot t).process ≠ E →
    (s.processes.slot (s.threads.slot t).process).Lives
  idle : ∀ t < s.threads.cap, (s.threads.slot t).state = .free → (s.threads.slot t).process = rootProcess
  limits : ∀ p, some p ≠ E → ¬(s.processes.slot p).Lives → ∀ k, (s.processes.slot p).quotaLimit k = 0
  root : some rootProcess ≠ E → (s.processes.slot rootProcess).Lives
  beyond : ∀ p, s.processes.cap ≤ p → (s.processes.slot p).state = .free

/-- No thread belongs to `p`. -/
def Unthreaded (p : Nat) (s : K) : Prop := ∀ t < s.threads.cap, (s.threads.slot t).process ≠ p

def ownerParts : List Part := [.process .state, .process .limits, .thread .process, .machine .slabs]

section
variable {G : Ev → Prop} {n : Nat} {A : K → Prop} {E : Option Nat} {s t : K} {p : Nat}

theorem agree_owners (h : Agree ownerParts s t) :
    s.threads.cap = t.threads.cap ∧ s.processes.cap = t.processes.cap ∧
      (∀ i, (s.threads.slot i).process = (t.threads.slot i).process ∧
        ((t.threads.slot i).state = .free → (s.threads.slot i).state = .free)) ∧
      (∀ i, (s.processes.slot i).state = (t.processes.slot i).state ∧
        (s.processes.slot i).quotaLimit = (t.processes.slot i).quotaLimit) := by
  have shape : s.shape = t.shape := h (.machine .slabs) (by decide)
  simp only [K.shape, List.cons.injEq, Prod.mk.injEq] at shape
  exact ⟨shape.2.1.1, shape.1.1, h (.thread .process) (by decide),
    fun i => ⟨h (.process .state) (by decide) i, h (.process .limits) (by decide) i⟩⟩

theorem Owned.agree (h : Agree ownerParts s t) (hs : Owned E s) : Owned E t := by
  obtain ⟨capT, capP, threads, slots⟩ := agree_owners h
  have lives : ∀ i, (s.processes.slot i).Lives ↔ (t.processes.slot i).Lives := fun i => by
    simp only [ProcessSlot.Lives, (slots i).1]
  refine ⟨fun i hi hE => ?_, fun i hi free => ?_, fun i hE dead k => ?_, fun hE => (lives _).mp (hs.root hE),
    fun i hi => (slots i).1 ▸ hs.beyond i (by omega)⟩
  · rw [← (threads i).1] at hE ⊢
    exact (lives _).mp (hs.alive i (by omega) hE)
  · rw [← (threads i).1]
    exact hs.idle i (by omega) ((threads i).2 free)
  · rw [← (slots i).2]
    exact hs.limits i hE (fun live => dead ((lives i).mp live)) k

theorem Unthreaded.agree (h : Agree ownerParts s t) (hs : Unthreaded p s) : Unthreaded p t := by
  obtain ⟨capT, -, threads, -⟩ := agree_owners h
  exact fun i hi => (threads i).1 ▸ hs i (by omega)

theorem Owned.spares {α : Type} {m : M α} (hm : Spares ownerParts m) : Keeps G n A (Owned E) m :=
  hm.keeps fun _ _ h hs => hs.agree h

/-- A process slot changes as it may while the process lives, or for the process that is excepted. -/
theorem Owned.setProcess {F : Option Nat} (hs : Owned E s) {v : ProcessSlot} (hp : p < s.processes.cap)
    (hE : ∀ q, q ≠ p → some q ≠ F → some q ≠ E)
    (lives : some p ≠ F → v.Lives ∨ ((∀ t < s.threads.cap, (s.threads.slot t).process ≠ p) ∧ p ≠ rootProcess ∧
      ∀ k, v.quotaLimit k = 0)) :
    Owned F { s with processes := s.processes.set p v } := by
  refine ⟨fun t ht hF => ?_, hs.idle, fun q hq dead k => ?_, fun hF => ?_, fun q hq => ?_⟩
  · by_cases hq : (s.threads.slot t).process = p
    · have own := lives (hq ▸ hF)
      simp only [Slab.set_slot, hq, if_true]
      exact own.resolve_right fun h => h.1 t ht hq
    · simp only [Slab.set_slot, hq, if_false]
      exact hs.alive t ht (hE _ hq hF)
  · by_cases hqp : q = p
    · subst hqp
      simp only [Slab.set_slot, if_true] at dead ⊢
      exact ((lives hq).resolve_left dead).2.2 k
    · simp only [Slab.set_slot, hqp, if_false] at dead ⊢
      exact hs.limits q (hE q hqp hq) dead k
  · by_cases hr : rootProcess = p
    · simp only [Slab.set_slot, hr, if_true]
      exact (lives (hr ▸ hF)).resolve_right fun h => h.2.1 hr.symm
    · simp only [Slab.set_slot, hr, if_false]
      exact hs.root (hE _ hr hF)
  · have hqp : q ≠ p := by
      rintro rfl
      exact absurd hp (Nat.not_lt.mpr hq)
    simp only [Slab.set_slot, hqp, if_false]
    exact hs.beyond q hq

/-- A gone process whose slot is reclaimed is as dead as before. -/
theorem Owned.reclaim : Keeps G n A (Owned E) (reclaimProcessSlot p) := by
  intro s hs
  refine wp_modifyProcess.mpr fun hp => ?_
  by_cases gone : (s.processes.slot p).state = .gone ∧ (s.processes.slot p).refs = 0
  · rw [if_pos gone]
    have dead : ¬(s.processes.slot p).Lives := fun h => h.2 gone.1
    by_cases hE : some p = E
    · exact hs.setProcess hp (fun _ _ => id) fun h => absurd hE h
    · refine hs.setProcess hp (fun _ _ => id) fun _ => Or.inr ⟨fun t ht h => ?_, ?_, hs.limits p hE dead⟩
      · exact dead (h ▸ hs.alive t ht (h ▸ hE))
      · rintro rfl
        exact dead (hs.root hE)
  · rw [if_neg gone]
    have same : { s with processes := s.processes.set p (s.processes.slot p) } = s := by
      cases s
      simp only [Slab.set, K.mk.injEq, and_true]
      congr
      funext j
      split <;> simp [*]
    rw [same]
    exact hs

theorem Owned.bedrock : Bedrock G n A (Owned E) where
  quiet _ _ := trivial
  about _ _ h hs := hs.agree (h.mono (by decide))
  release _ := Owned.spares (by simp +decide)
  unmapped _ := Owned.spares (spares_mappings (by simp +decide))
  reclaim _ := Owned.reclaim

theorem Unthreaded.reclaim {q : Nat} : Keeps G n A (Unthreaded p) (reclaimProcessSlot q) :=
  fun _ hs => wp_modifyProcess.mpr fun _ => hs

/-! ### The end of a process -/

theorem Owned.enter {k : ProcessStatusKind} {c : Nat} :
    Leads G n A (Owned none) (Owned (some p))
      (processes.modify p ({ · with state := .gone, exitKind := k, exitCode := c })) :=
  fun _ hs => wp_modifyProcess.mpr fun h => hs.setProcess h (fun _ _ _ => by simp) fun h => absurd rfl h

theorem Owned.sweepThreads (hp : p ≠ rootProcess) :
    Leads G n A (Owned (some p)) (fun s => Owned (some p) s ∧ Unthreaded p s)
      (sweep threads (fun t => t.process = p && t.state ≠ .free) (fun _ => pure ()) .vacant) := by
  intro s hs
  refine wp_bind.mpr (wp_capacity.mpr ?_)
  let done (i : Nat) (t : K) : Prop := (Owned (some p) t ∧ t.threads.cap = s.threads.cap) ∧
    ∀ j < i, j < s.threads.cap → (t.threads.slot j).process ≠ p
  refine (wp_countUp (I := done) ⟨⟨hs, rfl⟩, fun j hj => absurd hj (by omega)⟩ ?_).imp fun _ t ht => ?_
  · rintro i t - - ⟨⟨ht, cap⟩, below⟩
    refine wp_bind.mpr (wp_readThread.mpr fun hi => ?_)
    have upTo : (t.threads.slot i).process ≠ p →
        ∀ j < i + 1, j < s.threads.cap → (t.threads.slot j).process ≠ p := by
      intro hne j hj hc
      by_cases hji : j = i
      · exact hji ▸ hne
      · exact below j (by omega) hc
    refine wp_whenever.mpr ⟨fun owned => ?_, fun kept => ⟨⟨ht, cap⟩, upTo fun h => ?_⟩⟩
    · refine wp_bind.mpr
        (wp_pure.mpr (wp_modifyThread.mpr fun _ => ⟨⟨⟨?_, ?_, ht.limits, ht.root, ht.beyond⟩, cap⟩, ?_⟩))
      · intro j hj hE
        by_cases hji : j = i
        · simp only [Slab.set_slot, hji, if_true, ThreadSlot.vacant]
          exact ht.root (by simpa using hp.symm)
        · simp only [Slab.set_slot, hji, if_false] at hE ⊢
          exact ht.alive j hj hE
      · intro j hj free
        by_cases hji : j = i
        · simp [hji, ThreadSlot.vacant, rootProcess]
        · simp only [Slab.set_slot, hji, if_false] at free ⊢
          exact ht.idle j hj free
      · intro j hj hc
        by_cases hji : j = i
        · simpa [hji, ThreadSlot.vacant, rootProcess] using fun h => hp h.symm
        · simp only [Slab.set_slot, hji, if_false]
          exact below j (by omega) hc
    · have free : (t.threads.slot i).state = .free := by simpa [h] using kept
      exact hp (h ▸ ht.idle i hi free)
  · refine ⟨ht.1.1, fun j hj => ?_⟩
    rw [ht.1.2] at hj
    exact ht.2 j (show j < 0 + s.threads.cap by omega) hj

theorem Owned.quotaClear (hp : p ≠ rootProcess) :
    Leads G n A (fun s => Owned (some p) s ∧ Unthreaded p s) (Owned none) (quotaClear p) :=
  fun _ hs => wp_modifyProcess.mpr fun h =>
    hs.1.setProcess h (fun q hq _ => by simpa using hq) fun _ => Or.inr ⟨hs.2, hp, fun _ => rfl⟩

/-- What holds once the threads of `p` are gone. -/
def Childless (p : Nat) (s : K) : Prop := Owned (some p) s ∧ Unthreaded p s

theorem Childless.spares {α : Type} {m : M α} (hm : Spares ownerParts m) : Keeps G n A (Childless p) m :=
  hm.keeps fun _ _ h hs => ⟨hs.1.agree h, hs.2.agree h⟩

theorem Childless.bedrock : Bedrock G n A (Childless p) where
  quiet _ _ := trivial
  about _ _ h hs := ⟨hs.1.agree (h.mono (by decide)), hs.2.agree (h.mono (by decide))⟩
  release _ := Childless.spares (by simp +decide)
  unmapped _ := Childless.spares (spares_mappings (by simp +decide))
  reclaim _ s hs := (Keeps.and (A := A) (B := A) Owned.reclaim Unthreaded.reclaim s hs).mono (fun _ => id)
    (fun _ _ => id) (fun _ h => h.1) (fun _ => id) fun _ => id

theorem Owned.dismantles (hp : p ≠ rootProcess) :
    Dismantles G n A p (Owned none) (Owned none) (Owned (some p)) (Childless p) (Childless p) (Childless p)
      (Childless p) where
  enter _ _ := Owned.enter
  before := Owned.bedrock.ground
  threads := (Owned.spares (by simp +decide)).leads.bind fun _ => Owned.sweepThreads hp
  idle := (Childless.spares (spares_idle (by decide))).leads
  lines := Childless.bedrock.sweepLines
  after := Childless.bedrock.ground
  timers := Childless.bedrock.sweepTimers
  rows := (Childless.spares (by simp +decide)).leads
  record := (Childless.spares (by simp +decide)).leads
  boot := (Childless.spares (by simp +decide)).leads
  quota := Owned.quotaClear hp
  reclaim := Owned.reclaim

theorem Owned.upkeep : Steady G n (Owned none) :=
  .steady .any (fun _ _ h hs => hs.agree (h.mono (by decide))) Owned.bedrock.serviced
    (fun _ => Owned.spares (by simp +decide))
    fun _ _ _ hp => (Owned.dismantles hp).teardown trivial

/-! ### System calls -/

theorem Owned.fillProcess {slot img dst : Nat} {dest : LoadRegion} :
    Keeps G n A (Owned none) (fillProcess slot img dest dst) := by
  have g : Serviced G n A (Owned none) := Owned.bedrock.serviced
  have placed : Keeps G n A (Owned none) (placeImage slot img dest (some dst)) :=
    g.placeImage fun _ _ _ _ _ _ => Owned.spares (by simp +decide)
  intro s hs
  refine wp_bind.mpr ((placed s hs).imp fun _ s₁ hs₁ => wp_bind.mpr (wp_reads.mpr ?_))
  refine wp_bind.mpr (wp_modifyProcess.mpr fun hp => ?_)
  -- The slot is created before it gets its limits.
  refine Leads.bind (I := fun t => Owned none t ∧ (t.processes.slot slot).Lives)
    (J := fun t => Owned none t ∧ (t.processes.slot slot).Lives) ?_ (fun _ => ?_) _ ?_
  · refine Spares.keeps (S := ownerParts) (spares_statsClear (by decide)) fun s t h hs => ⟨hs.1.agree h, ?_⟩
    simpa [ProcessSlot.Lives, ((agree_owners h).2.2.2 slot).1] using hs.2
  · intro t ht
    refine wp_bind.mpr (wp_readProcess.mpr fun _ => wp_modifyProcess.mpr fun ht' => ?_)
    exact ht.1.setProcess ht' (fun _ _ => id) fun _ => Or.inl ht.2
  · exact ⟨hs₁.setProcess hp (fun _ _ => id) fun _ => Or.inl ⟨by simp, by simp⟩, by simp [ProcessSlot.Lives]⟩

theorem Owned.donated (d : Donated s t) (hs : Owned none s) : Owned none t := by
  have threadsCap := d.threads.cap
  have slot : ∀ q, t.processes.slot q = s.processes.slot q ∨
      (t.processes.slot q = .vacant ∧ (s.processes.slot q).state = .free) := by
    intro q
    rw [d.processes.slot]
    split
    · rename_i h
      exact Or.inr ⟨rfl, hs.beyond q h.1⟩
    · exact Or.inl rfl
  have lives : ∀ q, (s.processes.slot q).Lives → (t.processes.slot q).Lives := by
    intro q h
    rcases slot q with same | ⟨-, free⟩
    · rwa [same]
    · exact absurd free h.1
  refine ⟨fun i hi _ => ?_, fun i hi free => ?_, fun q _ dead k => ?_, fun _ => lives _ (hs.root (by simp)),
    fun q hq => ?_⟩
  · rw [d.threads.slot]
    split
    · exact lives _ (hs.root (by simp))
    · exact lives _ (hs.alive i (by omega) (by simp))
  · rw [d.threads.slot] at free ⊢
    split
    · rfl
    · rename_i old
      rw [if_neg old] at free
      exact hs.idle i (by omega) free
  · rcases slot q with same | ⟨vacant, -⟩
    · rw [same] at dead ⊢
      exact hs.limits q (by simp) dead k
    · rw [vacant]
      rfl
  · have := d.processes.cap
    rw [d.processes.slot, if_neg (by omega)]
    exact hs.beyond q (by omega)

/-- A thread slot goes to a process that lives. -/
theorem Owned.setThread (hs : Owned none s) {i : Nat} {v : ThreadSlot} (hv : v.state ≠ .free)
    (live : (s.processes.slot v.process).Lives) : Owned none { s with threads := s.threads.set i v } := by
  refine ⟨fun j hj _ => ?_, fun j hj free => ?_, hs.limits, hs.root, hs.beyond⟩
  · by_cases hji : j = i
    · simpa [hji] using live
    · simp only [Slab.set_slot, hji, if_false]
      exact hs.alive j hj (by simp)
  · by_cases hji : j = i
    · exact absurd free (by simp [hji, hv])
    · simp only [Slab.set_slot, hji, if_false] at free ⊢
      exact hs.idle j hj free

/-- A process with room for a thread lives. -/
theorem Owned.callerLives (hs : Owned none s) (calls : Calls p s) : (s.processes.slot p).Lives := by
  unfold Calls at calls
  split at calls
  · exact calls ▸ hs.root (by simp)
  · exact calls.2 ▸ hs.alive _ calls.1 (by simp)

theorem Owned.roomLives (hs : Owned none s) {k : QuotaKind}
    (room : (s.processes.slot p).quotaLimit k = quotaUnlimited ∨
      (s.processes.slot p).quotaUsed k < (s.processes.slot p).quotaLimit k) : (s.processes.slot p).Lives := by
  refine Classical.byContradiction fun dead => ?_
  have := hs.limits p (by simp) dead k
  rcases room with h | h
  · simp [this, quotaUnlimited] at h
  · omega

theorem Owned.threadCreate {e sp a : Nat} : Keeps G n (Owned none) (Owned none) (threadCreate p e sp a) := by
  have w : Steady G n (Owned none) := Owned.upkeep
  intro s hs
  refine wp_bind.mpr (wp_readProcess.mpr fun _ => wp_bind.mpr (w.wp_check mortal_any hs fun _ => ?_))
  refine wp_bind.mpr (wp_bind.mpr (wp_readProcess.mpr fun _ => wp_pure.mpr ?_))
  refine wp_ite.mpr ⟨fun room => ?_, fun _ => wp_pure.mpr hs⟩
  have live := hs.roomLives (p := p) (k := .thread) (by simpa using room)
  refine wp_bind.mpr (wp_spares (S := ownerParts) spares_allocThread fun found s₁ h₁ => ?_)
  cases found with
  | none => exact wp_pure.mpr (hs.agree h₁)
  | some i =>
    refine wp_bind.mpr (wp_spares (S := ownerParts) (spares_mintHandle (by decide) (by decide)) fun h s₂ h₂ => ?_)
    have same := h₁.trans h₂
    have hs₂ := hs.agree same
    refine wp_ite.mpr ⟨fun _ => ?_, fun _ => wp_bind.mpr (wp_bind.mpr ?_)⟩
    · exact wp_bind.mpr (wp_spares (S := ownerParts) spares_mintRefusal fun _ s₃ h₃ => wp_pure.mpr (hs₂.agree h₃))
    refine wp_spares (S := ownerParts) (spares_frameInit (by decide)) fun _ s₃ h₃ => ?_
    refine wp_bind.mpr (wp_modifyThread.mpr fun _ => ?_)
    have live₃ : (s₃.processes.slot p).Lives := by
      simpa [ProcessSlot.Lives, ((agree_owners (same.trans h₃)).2.2.2 p).1] using live
    refine wp_spares (S := ownerParts) (spares_quotaCharge (by decide) (by decide)) fun _ s₄ h₄ => wp_pure.mpr ?_
    exact ((hs₂.agree h₃).setThread (by simp) live₃).agree h₄

theorem Owned.start {c f tag : Nat} : Keeps G n (Owned none) (Owned none) (processStart p c f tag) := by
  have w : Steady G n (Owned none) := Owned.upkeep
  intro s hs
  unfold processStart
  split
  · exact w.faultProcess mortal_any s hs
  refine wp_bind.mpr (wp_readProcess.mpr fun _ => wp_bind.mpr (w.wp_check mortal_any hs fun state => ?_))
  have live : (s.processes.slot c).Lives := by
    simp only [ne_eq, decide_not, Bool.not_eq_false', decide_eq_true_eq] at state
    simp [ProcessSlot.Lives, state]
  refine wp_bind.mpr (wp_spares (S := ownerParts) spares_quotaRoom fun _ s₁ h₁ => ?_)
  refine wp_ite.mpr ⟨fun _ => ?_, fun _ => wp_pure.mpr (hs.agree h₁)⟩
  refine wp_bind.mpr (wp_spares (S := ownerParts) spares_allocThread fun found s₂ h₂ => ?_)
  cases found with
  | none => exact wp_pure.mpr (hs.agree (h₁.trans h₂))
  | some i =>
    refine wp_bind.mpr (wp_spares (S := ownerParts) ?_ fun word s₃ h₃ => ?_)
    · unfold bootWord
      split
      · exact spares_pure
      · exact .bind (spares_bootHandleTake (by decide)) fun _ => spares_pure
    have same₃ := (h₁.trans h₂).trans h₃
    cases word with
    | none => exact w.faultProcess mortal_any _ (hs.agree same₃)
    | some word =>
      refine wp_bind.mpr (wp_spares (S := ownerParts) (spares_frameInit (by decide)) fun _ s₄ h₄ => ?_)
      have same := same₃.trans h₄
      have live₄ : (s₄.processes.slot c).Lives := by
        simpa [ProcessSlot.Lives, ((agree_owners same).2.2.2 c).1] using live
      refine wp_bind.mpr (wp_modifyThread.mpr fun _ => ?_)
      have started := (hs.agree same).setThread (i := i)
        (v := { ThreadSlot.vacant with state := .runnable, process := c }) (by simp) live₄
      refine wp_bind.mpr (wp_spares (S := ownerParts) (spares_quotaCharge (by decide) (by decide)) fun _ s₅ h₅ => ?_)
      refine wp_bind.mpr (wp_spares (S := ownerParts) (spares_readyPush (by decide) (by decide)) fun _ s₆ h₆ => ?_)
      refine wp_bind.mpr (wp_modifyProcess.mpr fun hc => wp_pure.mpr ?_)
      exact (started.agree (h₅.trans h₆)).setProcess hc (fun _ _ => id) fun _ => Or.inl ⟨by simp, by simp⟩

theorem Owned.grounded : SteadyGrounded G n (Owned none) :=
  Owned.upkeep.grounded (fun _ _ h hs => hs.agree (h.mono (by decide)))
    (Owned.upkeep.devices fun _ _ h hs => hs.agree (h.mono (by decide))) (fun _ _ d hs => hs.donated d)
    (fun _ _ _ _ s hs => Owned.fillProcess s hs.1) (fun _ _ _ _ _ => Owned.start) fun _ _ _ _ s hs =>
      Owned.threadCreate s hs.1

theorem Owned.fresh (hs : s.Fresh) : Owned (some rootProcess) s := by
  have slot : ∀ p, s.processes.slot p = .vacant := fun p => by rw [hs.processes]; rfl
  have thread : ∀ i, s.threads.slot i = .vacant := fun i => by rw [hs.threads]; rfl
  refine ⟨fun i _ hE => absurd ?_ hE, fun i _ _ => ?_, fun q _ _ k => ?_, fun h => absurd rfl h, fun q _ => ?_⟩
  · rw [thread]
    rfl
  · rw [thread]
    rfl
  · rw [slot]
    rfl
  · rw [slot]
    rfl

/-- The boot makes the root process, and its thread. -/
theorem Owned.startProcess {e sp rb rt wb wt : Nat} :
    Leads G n A (Owned (some rootProcess)) (Owned none) (startProcess e sp rb rt wb wt) := by
  intro s hs
  refine wp_bind.mpr (wp_modifyProcess.mpr fun hp => ?_)
  have running := hs.setProcess (F := none) (v := { s.processes.slot rootProcess with
    state := .running, entry := e, stackTop := sp, regionBase := rb, regionTop := rt, rwBase := wb, rwTop := wt,
    exitKind := .running, exitCode := 0, refs := 0, imageRows := (s.processes.slot rootProcess).grantCount }) hp
    (fun q hq _ => by simpa using hq)
    fun _ => Or.inl ⟨by simp, by simp⟩
  refine wp_bind.mpr (wp_spares (S := ownerParts) (spares_statsClear (by decide)) fun _ s₁ h₁ => ?_)
  have hs₁ := running.agree h₁
  refine wp_bind.mpr (wp_readProcess.mpr fun _ => wp_bind.mpr (wp_modifyProcess.mpr fun hp₁ => ?_))
  have limited := hs₁.setProcess (F := none) (v := { s₁.processes.slot rootProcess with
    quotaUsed := fun _ => 0
    quotaLimit := fun kind =>
        if kind = .mapping then min (if true then maxMappings else defaultQuota .mapping)
          (Hal.grantRowBudget - (s₁.processes.slot rootProcess).grantCount)
        else if true then quotaUnlimited else defaultQuota kind }) hp₁ (fun _ _ => id)
    fun _ => Or.inl (hs₁.root (by simp))
  refine wp_bind.mpr (wp_spares (S := ownerParts) (spares_mintHandle (by decide) (by decide)) fun _ s₂ h₂ => ?_)
  refine wp_bind.mpr (wp_spares (S := ownerParts) (spares_mintHandle (by decide) (by decide)) fun _ s₃ h₃ => ?_)
  refine wp_bind.mpr (wp_spares (S := ownerParts) (spares_refObject (by decide)) fun _ s₄ h₄ => ?_)
  refine wp_bind.mpr (wp_spares (S := ownerParts) spares_allocThread fun found s₅ h₅ => ?_)
  have hs₅ := limited.agree (((h₂.trans h₃).trans h₄).trans h₅)
  cases found with
  | none => exact wp_halt.mpr trivial
  | some main =>
    refine wp_bind.mpr (wp_spares (S := ownerParts) (spares_mintHandle (by decide) (by decide)) fun _ s₆ h₆ => ?_)
    have hs₆ := hs₅.agree h₆
    refine wp_bind.mpr (wp_modifyThread.mpr fun _ => ?_)
    have threaded := hs₆.setThread (i := main)
      (v := { ThreadSlot.vacant with state := .running, process := rootProcess }) (by simp) (hs₆.root (by simp))
    exact wp_spares (S := ownerParts) (spares_enterMain (by decide)) fun _ _ h₇ => threaded.agree h₇

theorem Owned.boot : Leads G n A K.Fresh (Owned none) loadRootAndEnter := fun s hs =>
  boot_leads (I := Owned (some rootProcess)) (J := Owned (some rootProcess)) (L := Owned (some rootProcess))
    (fun _ => Owned.bedrock.serviced.placeImage fun _ _ _ _ _ _ => Owned.spares (by simp +decide))
    (Owned.spares (by simp +decide)).leads (fun _ _ _ _ _ _ => Owned.startProcess) s (Owned.fresh hs)

end

end Sawos
