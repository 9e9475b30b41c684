import Mathlib.Data.List.Basic

/-! # Records that are handed out once

A tray takes in records under distinct tags until it is closed. One of them may be taken by its tag as it closes; the
others go out in the order in which they came in. -/

namespace Handout

/-- What has a tag and says whether it was taken by it. -/
class Record (ρ : Type) (κ : outParam Type) where
  tag : ρ → κ
  taken : ρ → Bool
  take : ρ → ρ
  tag_take : ∀ r, tag (take r) = tag r
  taken_take : ∀ r, taken (take r) = true
  take_take : ∀ r, take (take r) = take r

export Record (tag taken take tag_take taken_take take_take)

attribute [simp] tag_take taken_take take_take

/-- How a record goes out: by its tag, or in its turn. -/
inductive Door where
  | tag | turn
  deriving DecidableEq

/-- The records, how many turns have passed, and what went out how, the last first. -/
@[ext] structure Tray (ρ : Type) where
  items : List ρ
  next : Nat
  log : List (Nat × Door)
  closed : Bool

/-- A record goes out no second time in its turn, turns go upwards, and one record is taken by its tag. -/
def Orderly (new old : Nat × Door) : Prop :=
  (new.1 = old.1 → new.2 = .tag) ∧ (new.2 = .turn → old.2 = .turn → old.1 < new.1) ∧ (new.2 = .tag → old.2 = .turn)

variable {ρ κ : Type} [Record ρ κ]

namespace Tray

/-- Nothing came in yet. -/
def empty (c : Bool) : Tray ρ := ⟨[], 0, [], c⟩

/-- Where the next turn is: behind the records that were taken. -/
def cursor (t : Tray ρ) : Nat := t.next + ((t.items.drop t.next).takeWhile taken).length

/-- What can be done with a tray. -/
inductive Step : Tray ρ → Tray ρ → Prop where
  | put (t : Tray ρ) (r : ρ) : t.closed = false → taken r = false → (∀ r' ∈ t.items, tag r' ≠ tag r) →
      Step t { t with items := t.items ++ [r] }
  | close (t : Tray ρ) : t.closed = false → Step t { t with closed := true }
  | take (t : Tray ρ) (i : Nat) (r : ρ) : t.closed = false → t.items[i]? = some r → taken r = false →
      Step t { t with items := t.items.modify i Record.take, log := (i, .tag) :: t.log, closed := true }
  | pass (t : Tray ρ) : Step t { t with next := t.cursor }
  | turn (t : Tray ρ) (r : ρ) : t.items[t.next]? = some r → taken r = false →
      Step t { t with next := t.next + 1, log := (t.next, .turn) :: t.log }

/-- What went out is what the records and the turns say. -/
structure Fair (t : Tray ρ) : Prop where
  tags : (t.items.map tag).Nodup
  inside : t.next ≤ t.items.length
  there : ∀ i d, (i, d) ∈ t.log → i < t.items.length
  taken : ∀ i r, t.items[i]? = some r → (taken r = true ↔ (i, .tag) ∈ t.log)
  behind : ∀ i, (i, .turn) ∈ t.log → i < t.next
  passed : ∀ i < t.next, ∃ d, (i, d) ∈ t.log
  orderly : t.log.Pairwise Orderly
  opened : t.closed = false → ∀ e ∈ t.log, e.2 = .turn

/-- What is left of `t` in a tray that it became: the records, but for what was taken since, what went out, and the
    turns; and once it is closed no record comes. -/
structure Follows (t u : Tray ρ) : Prop where
  items : t.items.map Record.take <+: u.items.map Record.take
  log : t.log <:+ u.log
  next : t.next ≤ u.next
  closed : t.closed = true → u.closed = true ∧ u.items.map Record.take = t.items.map Record.take

/-- No record went out before the tray was closed by taking one. -/
def Late (t : Tray ρ) : Prop := t.log.Pairwise fun new old => new.2 = .tag → old.2 ≠ .turn

/-- No record is left for a turn. -/
def Drained (t : Tray ρ) : Prop := ∀ i r, t.next ≤ i → t.items[i]? = some r → Record.taken r = true

/-! ### Turns -/

section
variable {t u v : Tray ρ} {i : Nat} {r : ρ}

theorem getElem?_takeWhile {p : ρ → Bool} : ∀ {l : List ρ} {i : Nat} {r : ρ}, i < (l.takeWhile p).length →
    l[i]? = some r → p r = true
  | [], _, _, _, found => by cases found
  | a :: l, i, r, inside, found => by
    rw [List.takeWhile_cons] at inside
    split at inside
    · rename_i pass
      cases i with
      | zero =>
        cases found
        exact pass
      | succ i => exact getElem?_takeWhile (l := l) (i := i) (Nat.lt_of_succ_lt_succ inside) found
    · exact absurd inside (Nat.not_lt_zero i)

theorem le_cursor : t.next ≤ t.cursor := Nat.le_add_right _ _

/-- What the cursor passes was taken. -/
theorem taken_of_lt_cursor (low : t.next ≤ i) (high : i < t.cursor) (found : t.items[i]? = some r) :
    Record.taken r = true := by
  refine getElem?_takeWhile (l := t.items.drop t.next) (i := i - t.next) ?_ ?_
  · rw [cursor] at high
    omega
  · rw [List.getElem?_drop, Nat.add_sub_cancel' low]
    exact found

/-- Where the cursor stops nothing was taken. -/
theorem untaken_at_cursor (found : t.items[t.cursor]? = some r) : Record.taken r = false := by
  have stop : ∀ (l : List ρ) (r : ρ), l[(l.takeWhile Record.taken).length]? = some r → Record.taken r = false := by
    intro l
    induction l with
    | nil => exact fun _ h => by cases h
    | cons a l ih =>
      intro r h
      rw [List.takeWhile_cons] at h
      split at h
      · exact ih r h
      · rename_i stays
        cases h
        simpa using stays
  refine stop (t.items.drop t.next) r ?_
  rw [List.getElem?_drop]
  exact found

theorem cursor_le (h : t.next ≤ t.items.length) : t.cursor ≤ t.items.length := by
  have := (List.takeWhile_prefix (l := t.items.drop t.next) Record.taken).length_le
  rw [List.length_drop] at this
  rw [cursor]
  omega

theorem drained_of_cursor (h : t.items[t.cursor]? = none) : t.Drained := by
  intro i r low found
  refine taken_of_lt_cursor low ?_ found
  have := (List.getElem?_eq_some_iff.mp found).1
  have := List.getElem?_eq_none_iff.mp h
  omega

theorem Drained.cursor (h : t.Drained) : t.items[t.cursor]? = none := by
  cases found : t.items[t.cursor]? with
  | none => rfl
  | some r =>
    have taken := h t.cursor r le_cursor found
    rw [untaken_at_cursor found] at taken
    cases taken

/-! ### Steps -/

theorem Fair.empty {c : Bool} : Fair (Tray.empty c : Tray ρ) where
  tags := .nil
  inside := Nat.le_refl 0
  there _ _ h := by cases h
  taken _ _ h := by cases h
  behind _ h := by cases h
  passed _ h := absurd h (Nat.not_lt_zero _)
  orderly := .nil
  opened _ _ h := by cases h

/-- A record comes in, also where the tray is closed. -/
theorem Fair.put (h : t.Fair) (untaken : Record.taken r = false) (fresh : ∀ r' ∈ t.items, tag r' ≠ tag r) :
    Fair { t with items := t.items ++ [r] } where
  tags := by
    simp only [List.map_append, List.map_cons, List.map_nil, List.nodup_append, List.mem_map, List.mem_singleton]
    refine ⟨h.tags, by simp, ?_⟩
    rintro _ ⟨r', old, rfl⟩ _ rfl
    exact fresh r' old
  inside := by
    have := h.inside
    simp only [List.length_append, List.length_singleton]
    omega
  there i d out := by
    have := h.there i d out
    simp only [List.length_append, List.length_singleton]
    omega
  taken i r' found := by
    rcases Nat.lt_trichotomy i t.items.length with old | rfl | beyond
    · rw [List.getElem?_append_left old] at found
      exact h.taken i r' found
    · have last : r = r' := by simpa using found
      subst last
      refine iff_of_false (by simp [untaken]) fun out => ?_
      exact Nat.lt_irrefl _ (h.there _ _ out)
    · rw [List.getElem?_eq_none (by simp only [List.length_append, List.length_singleton]; omega)] at found
      cases found
  behind := h.behind
  passed := h.passed
  orderly := h.orderly
  opened := h.opened

theorem Fair.close (h : t.Fair) : Fair { t with closed := true } where
  tags := h.tags
  inside := h.inside
  there := h.there
  taken := h.taken
  behind := h.behind
  passed := h.passed
  orderly := h.orderly
  opened never := by cases never

theorem map_modify {σ : Type} {f : ρ → σ} {g : ρ → ρ} (same : ∀ r, f (g r) = f r) (l : List ρ) (i : Nat) :
    (l.modify i g).map f = l.map f := by
  refine List.ext_getElem? fun j => ?_
  rw [List.getElem?_map, List.getElem?_map, List.getElem?_modify]
  cases l[j]? with
  | none => simp
  | some r =>
    by_cases own : i = j <;> simp [own, same]

/-- A record is taken by its tag, and the tray closes. -/
theorem Fair.take (h : t.Fair) (isOpen : t.closed = false) (found : t.items[i]? = some r) :
    Fair { t with items := t.items.modify i Record.take, log := (i, .tag) :: t.log, closed := true } where
  tags := by
    rw [map_modify tag_take]
    exact h.tags
  inside := by
    rw [List.length_modify]
    exact h.inside
  there j d out := by
    rw [List.length_modify]
    rcases List.mem_cons.mp out with now | before
    · cases now
      exact (List.getElem?_eq_some_iff.mp found).1
    · exact h.there j d before
  taken j r' at' := by
    rw [List.getElem?_modify] at at'
    by_cases own : i = j
    · subst own
      rw [found] at at'
      have taken : Record.take r = r' := by simpa using at'
      subst taken
      simp
    · have other : (j, Door.tag) ≠ (i, Door.tag) := fun same => own (Prod.mk.inj same).1.symm
      rw [List.mem_cons, or_iff_right other]
      exact h.taken j r' (by simpa [own] using at')
  behind j out := by
    rcases List.mem_cons.mp out with now | before
    · cases now
    · exact h.behind j before
  passed j low := by
    obtain ⟨d, out⟩ := h.passed j low
    exact ⟨d, List.mem_cons_of_mem _ out⟩
  orderly := by
    refine List.pairwise_cons.mpr ⟨fun e before => ?_, h.orderly⟩
    exact ⟨fun _ => rfl, fun turn => (by cases turn), fun _ => h.opened isOpen e before⟩
  opened never := by cases never

/-- The cursor moves behind what was taken. -/
theorem Fair.pass (h : t.Fair) : Fair { t with next := t.cursor } where
  tags := h.tags
  inside := cursor_le h.inside
  there := h.there
  taken := h.taken
  behind i out := Nat.lt_of_lt_of_le (h.behind i out) le_cursor
  passed i low := by
    by_cases before : i < t.next
    · exact h.passed i before
    · have inside := Nat.lt_of_lt_of_le low (cursor_le h.inside)
      have found := List.getElem?_eq_getElem inside
      exact ⟨.tag, (h.taken i _ found).mp (taken_of_lt_cursor (Nat.le_of_not_lt before) low found)⟩
  orderly := h.orderly
  opened := h.opened

/-- A record goes out in its turn. -/
theorem Fair.turn (h : t.Fair) (found : t.items[t.next]? = some r) (untaken : Record.taken r = false) :
    Fair { t with next := t.next + 1, log := (t.next, .turn) :: t.log } where
  tags := h.tags
  inside := (List.getElem?_eq_some_iff.mp found).1
  there i d out := by
    rcases List.mem_cons.mp out with now | before
    · cases now
      exact (List.getElem?_eq_some_iff.mp found).1
    · exact h.there i d before
  taken i r' at' := by
    rw [List.mem_cons, or_iff_right (by simp)]
    exact h.taken i r' at'
  behind i out := by
    rcases List.mem_cons.mp out with now | before
    · cases now
      exact Nat.lt_succ_self _
    · exact Nat.lt_succ_of_lt (h.behind i before)
  passed i low := by
    rcases Nat.lt_succ_iff_lt_or_eq.mp low with before | rfl
    · obtain ⟨d, out⟩ := h.passed i before
      exact ⟨d, List.mem_cons_of_mem _ out⟩
    · exact ⟨.turn, List.mem_cons_self⟩
  orderly := by
    refine List.pairwise_cons.mpr
      ⟨fun e before => ⟨fun same => ?_, fun _ turn => ?_, fun never => by cases never⟩, h.orderly⟩
    -- It went out before in no way: not by its tag, for it is not taken, and not in its turn, which comes now.
    · obtain ⟨i, d⟩ := e
      cases same
      cases d with
      | tag => rw [(h.taken _ _ found).mpr before] at untaken; cases untaken
      | turn => exact absurd (h.behind _ before) (Nat.lt_irrefl _)
    · obtain ⟨i, d⟩ := e
      cases turn
      exact h.behind i before
  opened still e out := by
    rcases List.mem_cons.mp out with now | before
    · cases now
      rfl
    · exact h.opened still e before

theorem Step.fair (s : t.Step u) (h : t.Fair) : u.Fair := by
  cases s with
  | put r _ untaken fresh => exact h.put untaken fresh
  | close => exact h.close
  | take i r isOpen found => exact h.take isOpen found
  | pass => exact h.pass
  | turn r found untaken => exact h.turn found untaken

theorem Fair.once (h : t.Fair) (late : t.Late) : (t.log.map Prod.fst).Nodup := by
  refine List.pairwise_map.mpr ((h.orderly.and late).imp fun both same => ?_)
  obtain ⟨⟨again, -, first⟩, late⟩ := both
  exact late (again same) (first (again same))

/-! ### What stays -/

theorem Follows.refl (t : Tray ρ) :
    t.Follows t := ⟨List.prefix_refl _, List.suffix_refl _, Nat.le_refl _, fun c => ⟨c, rfl⟩⟩

theorem Follows.trans (h : t.Follows u) (h' : u.Follows v) : t.Follows v where
  items := h.items.trans h'.items
  log := h.log.trans h'.log
  next := Nat.le_trans h.next h'.next
  closed c := by
    obtain ⟨still, same⟩ := h.closed c
    obtain ⟨still', same'⟩ := h'.closed still
    exact ⟨still', same'.trans same⟩

theorem Step.follows (s : t.Step u) : t.Follows u := by
  cases s with
  | put r isOpen =>
    refine ⟨?_, List.suffix_refl _, Nat.le_refl _, fun c => ?_⟩
    · rw [List.map_append]
      exact List.prefix_append _ _
    · rw [isOpen] at c
      cases c
  | close => exact ⟨List.prefix_refl _, List.suffix_refl _, Nat.le_refl _, fun _ => ⟨rfl, rfl⟩⟩
  | take i r isOpen =>
    have same : (t.items.modify i Record.take).map Record.take = t.items.map Record.take :=
      map_modify take_take t.items i
    exact ⟨⟨[], by rw [List.append_nil, same]⟩, List.suffix_cons _ _, Nat.le_refl _, fun _ => ⟨rfl, same⟩⟩
  | pass => exact ⟨List.prefix_refl _, List.suffix_refl _, le_cursor, fun c => ⟨c, rfl⟩⟩
  | turn r => exact ⟨List.prefix_refl _, List.suffix_cons _ _, Nat.le_succ _, fun c => ⟨c, rfl⟩⟩

/-- Once a closed tray is drained it stays so. -/
theorem Follows.drained (h : t.Follows u) (before : t.Fair) (after : u.Fair) (c : t.closed = true) (d : t.Drained) :
    u.Drained := by
  intro i r low found
  obtain ⟨-, same⟩ := h.closed c
  have there : (t.items.map Record.take)[i]? = some (Record.take r) := by
    rw [← same, List.getElem?_map, found]
    rfl
  rw [List.getElem?_map] at there
  obtain ⟨r', found', -⟩ := Option.map_eq_some_iff.mp there
  have taken := d i r' (Nat.le_trans h.next low) found'
  exact (after.taken i r found).mpr (h.log.subset ((before.taken i r' found').mp taken))

end
end Tray
end Handout
