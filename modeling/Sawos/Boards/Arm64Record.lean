import Mathlib.Tactic.ByContra
import Sawos.Boards.Arm64
import Sawos.Kernel.Process

/-! # The standing tables of a process slot, against its record -/

namespace Sawos.Arm64
open Exec

/-! ### Walks -/

/-- A walk that ends edited every page. -/
theorem walkPages_isSome {edit : Nat → Option (Nat × Nat × Nat)} {n : Nat} :
    ∀ {va : Nat} {u u' : Tables}, walkPages edit n va u = some u' →
      ∀ j < n, (edit (va + j * pageSize)).isSome = true := by
  induction n with
  | zero => exact fun _ j hj => absurd hj (by omega)
  | succ n ih =>
    intro va u u' h j hj
    rw [walkPages] at h
    cases he : edit va with
    | none => rw [he] at h; cases h
    | some e =>
      rw [he] at h
      cases j with
      | zero => simp [he]
      | succ j =>
        have := ih h j (by omega)
        rwa [show va + pageSize + j * pageSize = va + (j + 1) * pageSize by rw [Nat.succ_mul]; omega] at this

/-- What a walk writes that edits one table, each page at an index of its own. -/
theorem walkPages_desc {edit : Nat → Option (Nat × Nat × Nat)} {table : Nat} {index word : Nat → Nat}
    (hedit : ∀ va e, edit va = some e → e = (table, index va, word va)) {n : Nat} :
    ∀ {va : Nat} {u u' : Tables}, walkPages edit n va u = some u' →
      (∀ i j, i < j → j < n → index (va + i * pageSize) ≠ index (va + j * pageSize)) →
      (∀ j < n, u'.desc (table + index (va + j * pageSize) * descBytes) = word (va + j * pageSize)) ∧
      (∀ a, (∀ j < n, a ≠ table + index (va + j * pageSize) * descBytes) → u'.desc a = u.desc a) := by
  induction n with
  | zero =>
    intro va u u' h _
    cases h
    exact ⟨fun j hj => absurd hj (by omega), fun _ _ => rfl⟩
  | succ n ih =>
    intro va u u' h inj
    have shift : ∀ j, va + pageSize + j * pageSize = va + (j + 1) * pageSize := fun j => by
      rw [Nat.succ_mul]
      omega
    rw [walkPages] at h
    cases he : edit va with
    | none => rw [he] at h; cases h
    | some e =>
      rw [he, hedit va e he] at h
      obtain ⟨hw, hf⟩ := ih h fun i j hij hj => by
        rw [shift, shift]
        exact inj (i + 1) (j + 1) (by omega) (by omega)
      simp only [shift] at hw hf
      refine ⟨fun j hj => ?_, fun a ha => ?_⟩
      · cases j with
        | zero =>
          have apart : ∀ j < n, table + index (va + 0 * pageSize) * descBytes ≠
              table + index (va + (j + 1) * pageSize) * descBytes := fun j hj h => by
            have := inj 0 (j + 1) (by omega) (by omega)
            unfold descBytes at h
            omega
          rw [hf _ apart]
          simp [putDesc]
        | succ j => exact hw j (by omega)
      · rw [hf a fun j hj => ha (j + 1) (by omega)]
        have first := ha 0 (by omega)
        simp only [Nat.zero_mul, Nat.add_zero] at first
        simp [putDesc, first]

theorem resetTable_desc {table n : Nat} {u : Tables} {a : Nat} :
    (resetTable table n u).desc a = if ∃ i < n, a = table + i * descBytes then descAbsent else u.desc a := by
  induction n with
  | zero => simp [resetTable]
  | succ n ih =>
    simp only [resetTable, putDesc, ih]
    by_cases h : a = table + n * descBytes
    · rw [if_pos h, if_pos ⟨n, Nat.lt_succ_self n, h⟩]
    · have same : (∃ i < n + 1, a = table + i * descBytes) ↔ ∃ i < n, a = table + i * descBytes := by
        constructor
        · rintro ⟨i, hi, rfl⟩
          exact ⟨i, Nat.lt_of_le_of_ne (Nat.le_of_lt_succ hi) fun hin => h (hin ▸ rfl), rfl⟩
        · rintro ⟨i, hi, rfl⟩
          exact ⟨i, by omega, rfl⟩
      rw [if_neg h]
      simp only [same]

/-! ### Windows -/

/-- The two windows of a set: where the pages they grant begin, and how many there are. -/
def windowBase (device : Bool) : Nat := if device then deviceWindowBase else ramBase

def windowPages (device : Bool) : Nat := if device then ptEntries else grantPages

def windowOffset (device : Bool) : Nat := if device then deviceLevel3Offset else level3Offset

/-- Where the descriptor of page `i` of a window of slot `p` is. -/
def descAddr (p : Nat) (device : Bool) (i : Nat) : Nat := setBase p + windowOffset device + i * descBytes

def pageAddr (device : Bool) (i : Nat) : Nat := windowBase device + i * pageSize

theorem pageStart_eq (va : Nat) : pageStart va = va / 4096 * 4096 := by
  have low : va &&& (pageSize - 1) = va % 4096 := Nat.and_two_pow_sub_one_eq_mod va 12
  rw [pageStart, low]
  omega

theorem lt_pageCount {start top j : Nat} : j < pageCount start top ↔ start + j * 4096 < top := by
  simp only [pageCount, pageSize]
  omega

theorem windowBase_cases (device : Bool) : windowBase device = 4096 * if device then 0x9000 else 0x40000 := by
  cases device <;> decide

/-- Descriptors of different pages, windows or slots are at different addresses. -/
theorem descAddr_inj {p q i j : Nat} {d e : Bool} (hi : i < windowPages d) (hj : j < windowPages e)
    (h : descAddr p d i = descAddr q e j) : p = q ∧ d = e ∧ i = j := by
  cases d <;> cases e <;>
    simp only [descAddr, setBase, ptSetBytes, windowOffset, level3Offset, deviceLevel3Offset, descBytes, windowPages,
      grantPages, ptEntries, if_true, Bool.false_eq_true, if_false] at hi hj h
  · exact ⟨by omega, rfl, by omega⟩
  · omega
  · omega
  · exact ⟨by omega, rfl, by omega⟩

/-- The pages of a window that a range covers. -/
def inRange (device : Bool) (base top i : Nat) : Prop :=
  pageStart base ≤ pageAddr device i ∧ pageAddr device i < top

/-- The index of a page that is visited from the start of an address's page on. -/
theorem index_visited {d : Bool} {base j : Nat} (hb : windowBase d ≤ pageStart base) :
    (pageStart base + j * pageSize - windowBase d) >>> pageShift = (pageStart base - windowBase d) / 4096 + j := by
  rw [windowBase_cases, pageStart_eq] at *
  rw [pageShift, Nat.shiftRight_eq_div_pow, pageSize]
  omega

/-- The pages that are visited are those that the range covers. -/
theorem inRange_iff {d : Bool} {base top i : Nat} (hb : windowBase d ≤ pageStart base) :
    inRange d base top i ↔
      ∃ j < pageCount (pageStart base) top, (pageStart base - windowBase d) / 4096 + j = i := by
  simp only [inRange, pageAddr, lt_pageCount]
  rw [windowBase_cases, pageStart_eq] at *
  constructor
  · rintro ⟨h1, h2⟩
    simp only [pageSize] at h1 h2
    exact ⟨i - (base / 4096 * 4096 - 4096 * if d = true then 0x9000 else 0x40000) / 4096, by omega, by omega⟩
  · rintro ⟨j, hj, rfl⟩
    simp only [pageSize]
    omega

/-- A walk over a range, in one of the windows of a slot, writes the pages that the range covers. -/
theorem walk_range {edit : Nat → Option (Nat × Nat × Nat)} {w : Nat → Nat} {p : Nat} {d : Bool} {base top : Nat}
    {u u' : Tables} (h : walkPages edit (pageCount (pageStart base) top) (pageStart base) u = some u')
    (hedit : ∀ va e, edit va = some e →
      e = (setBase p + windowOffset d, (va - windowBase d) >>> pageShift, w va) ∧ windowBase d ≤ va) :
    (∀ i, inRange d base top i →
      (edit (pageAddr d i)).isSome = true ∧ u'.desc (descAddr p d i) = w (pageAddr d i)) ∧
    (∀ a, (∀ i, inRange d base top i → a ≠ descAddr p d i) → u'.desc a = u.desc a) := by
  have visited := walkPages_isSome h
  by_cases empty : pageCount (pageStart base) top = 0
  · have none_in : ∀ i, ¬inRange d base top i := by
      rintro i ⟨h1, h2⟩
      have : 0 < pageCount (pageStart base) top := lt_pageCount.mpr (by omega)
      omega
    rw [empty] at h
    cases h
    exact ⟨fun i hi => absurd hi (none_in i), fun _ _ => rfl⟩
  · have hb : windowBase d ≤ pageStart base := by
      obtain ⟨e, he⟩ := Option.isSome_iff_exists.mp (visited 0 (by omega))
      have := (hedit _ e he).2
      omega
    obtain ⟨hw, hf⟩ := walkPages_desc (fun va e he => (hedit va e he).1) h fun i j hij _ => by
      rw [index_visited hb, index_visited hb]
      omega
    simp only [index_visited hb] at hw hf
    have addr : ∀ j, pageStart base + j * pageSize =
        pageAddr d ((pageStart base - windowBase d) / 4096 + j) := by
      intro j
      rw [pageAddr, windowBase_cases, pageStart_eq, pageSize] at *
      omega
    constructor
    · intro i hi
      obtain ⟨j, hj, rfl⟩ := (inRange_iff hb).mp hi
      rw [← addr]
      exact ⟨visited j hj, hw j hj⟩
    · intro a ha
      exact hf a fun j hj => ha _ ((inRange_iff hb).mpr ⟨j, hj, rfl⟩)

/-! ### What a row puts in the tables -/

/-- Whether a row covers a byte of page `i` of a window. -/
def coversPage (row : GrantRow) (d : Bool) (i : Nat) : Prop := row.device = d ∧ inRange d row.base row.top i

/-- The descriptor of page `i` for a row: the output frame, and the attributes of its kind and permissions. -/
def rowDesc (row : GrantRow) (i : Nat) : Nat :=
  if row.device then pageAddr true i ||| deviceAttrs
  else pageStart row.pa + (pageAddr false i - pageStart row.base) ||| regionAttrs row.perms

/-- A descriptor of a row is valid. -/
theorem rowDesc_valid (row : GrantRow) (i : Nat) : (rowDesc row i).testBit 0 = true := by
  have region : (regionAttrs row.perms).testBit 0 = true := by
    unfold regionAttrs
    split <;> split <;> decide
  have device : deviceAttrs.testBit 0 = true := by decide
  unfold rowDesc
  split
  · rw [Nat.testBit_or, device, Bool.or_true]
  · rw [Nat.testBit_or, region, Bool.or_true]

section
variable {u u' : Tables} {p : Nat} {row : GrantRow}

/-- Recording a row writes its descriptor for every page it covers, all of them in its window, and nothing else. -/
theorem protUpdate_install (h : protUpdate p row.base row.top row.pa row.perms row.device u = some u')
    (hperms : row.perms ≠ 0) (hle : row.base ≤ row.top) :
    (∀ d i, coversPage row d i → i < windowPages d ∧ u'.desc (descAddr p d i) = rowDesc row i) ∧
    (∀ a, (∀ d i, coversPage row d i → a ≠ descAddr p d i) → u'.desc a = u.desc a) := by
  unfold protUpdate at h
  rw [if_neg hperms] at h
  cases hd : row.device
  · rw [hd, if_neg Bool.false_ne_true] at h
    obtain ⟨hw, hf⟩ :=
      walk_range (w := fun va => pageStart row.pa + (va - pageStart row.base) ||| regionAttrs row.perms)
      (p := p) (d := false) h fun va e he => by
        by_cases low : va < ramBase
        · simp [low] at he
        · by_cases high : grantPages ≤ (va - ramBase) >>> pageShift
          · simp [low, high] at he
          · simp only [low, high, if_false, Option.some.injEq] at he
            exact ⟨he.symm, Nat.le_of_not_lt low⟩
    refine ⟨?_, fun a ha => hf a fun i hi => ha false i ⟨hd, hi⟩⟩
    rintro d i ⟨hd', hi⟩
    obtain rfl : d = false := hd' ▸ hd
    obtain ⟨hs, hdesc⟩ := hw i hi
    refine ⟨?_, by rw [hdesc, rowDesc, hd, if_neg Bool.false_ne_true]⟩
    by_contra big
    have page : grantPages ≤ (pageAddr false i - ramBase) >>> pageShift := by
      simp only [windowPages, Bool.false_eq_true, if_false] at big
      simp only [pageAddr, windowBase, Bool.false_eq_true, if_false, pageSize, pageShift, Nat.shiftRight_eq_div_pow]
      omega
    simp [page] at hs
  · rw [hd, if_pos rfl] at h
    unfold installDevice at h
    rw [Nat.add_sub_cancel' hle] at h
    obtain ⟨hw, hf⟩ := walk_range (w := fun va => va ||| deviceAttrs) (p := p) (d := true) h fun va e he => by
      by_cases out : (va < deviceWindowBase || deviceWindowBase + deviceWindowLen ≤ va) = true
      · rw [if_pos out] at he
        cases he
      · rw [if_neg out, Option.some.injEq] at he
        simp only [Bool.or_eq_true, decide_eq_true_eq, not_or, Nat.not_lt] at out
        exact ⟨he.symm, out.1⟩
    refine ⟨?_, fun a ha => hf a fun i hi => ha true i ⟨hd, hi⟩⟩
    rintro d i ⟨hd', hi⟩
    obtain rfl : d = true := hd' ▸ hd
    obtain ⟨hs, hdesc⟩ := hw i hi
    refine ⟨?_, by rw [hdesc, rowDesc, hd, if_pos rfl]⟩
    by_contra big
    have out : deviceWindowBase + deviceWindowLen ≤ pageAddr true i := by
      simp only [windowPages, if_true, ptEntries] at big
      simp only [pageAddr, windowBase, if_true, pageSize, deviceWindowLen, blockShift]
      omega
    simp [out] at hs

/-- Revoking a row leaves every page it covers absent, where its pages are in their window. -/
theorem protUpdate_revoke (h : protUpdate p row.base row.top row.pa 0 row.device u = some u') :
    (∀ d i, coversPage row d i → u'.desc (descAddr p d i) = descAbsent) ∧
    (∀ a, (∀ d i, coversPage row d i → a ≠ descAddr p d i) → u'.desc a = u.desc a) := by
  unfold protUpdate revoke at h
  rw [if_pos rfl] at h
  obtain ⟨hw, hf⟩ := walk_range (w := fun _ => descAbsent) (p := p) (d := row.device) h fun va e he => by
    change (if va < windowBase row.device then none else _) = _ at he
    by_cases low : va < windowBase row.device
    · rw [if_pos low] at he
      cases he
    · rw [if_neg low, Option.some.injEq] at he
      exact ⟨he.symm, Nat.le_of_not_lt low⟩
  refine ⟨?_, fun a ha => hf a fun i hi => ha _ i ⟨rfl, hi⟩⟩
  rintro d i ⟨rfl, hi⟩
  exact (hw i hi).2

theorem protClear_desc {d : Bool} {i : Nat} (hi : i < windowPages d) :
    (protClear p u).desc (descAddr p d i) = descAbsent := by
  simp only [protClear, resetDeviceWindow, resetWindow, resetTable_desc]
  cases d
  · rw [if_pos (⟨i, hi, rfl⟩ : ∃ j < grantPages, descAddr p false i = setBase p + level3Offset + j * descBytes),
      ite_self]
  · rw [if_pos ⟨i, hi, rfl⟩]

/-- Clearing a slot's tables writes no descriptor of another slot. -/
theorem protClear_frame {q : Nat} {d : Bool} {i : Nat} (hi : i < windowPages d) (hq : q ≠ p) :
    (protClear p u).desc (descAddr q d i) = u.desc (descAddr q d i) := by
  simp only [protClear, resetDeviceWindow, resetWindow, resetTable_desc]
  rw [if_neg, if_neg]
  · rintro ⟨j, hj, h⟩
    exact hq (descAddr_inj (p := q) (q := p) (d := d) (e := false) hi hj h).1
  · rintro ⟨j, hj, h⟩
    exact hq (descAddr_inj (p := q) (q := p) (d := d) (e := true) hi hj h).1

end

/-! ### The tables of a slot and its record -/

/-- Each descriptor of the slot's windows is absent where no row of the record covers its page, and else it is
    the one of a row that does; the rows cover pages of their windows only. -/
structure Standing (u : Tables) (p : Nat) (rows : Nat → GrantRow) (n : Nat) : Prop where
  inside : ∀ r < n, ∀ d i, coversPage (rows r) d i → i < windowPages d
  absent : ∀ d, ∀ i < windowPages d, (∀ r < n, ¬coversPage (rows r) d i) → u.desc (descAddr p d i) = descAbsent
  granted : ∀ d, ∀ i < windowPages d, (∃ r < n, coversPage (rows r) d i) →
    ∃ r < n, coversPage (rows r) d i ∧ u.desc (descAddr p d i) = rowDesc (rows r) i

section
variable {u u' : Tables} {p q n : Nat} {rows rows' : Nat → GrantRow}

/-- The tables of a slot stand as long as its descriptors and its rows are what they were. -/
theorem Standing.frame (hs : Standing u p rows n) (hr : ∀ r < n, rows' r = rows r)
    (hu : ∀ d, ∀ i < windowPages d, u'.desc (descAddr p d i) = u.desc (descAddr p d i)) : Standing u' p rows' n := by
  refine ⟨fun r h d i hc => hs.inside r h d i (hr r h ▸ hc), fun d i hi none_covers => ?_, fun d i hi some_covers => ?_⟩
  · rw [hu d i hi]
    exact hs.absent d i hi fun r h hc => none_covers r h (by rwa [hr r h])
  · obtain ⟨r, h, hc⟩ := some_covers
    obtain ⟨r', h', hc', hdesc⟩ := hs.granted d i hi ⟨r, h, hr r h ▸ hc⟩
    exact ⟨r', h', by rwa [hr r' h'], by rw [hu d i hi, hdesc, hr r' h']⟩

theorem standing_clear (u : Tables) (p : Nat) (rows : Nat → GrantRow) : Standing (protClear p u) p rows 0 where
  inside _ h := absurd h (Nat.not_lt_zero _)
  absent _ _ hi _ := protClear_desc hi
  granted := fun _ _ _ ⟨_, h, _⟩ => absurd h (Nat.not_lt_zero _)

/-- Recording a row after the others. -/
theorem Standing.record (hs : Standing u p rows n) {row : GrantRow} (hr : ∀ r < n, rows' r = rows r)
    (hn : rows' n = row) (h : protUpdate p row.base row.top row.pa row.perms row.device u = some u')
    (hperms : row.perms ≠ 0) (hle : row.base ≤ row.top) : Standing u' p rows' (n + 1) := by
  obtain ⟨hw, hf⟩ := protUpdate_install h hperms hle
  have kept : ∀ d, ∀ i < windowPages d, ¬coversPage row d i → u'.desc (descAddr p d i) = u.desc (descAddr p d i) := by
    intro d i hi hc
    refine hf _ fun e j hj hij => ?_
    obtain ⟨-, rfl, rfl⟩ := descAddr_inj hi (hw e j hj).1 hij
    exact hc hj
  have covers : ∀ r < n + 1, ∀ d i, coversPage (rows' r) d i → coversPage row d i ∨ r < n ∧
    coversPage (rows r) d i := by
    intro r h d i hc
    rcases Nat.lt_succ_iff_lt_or_eq.mp h with hlt | rfl
    · exact Or.inr ⟨hlt, hr r hlt ▸ hc⟩
    · exact Or.inl (hn ▸ hc)
  refine ⟨fun r h d i hc => ?_, fun d i hi none_covers => ?_, fun d i hi some_covers => ?_⟩
  · rcases covers r h d i hc with hrow | ⟨hlt, hold⟩
    · exact (hw d i hrow).1
    · exact hs.inside r hlt d i hold
  · rw [kept d i hi fun hc => none_covers n (Nat.lt_succ_self n) (by rwa [hn])]
    exact hs.absent d i hi fun r h hc => none_covers r (by omega) (by rwa [hr r h])
  · by_cases hrow : coversPage row d i
    · exact ⟨n, Nat.lt_succ_self n, by rwa [hn], by rw [hn, (hw d i hrow).2]⟩
    · obtain ⟨r, h, hc⟩ := some_covers
      rcases covers r h d i hc with hrow' | ⟨hlt, hold⟩
      · exact absurd hrow' hrow
      · obtain ⟨r', h', hc', hdesc⟩ := hs.granted d i hi ⟨r, hlt, hold⟩
        exact ⟨r', by omega, by rwa [hr r' h'], by rw [kept d i hi hrow, hdesc, hr r' h']⟩

/-- The pages that row `r` covers are covered by no other row. -/
def SoleCover (rows : Nat → GrantRow) (n r : Nat) : Prop :=
  ∀ m < n, m ≠ r → ∀ d i, coversPage (rows r) d i → ¬coversPage (rows m) d i

/-- Removing a row whose pages no other row covers. -/
theorem Standing.remove (hs : Standing u p rows n) {r : Nat} (hrn : r < n) (sole : SoleCover rows n r)
    (h : protUpdate p (rows r).base (rows r).top (rows r).pa 0 (rows r).device u = some u')
    (hr : ∀ m < n - 1, rows' m = if m < r then rows m else rows (m + 1)) : Standing u' p rows' (n - 1) := by
  obtain ⟨hw, hf⟩ := protUpdate_revoke h
  have kept : ∀ d, ∀ i < windowPages d, ¬coversPage (rows r) d i →
      u'.desc (descAddr p d i) = u.desc (descAddr p d i) := by
    intro d i hi hc
    refine hf _ fun e j hj hij => ?_
    obtain ⟨-, rfl, rfl⟩ := descAddr_inj hi (hs.inside r hrn e j hj) hij
    exact hc hj
  -- The rows that are left, under their old numbers.
  have left : ∀ m < n - 1, ∃ m' < n, m' ≠ r ∧ rows' m = rows m' := by
    intro m hm
    rw [hr m hm]
    by_cases hlt : m < r
    · exact ⟨m, by omega, by omega, if_pos hlt⟩
    · exact ⟨m + 1, by omega, by omega, if_neg hlt⟩
  have back : ∀ m' < n, m' ≠ r → ∃ m < n - 1, rows' m = rows m' := by
    intro m' hm' hne
    by_cases hlt : m' < r
    · exact ⟨m', by omega, by rw [hr m' (by omega), if_pos hlt]⟩
    · refine ⟨m' - 1, by omega, ?_⟩
      rw [hr (m' - 1) (by omega), if_neg (by omega), Nat.sub_add_cancel (by omega)]
  refine ⟨fun m hm d i hc => ?_, fun d i hi none_covers => ?_, fun d i hi some_covers => ?_⟩
  · obtain ⟨m', hm', -, heq⟩ := left m hm
    exact hs.inside m' hm' d i (heq ▸ hc)
  · by_cases hgone : coversPage (rows r) d i
    · exact hw d i hgone
    · rw [kept d i hi hgone]
      refine hs.absent d i hi fun m' hm' hc => ?_
      by_cases hne : m' = r
      · exact hgone (hne ▸ hc)
      · obtain ⟨m, hm, heq⟩ := back m' hm' hne
        exact none_covers m hm (heq ▸ hc)
  · obtain ⟨m, hm, hc⟩ := some_covers
    obtain ⟨m', hm', hne, heq⟩ := left m hm
    have hgone : ¬coversPage (rows r) d i := fun hgone => sole m' hm' hne d i hgone (heq ▸ hc)
    obtain ⟨r', h', hc', hdesc⟩ := hs.granted d i hi ⟨m', hm', heq ▸ hc⟩
    have hr' : r' ≠ r := fun heq' => hgone (heq' ▸ hc')
    obtain ⟨k, hk, hkeq⟩ := back r' h' hr'
    exact ⟨k, hk, by rwa [hkeq], by rw [kept d i hi hgone, hdesc, hkeq]⟩

/-- An edit of one slot's tables leaves the descriptors of another as they are. -/
theorem edit_frame {row : GrantRow} (hin : ∀ d i, coversPage row d i → i < windowPages d)
    (hf : ∀ a, (∀ d i, coversPage row d i → a ≠ descAddr p d i) → u'.desc a = u.desc a) (hq : q ≠ p) {d : Bool}
    {i : Nat} (hi : i < windowPages d) : u'.desc (descAddr q d i) = u.desc (descAddr q d i) :=
  hf _ fun e j hj h => hq (descAddr_inj hi (hin e j hj) h).1

end

end Sawos.Arm64
