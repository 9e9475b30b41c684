import Sawos.Kernel.Parts
import Sawos.Kernel.Trap

/-! # What the functions of the kernel spare

One lemma for each function that drops no reference, with the parts that it may change. -/

namespace Sawos
open Exec

variable [Hal] {S : List Part}

/-- The reverse indices of the waitables. -/
def attachParts : List Part := [.event .attachment, .interrupt .attachment, .timer .attachment, .process .attachment,
  .pipe .outletAttachment, .pipe .inletAttachment, .exchange .replyAttach, .exchange .requestAttach]

/-! ### Handle tables, quotas, the memory pool and connections -/

@[simp] theorem spares_alloc {α : Type} {c : Column α} {free : α → Bool} : Spares S (alloc c free) := by
  unfold alloc
  repeat' first
    | solve | simp [*]

@[simp] theorem spares_allocMemory : Spares S allocMemory := spares_alloc

@[simp] theorem spares_allocIoMemory : Spares S allocIoMemory := spares_alloc

@[simp] theorem spares_allocMapping : Spares S allocMapping := spares_alloc

@[simp] theorem spares_allocPipe : Spares S allocPipe := spares_alloc

@[simp] theorem spares_allocThread : Spares S allocThread := spares_alloc

@[simp] theorem spares_allocTimer : Spares S allocTimer := spares_alloc

@[simp] theorem spares_allocEvent : Spares S allocEvent := spares_alloc

@[simp] theorem spares_allocWaiter : Spares S allocWaiter := spares_alloc

@[simp] theorem spares_allocInterrupt : Spares S allocInterrupt := spares_alloc

@[simp] theorem spares_allocAttachment : Spares S allocAttachment := spares_alloc

@[simp] theorem spares_addWord {a b : Nat} : Spares S (addWord a b) := by
  unfold addWord
  repeat' first
    | solve | simp [*]
    | refine .bind ?_ fun _ => ?_
    | refine .whenever ?_
    | refine .countUp fun _ => ?_
    | refine .loop fun _ => ?_
    | split

@[simp] theorem spares_subWord {a b : Nat} : Spares S (subWord a b) := by
  unfold subWord
  repeat' first
    | solve | simp [*]
    | refine .bind ?_ fun _ => ?_
    | refine .whenever ?_
    | refine .countUp fun _ => ?_
    | refine .loop fun _ => ?_
    | split

@[simp] theorem spares_bump {a : Nat} : Spares S (bump a) := by
  unfold bump
  repeat' first
    | solve | simp [*]
    | refine .bind ?_ fun _ => ?_
    | refine .whenever ?_
    | refine .countUp fun _ => ?_
    | refine .loop fun _ => ?_
    | split

@[simp] theorem spares_fatalKernel {α : Type} : Spares S (fatalKernel : M α) := by
  unfold fatalKernel
  repeat' first
    | solve | simp [*]

@[simp] theorem spares_quotaRoom {p : Nat} {k : QuotaKind} : Spares S (quotaRoom p k) := by
  unfold quotaRoom
  repeat' first
    | solve | simp [*]
    | refine .bind ?_ fun _ => ?_

@[simp] theorem spares_quotaRoomFor {p n : Nat} {k : QuotaKind} : Spares S (quotaRoomFor p k n) := by
  unfold quotaRoomFor
  repeat' first
    | solve | simp [*]
    | refine .bind ?_ fun _ => ?_

/-- The quota on rows is not touched by what counts other objects. -/
theorem spares_setQuotaUsed {p : Nat} {k : QuotaKind} {v : ProcessSlot → Nat} (h : .process .quota ∉ S)
    (other : k = .mapping → .process .ration ∉ S) :
      Spares S (processes.modify p fun slot => slot.setQuotaUsed k (v slot)) :=
  spares_processes fun x => by
    cases x with
    | ration =>
      by_cases rows : k = .mapping
      · exact .inr (other rows)
      · exact .inl fun slot => by simp [ProcessSlot.setQuotaUsed, Ne.symm rows]
    | _ => simp [*, ProcessSlot.setQuotaUsed]

@[simp] theorem spares_quotaCharge {p : Nat} {k : QuotaKind} (h : .process .quota ∉ S)
    (other : k = .mapping → .process .ration ∉ S) : Spares S (quotaCharge p k) :=
  .bind spares_read fun _ => .bind spares_bump fun _ => spares_setQuotaUsed h other

@[simp] theorem spares_quotaCredit {p : Nat} {k : QuotaKind} (h : .process .quota ∉ S)
    (other : k = .mapping → .process .ration ∉ S) : Spares S (quotaCredit p k) := spares_setQuotaUsed h other

@[simp] theorem spares_quotaClear {p : Nat} (h : .process .quota ∉ S) (h' : .process .limits ∉ S)
    (h'' : .process .ration ∉ S) :
    Spares S (quotaClear p) := by
  unfold quotaClear
  repeat' first
    | solve | simp [*]
    | solve | with_reducible refine spares_processes ?_; simp [*]

@[simp] theorem spares_installQuotaLimits {p n : Nat} {b : Bool} (h : .process .quota ∉ S)
    (h' : .process .limits ∉ S) (h'' : .process .ration ∉ S) :
    Spares S (installQuotaLimits p b n) := by
  unfold installQuotaLimits
  repeat' first
    | solve | simp [*]
    | solve | with_reducible refine spares_processes ?_; simp [*]

@[simp] theorem spares_mintRefusal {p : Nat} : Spares S (mintRefusal p) := by
  unfold mintRefusal
  repeat' first
    | solve | simp [*]
    | refine .bind ?_ fun _ => ?_

@[simp] theorem spares_lookupHandle {p h : Nat} : Spares S (lookupHandle p h) := by
  unfold lookupHandle
  repeat' first
    | solve | simp [*]
    | refine .bind ?_ fun _ => ?_

omit [Hal] in
theorem mintAt_table (slot : ProcessSlot) {h r t : Nat} {k : ObjType} :
    (slot.mintAt h k r t).table = slot.table.mint h (k != .unbound) := by
  simp only [ProcessSlot.table, ProcessSlot.mintAt, ProcessSlot.setHandle, Generations.Table.mint,
    Generations.Table.mk.injEq, and_true]
  constructor <;> funext j <;> split <;> simp_all

omit [Hal] in
theorem unbindAt_table (slot : ProcessSlot) {h : Nat} :
    (slot.unbindAt h).table = slot.table.unbind handleGenerationModulus h := by
  simp only [ProcessSlot.table, ProcessSlot.unbindAt, ProcessSlot.setHandle, Generations.Table.unbind,
    Generations.Table.mk.injEq, and_true]
  constructor <;> funext j <;> split <;> simp_all [HandleEntry.unbound]

theorem spares_mintAt {p h r t : Nat} {k : ObjType} (h₁ : .process .handles ∉ S) :
    Spares S (processes.modify p (·.mintAt h k r t)) :=
  spares_processes fun x => by
    cases x with
    | table =>
      refine .inl fun v => ?_
      change Generations.Evolves _ v.table (v.mintAt h k r t).table
      rw [mintAt_table]
      exact .mint _ _ (.refl _)
    | _ => simp [*, ProcessSlot.mintAt, ProcessSlot.setHandle]

theorem spares_unbindAt {p h : Nat} (h₁ : .process .handles ∉ S) : Spares S (processes.modify p (·.unbindAt h)) :=
  spares_processes fun x => by
    cases x with
    | table =>
      refine .inl fun v => ?_
      change Generations.Evolves _ v.table (v.unbindAt h).table
      rw [unbindAt_table]
      exact .unbind _ (.refl _)
    | _ => simp [*, ProcessSlot.unbindAt, ProcessSlot.setHandle]

@[simp] theorem spares_mintHandle {p r t : Nat} {k : ObjType} (h₁ : .process .handles ∉ S) (h₂ : .process .quota ∉ S) :
    Spares S (mintHandle p k r t) := by
  unfold mintHandle
  repeat' first
    | solve | simp [*]
    | with_reducible exact spares_mintAt h₁
    | refine .bind ?_ fun _ => ?_
    | refine .whenever ?_
    | refine .countUp fun _ => ?_
    | refine .loop fun _ => ?_
    | split

@[simp] theorem spares_tableRoom {p n : Nat} : Spares S (tableRoom p n) := by
  unfold tableRoom
  repeat' first
    | solve | simp [*]
    | refine .bind ?_ fun _ => ?_
    | refine .whenever ?_
    | refine .countUp fun _ => ?_
    | refine .loop fun _ => ?_
    | split

@[simp] theorem spares_unbindHandle {p i : Nat} (h₁ : .process .handles ∉ S) (h₂ : .process .quota ∉ S) :
    Spares S (unbindHandle p i) := by
  unfold unbindHandle
  repeat' first
    | solve | simp [*]
    | with_reducible exact spares_unbindAt h₁
    | refine .bind ?_ fun _ => ?_
    | refine .whenever ?_
    | refine .countUp fun _ => ?_
    | refine .loop fun _ => ?_
    | split

@[simp] theorem spares_poolCanServe {r n : Nat} : Spares S (poolCanServe r n) := by
  unfold poolCanServe
  repeat' first
    | solve | simp [*]
    | refine .bind ?_ fun _ => ?_
    | refine .whenever ?_
    | refine .countUp fun _ => ?_
    | refine .loop fun _ => ?_
    | split

/-- What the memory pool is made of. -/
def poolParts : List Part := [.memory .region, .memory .pool, .memory .maps, .memory .refs, .memory .owner,
  .freeRange .range, .freeRange .next, .process .quota]

@[simp] theorem spares_poolLink {r : Nat} {a b : Option Nat} (h : ∀ x ∈ poolParts, x ∉ S) :
    Spares S (poolLink r a b) := by
  have parts := h
  simp only [poolParts, List.forall_mem_cons] at parts
  unfold poolLink
  repeat' first
    | with_reducible refine .bind ?_ fun _ => ?_
    | with_reducible refine .whenever ?_
    | solve | with_reducible refine spares_memories ?_; simp [parts]
    | solve | with_reducible refine spares_freeRanges ?_; simp [parts]
    | solve | simp
    | split

@[simp] theorem spares_freeFreeRange {m : Nat} (h : ∀ x ∈ poolParts, x ∉ S) : Spares S (freeFreeRange m) := by
  have parts := h
  simp only [poolParts, List.forall_mem_cons] at parts
  unfold freeFreeRange
  refine spares_freeRanges ?_
  simp [parts]

@[simp] theorem spares_lend {r l : Nat} (h : ∀ x ∈ poolParts, x ∉ S) : Spares S (lend r l) := by
  have parts := h
  simp only [poolParts, List.forall_mem_cons] at parts
  unfold lend
  repeat' first
    | with_reducible refine .bind ?_ fun _ => ?_
    | with_reducible refine .whenever ?_
    | solve | with_reducible refine spares_memories ?_; simp [parts]
    | solve | simp

@[simp] theorem spares_poolCutRange {r l : Nat} (h : ∀ x ∈ poolParts, x ∉ S) : Spares S (poolCutRange r l) := by
  have parts := h
  simp only [poolParts, List.forall_mem_cons] at parts
  unfold poolCutRange
  repeat' first
    | with_reducible refine .bind ?_ fun _ => ?_
    | with_reducible refine .whenever ?_
    | with_reducible refine .loop fun _ => ?_
    | with_reducible exact spares_poolLink h
    | with_reducible exact spares_freeFreeRange h
    | with_reducible exact spares_lend h
    | solve | with_reducible refine spares_freeRanges ?_; simp [parts]
    | solve | simp
    | split

@[simp] theorem spares_poolCutFront {r l : Nat} {b : Bool} (h : ∀ x ∈ poolParts, x ∉ S) :
    Spares S (poolCutFront r l b) := by
  have parts := h
  simp only [poolParts, List.forall_mem_cons] at parts
  unfold poolCutFront
  repeat' first
    | with_reducible refine .bind ?_ fun _ => ?_
    | with_reducible refine .whenever ?_
    | with_reducible exact spares_lend h
    | solve | with_reducible refine spares_memories ?_; simp [parts]
    | solve | simp
    | split

@[simp] theorem spares_poolCut {r l : Nat} (h : ∀ x ∈ poolParts, x ∉ S) : Spares S (poolCut r l) := by
  unfold poolCut
  repeat' first
    | with_reducible refine .bind ?_ fun _ => ?_
    | with_reducible refine .whenever ?_
    | with_reducible exact spares_poolCutRange h
    | with_reducible exact spares_poolCutFront h
    | solve | simp
    | split

@[simp] theorem spares_poolNeighbours {r b : Nat} : Spares S (poolNeighbours r b) := by
  unfold poolNeighbours
  repeat' first
    | with_reducible refine .bind ?_ fun _ => ?_
    | with_reducible refine .whenever ?_
    | with_reducible refine .loop fun _ => ?_
    | solve | simp
    | split

@[simp] theorem spares_poolJoinBefore {a : Option Nat} {b l : Nat} (h : ∀ x ∈ poolParts, x ∉ S) :
    Spares S (poolJoinBefore a b l) := by
  have parts := h
  simp only [poolParts, List.forall_mem_cons] at parts
  unfold poolJoinBefore
  repeat' first
    | with_reducible refine .bind ?_ fun _ => ?_
    | with_reducible refine .whenever ?_
    | solve | with_reducible refine spares_freeRanges ?_; simp [parts]
    | solve | simp
    | split

@[simp] theorem spares_poolJoinAfter {a : Option (Nat × Nat × Nat)} {c : Option Nat} {b l : Nat}
    (h : ∀ x ∈ poolParts, x ∉ S) : Spares S (poolJoinAfter a c b l) := by
  have parts := h
  simp only [poolParts, List.forall_mem_cons] at parts
  unfold poolJoinAfter
  repeat' first
    | with_reducible refine .bind ?_ fun _ => ?_
    | with_reducible refine .whenever ?_
    | with_reducible exact spares_freeFreeRange h
    | solve | with_reducible refine spares_freeRanges ?_; simp [parts]
    | solve | simp
    | split

@[simp] theorem spares_poolInsertRange {r b l : Nat} (h : ∀ x ∈ poolParts, x ∉ S) :
    Spares S (poolInsertRange r b l) := by
  have parts := h
  simp only [poolParts, List.forall_mem_cons] at parts
  unfold poolInsertRange
  repeat' first
    | with_reducible refine .bind ?_ fun _ => ?_
    | with_reducible refine .whenever ?_
    | with_reducible exact spares_poolNeighbours
    | with_reducible exact spares_poolJoinBefore h
    | with_reducible exact spares_poolJoinAfter h
    | with_reducible exact spares_poolLink h
    | solve | with_reducible refine spares_memories ?_; simp [parts]
    | solve | with_reducible refine spares_freeRanges ?_; simp [parts]
    | solve | simp
    | split

@[simp] theorem spares_poolFoldFrontier {r : Nat} (h : ∀ x ∈ poolParts, x ∉ S) : Spares S (poolFoldFrontier r) := by
  have parts := h
  simp only [poolParts, List.forall_mem_cons] at parts
  unfold poolFoldFrontier
  repeat' first
    | with_reducible refine .bind ?_ fun _ => ?_
    | with_reducible refine .whenever ?_
    | with_reducible refine .loop fun _ => ?_
    | with_reducible exact spares_poolLink h
    | with_reducible exact spares_freeFreeRange h
    | solve | with_reducible refine spares_memories ?_; simp [parts]
    | solve | simp
    | split

@[simp] theorem spares_poolReturn {r b l : Nat} (h : ∀ x ∈ poolParts, x ∉ S) : Spares S (poolReturn r b l) := by
  have parts := h
  simp only [poolParts, List.forall_mem_cons] at parts
  unfold poolReturn
  repeat' first
    | with_reducible refine .bind ?_ fun _ => ?_
    | with_reducible refine .whenever ?_
    | with_reducible exact spares_poolInsertRange h
    | with_reducible exact spares_poolFoldFrontier h
    | solve | with_reducible refine spares_memories ?_; simp [parts]
    | solve | simp
    | split

@[simp] theorem spares_poolDropNodes {r : Nat} (h : ∀ x ∈ poolParts, x ∉ S) : Spares S (poolDropNodes r) := by
  have parts := h
  simp only [poolParts, List.forall_mem_cons] at parts
  unfold poolDropNodes
  repeat' first
    | with_reducible refine .bind ?_ fun _ => ?_
    | with_reducible refine .whenever ?_
    | with_reducible refine .loop fun _ => ?_
    | with_reducible exact spares_freeFreeRange h
    | solve | with_reducible refine spares_memories ?_; simp [parts]
    | solve | simp
    | split

@[simp] theorem spares_refRegionRow {o : Option Nat} (h : .memory .maps ∉ S) : Spares S (refRegionRow o) := by
  cases o with
  | none => exact spares_pure
  | some r =>
    refine .bind spares_read fun _ => .bind spares_bump fun _ => spares_memories ?_
    simp [h]

@[simp] theorem spares_memoryGiveBack {r t : Nat} {m : MemorySlot} (h : ∀ x ∈ poolParts, x ∉ S) :
    Spares S (memoryGiveBack r t m) := by
  unfold memoryGiveBack
  repeat' first
    | with_reducible refine .bind ?_ fun _ => ?_
    | with_reducible refine .whenever ?_
    | with_reducible exact spares_poolDropNodes h
    | with_reducible exact spares_poolReturn h
    | solve | simp
    | split

@[simp] theorem spares_memoryReleaseIfIdle {r : Nat} (h : ∀ x ∈ poolParts, x ∉ S) :
    Spares S (memoryReleaseIfIdle r) := by
  have parts := h
  simp only [poolParts, List.forall_mem_cons] at parts
  unfold memoryReleaseIfIdle
  refine .recur fun again ih slot => ?_
  repeat' first
    | with_reducible refine .bind ?_ fun _ => ?_
    | with_reducible refine .whenever ?_
    | with_reducible exact spares_memoryGiveBack h
    | with_reducible exact ih _
    | with_reducible exact spares_quotaCredit parts.2.2.2.2.2.2.2.1 (by simp)
    | solve | with_reducible refine spares_memories ?_; simp [parts]
    | solve | simp
    | split

@[simp] theorem spares_unrefRegionRow {o : Option Nat} (h : ∀ x ∈ poolParts, x ∉ S) : Spares S (unrefRegionRow o) := by
  have parts := h
  simp only [poolParts, List.forall_mem_cons] at parts
  unfold unrefRegionRow
  repeat' first
    | with_reducible refine .bind ?_ fun _ => ?_
    | with_reducible refine .whenever ?_
    | with_reducible exact spares_memoryReleaseIfIdle h
    | solve | with_reducible refine spares_memories ?_; simp [parts]
    | solve | simp
    | split

@[simp] theorem spares_recordDonated {m : MemorySlot} (h : .memory .pool ∉ S) : Spares S (recordDonated m) := by
  unfold recordDonated
  split
  · exact spares_pure
  · exact spares_memories (by simp [h])

@[simp] theorem spares_memoryRetireDonated {r : Nat} (h : ∀ x ∈ poolParts, x ∉ S) :
    Spares S (memoryRetireDonated r) := by
  have parts := h
  simp only [poolParts, List.forall_mem_cons] at parts
  unfold memoryRetireDonated
  repeat' first
    | with_reducible refine .bind ?_ fun _ => ?_
    | with_reducible refine .whenever ?_
    | with_reducible exact spares_poolDropNodes h
    | with_reducible exact spares_recordDonated parts.2.1
    | with_reducible exact spares_quotaCredit parts.2.2.2.2.2.2.2.1 (by simp)
    | solve | with_reducible refine spares_memories ?_; simp [parts]
    | solve | simp

@[simp] theorem spares_compactMappingRows {t r : Nat} (h : .mapping .row ∉ S) :
    Spares S (compactMappingRows t r) := by
  unfold compactMappingRows
  repeat' first
    | solve | simp [*]
    | exact spares_mappings fun x => by
        cases x <;> first | exact .inr ‹_› | exact .inl fun v => by grind [MappingPart.same]
    | refine .bind ?_ fun _ => ?_
    | refine .whenever ?_
    | refine .countUp fun _ => ?_

@[simp] theorem spares_allocExchange {c : Nat} : Spares S (allocExchange c) := by
  unfold allocExchange
  repeat' first
    | solve | simp [*]
    | refine .bind ?_ fun _ => ?_
    | refine .whenever ?_
    | refine .countUp fun _ => ?_
    | refine .loop fun _ => ?_
    | split

@[simp] theorem spares_pipeHasRoom {c : Nat} : Spares S (pipeHasRoom c) := by
  unfold pipeHasRoom
  repeat' first
    | solve | simp [*]
    | refine .bind ?_ fun _ => ?_

@[simp] theorem spares_stagedCount {x : Nat} : Spares S (stagedCount x) := by
  unfold stagedCount
  repeat' first
    | solve | simp [*]
    | refine .bind ?_ fun _ => ?_

@[simp] theorem spares_takeStaged {x : Nat} (h : .exchange .held ∉ S) : Spares S (takeStaged x) := by
  unfold takeStaged
  repeat' first
    | solve | simp [*]
    | solve | with_reducible refine spares_exchanges ?_; simp [*]
    | refine .bind ?_ fun _ => ?_

@[simp] theorem spares_stagePush {c x : Nat} (h₁ : .exchange .next ∉ S) (h₂ : .pipe .staged ∉ S) :
    Spares S (stagePush c x) := by
  unfold stagePush
  repeat' first
    | solve | simp [*]
    | solve | with_reducible refine spares_exchanges ?_; simp [*]
    | solve | with_reducible refine spares_pipes ?_; simp [*]
    | refine .bind ?_ fun _ => ?_
    | refine .whenever ?_
    | refine .countUp fun _ => ?_
    | refine .loop fun _ => ?_
    | split

@[simp] theorem spares_stagePeek {c : Nat} : Spares S (stagePeek c) := by
  unfold stagePeek
  repeat' first
    | solve | simp [*]
    | refine .bind ?_ fun _ => ?_

@[simp] theorem spares_stagePop {c : Nat} (h₁ : .exchange .next ∉ S) (h₂ : .pipe .staged ∉ S) :
    Spares S (stagePop c) := by
  unfold stagePop
  repeat' first
    | solve | simp [*]
    | solve | with_reducible refine spares_exchanges ?_; simp [*]
    | solve | with_reducible refine spares_pipes ?_; simp [*]
    | refine .bind ?_ fun _ => ?_
    | refine .whenever ?_
    | refine .countUp fun _ => ?_
    | refine .loop fun _ => ?_
    | split

@[simp] theorem spares_pipeIdle {c : Nat} : Spares S (pipeIdle c) := by
  unfold pipeIdle
  repeat' first
    | solve | simp [*]
    | refine .bind ?_ fun _ => ?_
    | refine .whenever ?_
    | refine .countUp fun _ => ?_
    | refine .loop fun _ => ?_
    | split

@[simp] theorem spares_pipeFreesNow {c : Nat} : Spares S (pipeFreesNow c) := by
  unfold pipeFreesNow
  repeat' first
    | solve | simp [*]
    | refine .bind ?_ fun _ => ?_
    | refine .whenever ?_
    | refine .countUp fun _ => ?_
    | refine .loop fun _ => ?_
    | split

@[simp] theorem spares_exchangeCanSettle {x : Nat} : Spares S (exchangeCanSettle x) := by
  unfold exchangeCanSettle
  repeat' first
    | solve | simp [*]
    | refine .bind ?_ fun _ => ?_
    | refine .whenever ?_
    | refine .countUp fun _ => ?_
    | refine .loop fun _ => ?_
    | split

@[simp] theorem spares_bootHandleRoom {p : Nat} : Spares S (bootHandleRoom p) := by
  unfold bootHandleRoom
  repeat' first
    | solve | simp [*]
    | refine .bind ?_ fun _ => ?_

@[simp] theorem spares_bootTagUsed {p t : Nat} : Spares S (bootTagUsed p t) := by
  unfold bootTagUsed
  repeat' first
    | solve | simp [*]
    | refine .bind ?_ fun _ => ?_

@[simp] theorem spares_bootHandleTake {p t : Nat} (h : .process .boot ∉ S) : Spares S (bootHandleTake p t) := by
  unfold bootHandleTake
  repeat' first
    | solve | simp [*]
    | solve | with_reducible refine spares_processes ?_; simp [*]
    | refine .bind ?_ fun _ => ?_
    | refine .whenever ?_
    | refine .countUp fun _ => ?_
    | refine .loop fun _ => ?_
    | split

@[simp] theorem spares_queueBootHandle {p t w : Nat} {k : BootHandleKind} (h : .process .boot ∉ S) :
    Spares S (queueBootHandle p t k w) := by
  unfold queueBootHandle
  repeat' first
    | solve | simp [*]
    | solve | with_reducible refine spares_processes ?_; simp [*]
    | refine .bind ?_ fun _ => ?_
    | refine .whenever ?_
    | refine .countUp fun _ => ?_
    | refine .loop fun _ => ?_
    | split

@[simp] theorem spares_bootHandleCursor {p : Nat} (h : .process .boot ∉ S) : Spares S (bootHandleCursor p) := by
  unfold bootHandleCursor
  repeat' first
    | solve | simp [*]
    | solve | with_reducible refine spares_processes ?_; simp [*]
    | refine .bind ?_ fun _ => ?_

@[simp] theorem spares_clearBootHandles {p : Nat} (h : .process .boot ∉ S) : Spares S (clearBootHandles p) := by
  unfold clearBootHandles
  repeat' first
    | solve | simp [*]
    | solve | with_reducible refine spares_processes ?_; simp [*]

/-! ### Threads, timers and waitables -/

@[simp] theorem spares_writeResult {t : Nat} {r : SyscallResult} (h : .machine .frames ∉ S) :
    Spares S (writeResult t r) := by
  unfold writeResult
  repeat' first
    | solve | simp [*]
    | exact spares_machine (fun _ => rfl) (by simp [*, K.shape, K.setFrame])
    | refine .bind ?_ fun _ => ?_

@[simp] theorem spares_frameInit {t e s a : Nat} (h : .machine .frames ∉ S) : Spares S (frameInit t e s a) := by
  unfold frameInit
  repeat' first
    | solve | simp [*]
    | exact spares_machine (fun _ => rfl) (by simp [*, K.shape, K.setFrame])

@[simp] theorem spares_readyPush {t : Nat} (h₁ : .thread .link ∉ S) (h₂ : .machine .ready ∉ S) :
    Spares S (readyPush t) := by
  unfold readyPush
  repeat' first
    | solve | simp [*]
    | solve | with_reducible refine spares_threads ?_; simp [*]
    | exact spares_machine (fun _ => rfl) (by simp [*, K.shape])
    | refine .bind ?_ fun _ => ?_
    | refine .whenever ?_
    | refine .countUp fun _ => ?_
    | refine .loop fun _ => ?_
    | split

@[simp] theorem spares_readyPop (h₁ : .thread .link ∉ S) (h₂ : .machine .ready ∉ S) : Spares S (readyPop) := by
  unfold readyPop
  repeat' first
    | solve | simp [*]
    | solve | with_reducible refine spares_threads ?_; simp [*]
    | exact spares_machine (fun _ => rfl) (by simp [*, K.shape])
    | refine .bind ?_ fun _ => ?_
    | refine .whenever ?_
    | refine .countUp fun _ => ?_
    | refine .loop fun _ => ?_
    | split

@[simp] theorem spares_readyLink {a b : Option Nat} (h₁ : .thread .link ∉ S) (h₂ : .machine .ready ∉ S) :
    Spares S (readyLink a b) := by
  unfold readyLink
  repeat' first
    | solve | simp [*]
    | solve | with_reducible refine spares_threads ?_; simp [*]
    | exact spares_machine (fun _ => rfl) (by simp [*, K.shape])
    | refine .bind ?_ fun _ => ?_
    | refine .whenever ?_
    | refine .countUp fun _ => ?_
    | refine .loop fun _ => ?_
    | split

@[simp] theorem spares_readyUnlink {a b : Option Nat} {t : Nat} (h₁ : .thread .link ∉ S) (h₂ : .machine .ready ∉ S) :
    Spares S (readyUnlink a t b) := by
  unfold readyUnlink
  repeat' first
    | solve | simp [*]
    | solve | with_reducible refine spares_threads ?_; simp [*]
    | exact spares_machine (fun _ => rfl) (by simp [*, K.shape])
    | refine .bind ?_ fun _ => ?_
    | refine .whenever ?_

@[simp] theorem spares_readyRemoveProcess {p : Nat} (h₁ : .thread .link ∉ S) (h₂ : .machine .ready ∉ S) :
    Spares S (readyRemoveProcess p) := by
  unfold readyRemoveProcess
  repeat' first
    | solve | simp [*]
    | exact spares_machine (fun _ => rfl) (by simp [*, K.shape])
    | refine .bind ?_ fun _ => ?_
    | refine .whenever ?_
    | refine .countUp fun _ => ?_
    | refine .loop fun _ => ?_
    | split

@[simp] theorem spares_liveThreads {p : Nat} : Spares S (liveThreads p) := by
  unfold liveThreads
  repeat' first
    | solve | simp [*]

@[simp] theorem spares_reschedule (h : .machine .resched ∉ S) : Spares S (reschedule) := by
  unfold reschedule
  repeat' first
    | solve | simp [*]
    | exact spares_machine (fun _ => rfl) (by simp [*, K.shape])

@[simp] theorem spares_blockOnJoin {a b : Nat} (h₁ : .thread .state ∉ S) (h₂ : .thread .link ∉ S)
    (h₃ : .thread .joiners ∉ S) (h₄ : .machine .resched ∉ S) :
    Spares S (blockOnJoin a b) := by
  unfold blockOnJoin
  repeat' first
    | solve | simp [*]
    | solve | with_reducible refine spares_threads ?_; simp [*]
    | refine .bind ?_ fun _ => ?_

@[simp] theorem spares_callingProcess : Spares S (callingProcess) := by
  unfold callingProcess
  repeat' first
    | solve | simp [*]
    | refine .bind ?_ fun _ => ?_
    | refine .whenever ?_
    | refine .countUp fun _ => ?_
    | refine .loop fun _ => ?_
    | split

@[simp] theorem spares_makeRunnable {t : Nat} (h₁ : .thread .state ∉ S) (h₂ : .thread .link ∉ S)
    (h₃ : .machine .ready ∉ S) :
    Spares S (makeRunnable t) := by
  unfold makeRunnable
  repeat' first
    | solve | simp [*]
    | solve | with_reducible refine spares_threads ?_; simp [*]
    | refine .bind ?_ fun _ => ?_

@[simp] theorem spares_timerNowNs (h₁ : .machine .clock ∉ S) (h₂ : .machine .environment ∉ S) :
    Spares S (timerNowNs) := by
  unfold timerNowNs
  repeat' first
    | solve | simp [*]
    | exact spares_machine (fun _ => rfl) (by simp [*, K.shape])

@[simp] theorem spares_earliestTimerDeadline {n : Nat} : Spares S (earliestTimerDeadline n) := by
  unfold earliestTimerDeadline
  repeat' first
    | solve | simp [*]

@[simp] theorem spares_timerSetDeadlineNs {n : Nat} (h : .machine .comparator ∉ S) :
    Spares S (timerSetDeadlineNs n) := by
  unfold timerSetDeadlineNs
  repeat' first
    | solve | simp [*]
    | exact spares_machine (fun _ => rfl) (by simp [*, K.shape])

@[simp] theorem spares_reprogramTimer (h₁ : .machine .comparator ∉ S) (h₂ : .machine .clock ∉ S)
    (h₃ : .machine .environment ∉ S) :
    Spares S (reprogramTimer) := by
  unfold reprogramTimer
  repeat' first
    | solve | simp [*]
    | refine .bind ?_ fun _ => ?_
    | refine .whenever ?_
    | refine .countUp fun _ => ?_
    | refine .loop fun _ => ?_
    | split

@[simp] theorem spares_irqMask {l : Nat} (h : .machine .masks ∉ S) : Spares S (irqMask l) :=
  .bind (spares_machine (fun _ => rfl) (by simp [*, K.shape])) fun _ => spares_emits fun _ => trivial

@[simp] theorem spares_irqUnmask {l : Nat} (h : .machine .masks ∉ S) : Spares S (irqUnmask l) :=
  .bind (spares_machine (fun _ => rfl) (by simp [*, K.shape])) fun _ => spares_emits fun _ => trivial

@[simp] theorem spares_accumulate {e b : Nat} (h : .event .word ∉ S) : Spares S (accumulate e b) := by
  unfold accumulate
  repeat' first
    | solve | simp [*]
    | exact spares_events fun x => by
        cases x <;> first | exact .inr ‹_› | exact .inl fun v => by grind [EventPart.same]

@[simp] theorem spares_waitableAttachment {k : WaitableKind} {i : Nat} : Spares S (waitableAttachment k i) := by
  cases k <;> unfold waitableAttachment
  repeat' first
    | solve | simp [*]
    | refine .bind ?_ fun _ => ?_

@[simp] theorem spares_waitableReady {k : WaitableKind} {i : Nat} : Spares S (waitableReady k i) := by
  cases k <;> unfold waitableReady
  repeat' first
    | solve | simp [*]
    | refine .bind ?_ fun _ => ?_
    | refine .whenever ?_
    | refine .countUp fun _ => ?_
    | refine .loop fun _ => ?_
    | split

@[simp] theorem spares_waitableAnswer {k : WaitableKind} {i : Nat} : Spares S (waitableAnswer k i) := by
  cases k <;> unfold waitableAnswer
  repeat' first
    | solve | simp [*]
    | refine .bind ?_ fun _ => ?_

@[simp] theorem spares_setWaitableAttachment {k : WaitableKind} {i : Nat} {a : Option Nat}
    (h : ∀ x ∈ attachParts, x ∉ S) :
    Spares S (setWaitableAttachment k i a) := by
  simp only [attachParts, List.forall_mem_cons] at h
  cases k <;> unfold setWaitableAttachment
  repeat' first
    | solve | simp [*]
    | solve | with_reducible refine spares_events ?_; simp [*]
    | solve | with_reducible refine spares_interrupts ?_; simp [*]
    | solve | with_reducible refine spares_timers ?_; simp [*]
    | solve | with_reducible refine spares_processes ?_; simp [*]
    | solve | with_reducible refine spares_pipes ?_; simp [*]
    | solve | with_reducible refine spares_exchanges ?_; simp [*]

@[simp] theorem spares_waitableConsume {k : WaitableKind} {i : Nat} (h₁ : .event .word ∉ S) (h₂ : .timer .time ∉ S)
    (h₃ : .exchange .state ∉ S) (h₄ : .interrupt .pending ∉ S) : Spares S (waitableConsume k i) := by
  cases k <;> unfold waitableConsume
  repeat' first
    | solve | simp [*]
    | solve | with_reducible refine spares_events ?_; simp [*]
    | solve | with_reducible refine spares_timers ?_; simp [*, TimerSlot.consume]
    | solve | with_reducible refine spares_interrupts ?_; simp [*, InterruptSlot.deliver]
    | solve | with_reducible refine spares_exchanges ?_; simp [*]

@[simp] theorem spares_waiterReadyAttachment {w : Nat} : Spares S (waiterReadyAttachment w) := by
  unfold waiterReadyAttachment searchAttached
  repeat' first
    | solve | simp [*]
    | refine .bind ?_ fun _ => ?_
    | refine .whenever ?_
    | refine .countUp fun _ => ?_
    | refine .loop fun _ => ?_
    | split

@[simp] theorem spares_attachedByKey {w k : Nat} : Spares S (attachedByKey w k) := by
  unfold attachedByKey searchAttached
  repeat' first
    | solve | simp [*]
    | refine .bind ?_ fun _ => ?_
    | refine .whenever ?_
    | refine .countUp fun _ => ?_
    | refine .loop fun _ => ?_
    | split

@[simp] theorem spares_interruptByLine {l : Nat} : Spares S (interruptByLine l) := by
  unfold interruptByLine
  repeat' first
    | solve | simp [*]

@[simp] theorem spares_blockOnWait {t w d : Nat} (h₁ : .thread .state ∉ S) (h₂ : .thread .waitBuf ∉ S)
    (h₃ : .thread .link ∉ S) (h₄ : .waiter .blocked ∉ S) (h₅ : .machine .resched ∉ S) :
    Spares S (blockOnWait t w d) := by
  unfold blockOnWait
  repeat' first
    | solve | simp [*]
    | solve | with_reducible refine spares_threads ?_; simp [*]
    | solve | with_reducible refine spares_waiters ?_; simp [*]
    | refine .bind ?_ fun _ => ?_

@[simp] theorem spares_takeBlocked {w : Nat} (h₁ : .thread .link ∉ S) (h₂ : .waiter .blocked ∉ S) :
    Spares S (takeBlocked w) := by
  unfold takeBlocked
  repeat' first
    | solve | simp [*]
    | solve | with_reducible refine spares_threads ?_; simp [*]
    | solve | with_reducible refine spares_waiters ?_; simp [*]
    | refine .bind ?_ fun _ => ?_
    | split

@[simp] theorem spares_blockOnCallRoom {t c a b d : Nat} (h₁ : .thread .state ∉ S) (h₂ : .thread .waitBuf ∉ S)
    (h₃ : .thread .callPipe ∉ S) (h₄ : .thread .callClaim ∉ S) (h₅ : .thread .callArgs ∉ S)
    (h₆ : .machine .resched ∉ S) :
    Spares S (blockOnCallRoom t c a b d) := by
  unfold blockOnCallRoom
  repeat' first
    | solve | simp [*]
    | solve | with_reducible refine spares_threads ?_; simp [*]
    | refine .bind ?_ fun _ => ?_

@[simp] theorem spares_tieCallReply {t x d : Nat} (h₁ : .thread .state ∉ S) (h₂ : .thread .waitBuf ∉ S)
    (h₃ : .thread .callPipe ∉ S) (h₄ : .thread .callClaim ∉ S) (h₅ : .thread .callArgs ∉ S)
    (h₆ : .exchange .caller ∉ S) :
    Spares S (tieCallReply t x d) := by
  unfold tieCallReply
  repeat' first
    | solve | simp [*]
    | solve | with_reducible refine spares_threads ?_; simp [*]
    | solve | with_reducible refine spares_exchanges ?_; simp [*]
    | refine .bind ?_ fun _ => ?_

@[simp] theorem spares_blockOnCallReply {t x d : Nat} (h₁ : .thread .state ∉ S) (h₂ : .thread .waitBuf ∉ S)
    (h₃ : .thread .callPipe ∉ S) (h₄ : .thread .callClaim ∉ S) (h₅ : .thread .callArgs ∉ S)
    (h₆ : .exchange .caller ∉ S) (h₇ : .machine .resched ∉ S) :
    Spares S (blockOnCallReply t x d) := by
  unfold blockOnCallReply
  repeat' first
    | solve | simp [*]
    | refine .bind ?_ fun _ => ?_

@[simp] theorem spares_clearCaller {c : Option Nat} (h : .exchange .caller ∉ S) : Spares S (clearCaller c) := by
  unfold clearCaller
  repeat' first
    | solve | simp [*]
    | solve | with_reducible refine spares_exchanges ?_; simp [*]
    | refine .bind ?_ fun _ => ?_
    | refine .whenever ?_
    | refine .countUp fun _ => ?_
    | refine .loop fun _ => ?_
    | split

@[simp] theorem spares_clearPendingCall {t : Nat} (h₁ : .thread .waitBuf ∉ S) (h₂ : .thread .callPipe ∉ S)
    (h₃ : .thread .callClaim ∉ S) (h₄ : .thread .callArgs ∉ S) (h₅ : .exchange .caller ∉ S) :
    Spares S (clearPendingCall t) := by
  unfold clearPendingCall
  repeat' first
    | solve | simp [*]
    | solve | with_reducible refine spares_threads ?_; simp [*]
    | refine .bind ?_ fun _ => ?_

@[simp] theorem spares_callRoomWaiter {c : Nat} : Spares S (callRoomWaiter c) := by
  unfold callRoomWaiter
  repeat' first
    | solve | simp [*]

/-! ### Processes -/

@[simp] theorem spares_alignUpWord {v a : Nat} : Spares S (alignUpWord v a) := by
  unfold alignUpWord
  repeat' first
    | solve | simp [*]
    | refine .bind ?_ fun _ => ?_
    | refine .whenever ?_
    | refine .countUp fun _ => ?_
    | refine .loop fun _ => ?_
    | split

@[simp] theorem spares_allocProcess : Spares S (allocProcess) := by
  unfold allocProcess
  repeat' first
    | solve | simp [*]

@[simp] theorem spares_bumpPastRows {s : ProcessSlot} {n v : Nat} : Spares S (bumpPastRows s n v) := by
  unfold bumpPastRows
  repeat' first
    | solve | simp [*]
    | refine .bind ?_ fun _ => ?_
    | refine .whenever ?_
    | refine .countUp fun _ => ?_
    | refine .loop fun _ => ?_
    | dsimp only
    | split

@[simp] theorem spares_freeUserVa {p n : Nat} : Spares S (freeUserVa p n) := by
  unfold freeUserVa
  repeat' first
    | solve | simp [*]
    | refine .bind ?_ fun _ => ?_
    | refine .whenever ?_
    | refine .countUp fun _ => ?_
    | refine .loop fun _ => ?_
    | split

@[simp] theorem spares_translateUser {p v n : Nat} : Spares S (translateUser p v n) := by
  unfold translateUser
  repeat' first
    | solve | simp [*]
    | refine .bind ?_ fun _ => ?_
    | refine .whenever ?_
    | refine .countUp fun _ => ?_
    | refine .loop fun _ => ?_
    | split

@[simp] theorem spares_prot {f : Hal.Prot → Hal.Prot} (h : .machine .prot ∉ S) : Spares S (prot f) := by
  unfold prot
  repeat' first
    | solve | simp [*]
    | exact spares_machine (fun _ => rfl) (by simp [*, K.shape])

@[simp] theorem spares_protTry {f : Hal.Prot → Option Hal.Prot} (h : .machine .prot ∉ S) :
    Spares S (protTry f) := by
  unfold protTry
  repeat' first
    | solve | simp [*]
    | exact spares_machine (fun _ => rfl) (by simp [*, K.shape])
    | refine .bind ?_ fun _ => ?_
    | refine .whenever ?_
    | refine .countUp fun _ => ?_
    | refine .loop fun _ => ?_
    | split

@[simp] theorem spares_protUpdate {p a b c d : Nat} {e : Bool} (h : .machine .prot ∉ S) :
    Spares S (protUpdate p a b c d e) := by
  unfold protUpdate
  repeat' first
    | solve | simp [*]

@[simp] theorem spares_loadRow {s : ProcessSlot} {i : Nat} (h : .machine .prot ∉ S) :
    Spares S (loadRow s i) := by
  unfold loadRow
  repeat' first
    | solve | simp [*]
    | refine .bind ?_ fun _ => ?_
    | refine .whenever ?_
    | refine .countUp fun _ => ?_
    | refine .loop fun _ => ?_
    | dsimp only
    | split

@[simp] theorem spares_loadDomain {p : Nat} (h₁ : .machine .prot ∉ S) (h₂ : .machine .protProcess ∉ S) :
    Spares S (loadDomain p) := by
  unfold loadDomain
  repeat' first
    | solve | simp [*]
    | exact spares_machine (fun _ => rfl) (by simp [*, K.shape])
    | refine .bind ?_ fun _ => ?_
    | refine .whenever ?_
    | refine .countUp fun _ => ?_

@[simp] theorem spares_domainChanged {p : Nat} (h₁ : .machine .prot ∉ S) (h₂ : .machine .protProcess ∉ S) :
    Spares S (domainChanged p) := by
  unfold domainChanged
  repeat' first
    | solve | simp [*]
    | refine .bind ?_ fun _ => ?_
    | refine .whenever ?_

@[simp] theorem spares_copyCheck {p a b l h : Nat} : Spares S (copyCheck p a b l h) := by
  unfold copyCheck
  repeat' first
    | solve | simp [*]
    | refine .bind ?_ fun _ => ?_
    | refine .whenever ?_
    | refine .countUp fun _ => ?_
    | refine .loop fun _ => ?_
    | split

@[simp] theorem spares_copyOutCheck {p d n : Nat} : Spares S (copyOutCheck p d n) := by
  unfold copyOutCheck
  repeat' first
    | solve | simp [*]
    | refine .bind ?_ fun _ => ?_

@[simp] theorem spares_copyInCheck {p d n : Nat} : Spares S (copyInCheck p d n) := by
  unfold copyInCheck
  repeat' first
    | solve | simp [*]
    | refine .bind ?_ fun _ => ?_

@[simp] theorem spares_copyOut {p d : Nat} {l : List UInt8} (h : .machine .mem ∉ S) :
    Spares S (copyOut p d l) := by
  unfold copyOut
  repeat' first
    | solve | simp [*]
    | exact spares_machine (fun _ => rfl) (by simp [*, K.shape])
    | refine .bind ?_ fun _ => ?_
    | refine .whenever ?_
    | refine .countUp fun _ => ?_
    | refine .loop fun _ => ?_
    | split

@[simp] theorem spares_copyIn {p d n : Nat} : Spares S (copyIn p d n) := by
  unfold copyIn
  repeat' first
    | solve | simp [*]
    | refine .bind ?_ fun _ => ?_
    | refine .whenever ?_
    | refine .countUp fun _ => ?_
    | refine .loop fun _ => ?_
    | split

/-! ### References -/

/-- The reference columns. -/
def refParts : List Part := [.event .refs, .waiter .refs, .interrupt .refs, .timer .refs, .memory .refs,
  .ioMemory .refs, .mapping .refs, .process .refs, .pipe .inletRefs, .pipe .outletRefs, .exchange .replyRefs,
  .exchange .requestRefs]

@[simp] theorem spares_readRefs {k : ObjType} {i : Nat} : Spares S (readRefs k i) := by
  cases k <;> unfold readRefs
  repeat' first
    | solve | simp
    | refine .bind ?_ fun _ => ?_

@[simp] theorem spares_writeRefs {k : ObjType} {i n : Nat} (h : ∀ x ∈ refParts, x ∉ S) :
    Spares S (writeRefs k i n) := by
  simp only [refParts, List.forall_mem_cons] at h
  cases k <;> unfold writeRefs
  repeat' first
    | solve | simp
    | solve | with_reducible refine spares_events ?_; simp [*]
    | solve | with_reducible refine spares_waiters ?_; simp [*]
    | solve | with_reducible refine spares_interrupts ?_; simp [*]
    | solve | with_reducible refine spares_timers ?_; simp [*]
    | solve | with_reducible refine spares_memories ?_; simp [*]
    | solve | with_reducible refine spares_ioMemories ?_; simp [*]
    | solve | with_reducible refine spares_mappings ?_; simp [*]
    | solve | with_reducible refine spares_processes ?_; simp [*]
    | solve | with_reducible refine spares_pipes ?_; simp [*]
    | solve | with_reducible refine spares_exchanges ?_; simp [*]

@[simp] theorem spares_refObject {k : ObjType} {i : Nat} (h : ∀ x ∈ refParts, x ∉ S) : Spares S (refObject k i) :=
  .whenever (.bind spares_readRefs fun _ => .bind spares_bump fun _ => spares_writeRefs h)

@[simp] theorem spares_refWaitable {k : WaitableKind} {i : Nat} (h : ∀ x ∈ refParts, x ∉ S) :
    Spares S (refWaitable k i) := spares_refObject h

/-! ### Connections and attachments -/

def pipeParts : List Part := [.pipe .state, .pipe .staged, .pipe .inletAttachment, .pipe .outletAttachment,
  .pipe .inletRefs, .pipe .outletRefs, .process .quota]

/-- What settling an exchange may change: the exchange, and its connection when that was the last of it. -/
def settleParts : List Part := [.exchange .state, .exchange .data, .exchange .replyRefs, .exchange .requestRefs,
  .exchange .next, .exchange .held] ++ pipeParts

def attachmentParts : List Part := [.attachment .state, .attachment .how, .attachment .link, .waiter .attached] ++
  attachParts

@[simp] theorem spares_freePipe {c : Nat} (h : ∀ x ∈ pipeParts, x ∉ S) : Spares S (freePipe c) := by
  simp only [pipeParts, List.forall_mem_cons] at h
  unfold freePipe
  repeat' first
    | solve | simp [*]
    | solve | with_reducible refine spares_pipes ?_; simp [*]
    | refine .bind ?_ fun _ => ?_
    | refine .whenever ?_

@[simp] theorem spares_exchangeSettle {x : Nat} (h : ∀ x ∈ settleParts, x ∉ S) : Spares S (exchangeSettle x) := by
  have pipe : ∀ x ∈ pipeParts, x ∉ S := fun x hx => h x (List.mem_append_right _ hx)
  simp only [settleParts, List.cons_append, List.forall_mem_cons] at h
  unfold exchangeSettle
  repeat' first
    | solve | simp [*]
    | exact spares_freePipe pipe
    | solve | with_reducible refine spares_exchanges ?_; simp [*]
    | refine .bind ?_ fun _ => ?_
    | refine .whenever ?_

@[simp] theorem spares_unlinkAttachment {w a : Nat} {prev : Option Nat} (h : ∀ x ∈ attachmentParts, x ∉ S) :
    Spares S (unlinkAttachment w prev a) := by
  have back : ∀ x ∈ attachParts, x ∉ S := fun x hx => h x (List.mem_append_right _ hx)
  simp only [attachmentParts, List.cons_append, List.forall_mem_cons] at h
  unfold unlinkAttachment attachedLink
  repeat' first
    | solve | simp [*]
    | exact spares_setWaitableAttachment back
    | solve | with_reducible refine spares_waiters ?_; simp [*]
    | solve | with_reducible refine spares_attachments ?_; simp [*]
    | refine .bind ?_ fun _ => ?_
    | split

@[simp] theorem spares_detachAttachment {w a : Nat} (h : ∀ x ∈ attachmentParts, x ∉ S) :
    Spares S (detachAttachment w a) := by
  unfold detachAttachment
  repeat' first
    | exact spares_unlinkAttachment h
    | solve | simp [*]
    | refine .bind ?_ fun _ => ?_
    | refine .loop fun _ => ?_
    | split

/-! ### Records -/

@[simp] theorem spares_fillBody {p x : Nat} {a : PipeSendRecord} (h : .exchange .data ∉ S) :
    Spares S (fillBody p x a) := by
  unfold fillBody
  repeat' first
    | solve | simp [*]
    | solve | with_reducible refine spares_exchanges ?_; simp [*]
    | refine .bind ?_ fun _ => ?_
    | refine .whenever ?_
    | refine .countUp fun _ => ?_
    | refine .loop fun _ => ?_
    | split

@[simp] theorem spares_deliverWaitRecord {p d : Nat} {r : WaitPrefix} {b : List UInt8} (h : .machine .mem ∉ S) :
    Spares S (deliverWaitRecord p d r b) := by
  unfold deliverWaitRecord
  repeat' first
    | solve | simp [*]
    | refine .bind ?_ fun _ => ?_
    | refine .whenever ?_

@[simp] theorem spares_outletTakeDelivery {k : WaitableKind} {i : Nat} {o : Bool} :
    Spares S (outletTakeDelivery k i o) := by
  unfold outletTakeDelivery
  repeat' first
    | solve | simp [*]
    | refine .bind ?_ fun _ => ?_
    | refine .whenever ?_
    | refine .countUp fun _ => ?_
    | refine .loop fun _ => ?_
    | split

@[simp] theorem spares_revokeBlocked {w : Nat} (h₁ : .waiter .blocked ∉ S) (h₂ : .thread .waitBuf ∉ S)
    (h₃ : .thread .state ∉ S) (h₄ : .thread .link ∉ S) (h₅ : .machine .ready ∉ S) (h₆ : .machine .frames ∉ S) :
    Spares S (revokeBlocked w) := by
  unfold revokeBlocked
  repeat' first
    | solve | simp [*]
    | solve | with_reducible refine spares_waiters ?_; simp [*]
    | solve | with_reducible refine spares_threads ?_; simp [*]
    | refine .bind ?_ fun _ => ?_
    | refine .whenever ?_
    | refine .countUp fun _ => ?_
    | refine .loop fun _ => ?_
    | split

/-! ### Interrupts and the scheduler -/

@[simp] theorem spares_onTimerTick (h : .machine .resched ∉ S) : Spares S onTimerTick := by
  refine spares_machine (fun s => ?_) fun x => ?_
  · split
    · rfl
    · split <;> rfl
  · cases x <;> first | exact .inr ‹_› | exact .inl fun s => by grind [MachinePart.same, K.shape]

@[simp] theorem spares_irqPoll (h : .machine .environment ∉ S) : Spares S (irqPoll) := by
  unfold irqPoll
  repeat' first
    | solve | simp [*]
    | exact spares_machine (fun _ => rfl) (by simp [*, K.shape])

@[simp] theorem spares_hasExternalWakeSource : Spares S (hasExternalWakeSource) := by
  unfold hasExternalWakeSource
  repeat' first
    | solve | simp [*]

@[simp] theorem spares_sweepMappings {p : Nat} (h₁ : .mapping .row ∉ S) (h₂ : .mapping .refs ∉ S)
    (h₃ : .mapping .owner ∉ S) :
    Spares S (sweepMappings p) := by
  unfold sweepMappings
  repeat' first
    | solve | simp [*]
    | exact spares_mappings fun x => by
        cases x <;> exact .inr ‹_›
    | refine .bind ?_ fun _ => ?_
    | refine .whenever ?_
    | refine .countUp fun _ => ?_

@[simp] theorem spares_runThread {t : Nat} (h₁ : .machine .current ∉ S) (h₂ : .thread .state ∉ S)
    (h₃ : .machine .resched ∉ S) (h₄ : .machine .prot ∉ S) (h₅ : .machine .protProcess ∉ S) :
    Spares S (runThread t) := by
  unfold runThread
  repeat' first
    | solve | simp [*]
    | solve | with_reducible refine spares_threads ?_; simp [*]
    | exact spares_machine (fun _ => rfl) (by simp [*, K.shape])
    | refine .bind ?_ fun _ => ?_
    | refine .whenever ?_

@[simp] theorem spares_wakeJoiners {c : Nat} {h : Option Nat} (h₁ : .machine .frames ∉ S) (h₂ : .thread .state ∉ S)
    (h₃ : .thread .link ∉ S) (h₄ : .machine .ready ∉ S) :
    Spares S (wakeJoiners c h) := by
  unfold wakeJoiners
  repeat' first
    | solve | simp [*]
    | refine .bind ?_ fun _ => ?_
    | refine .whenever ?_
    | refine .countUp fun _ => ?_
    | refine .loop fun _ => ?_
    | split

@[simp] theorem spares_staysRunning {t : Nat} : Spares S (staysRunning t) := by
  unfold staysRunning
  repeat' first
    | solve | simp [*]
    | refine .bind ?_ fun _ => ?_

@[simp] theorem spares_requeueCurrent {t : Nat} (h₁ : .thread .state ∉ S) (h₂ : .thread .link ∉ S)
    (h₃ : .machine .ready ∉ S) (h₄ : .machine .resched ∉ S) :
    Spares S (requeueCurrent t) := by
  unfold requeueCurrent
  repeat' first
    | solve | simp [*]
    | exact spares_machine (fun _ => rfl) (by simp [*, K.shape])
    | refine .bind ?_ fun _ => ?_
    | refine .whenever ?_

@[simp] theorem spares_countTrap {k : TrapKind} (h : .machine .stats ∉ S) : Spares S (countTrap k) := by
  unfold countTrap
  repeat' first
    | solve | simp [*]
    | exact spares_machine (fun _ => rfl) (by simp [*, K.shape])
    | refine .bind ?_ fun _ => ?_
    | refine .whenever ?_
    | refine .countUp fun _ => ?_
    | refine .loop fun _ => ?_
    | split

@[simp] theorem spares_statsClear {p : Nat} (h : .machine .stats ∉ S) : Spares S (statsClear p) :=
  spares_machine (fun _ => rfl) (by simp [h, K.shape])

/-- What minting the root's handles on the boot regions changes. -/
def bootParts : List Part := [.memory .region, .memory .pool, .memory .maps, .memory .refs, .memory .owner,
  .ioMemory .region, .ioMemory .refs, .ioMemory .owner, .process .handles, .process .quota, .process .boot]

@[simp] theorem spares_mintBootRegions {p : Nat} (h : ∀ x ∈ bootParts, x ∉ S) : Spares S (mintBootRegions p) := by
  simp only [bootParts, List.forall_mem_cons] at h
  unfold mintBootRegions mintBootRegion
  repeat' first
    | with_reducible refine .bind ?_ fun _ => ?_
    | with_reducible refine .whenever ?_
    | with_reducible refine .countUp fun _ => ?_
    | solve | with_reducible refine spares_memories ?_; simp [h]
    | solve | with_reducible refine spares_ioMemories ?_; simp [h]
    | solve | simp [h]
    | split

/-- What the root's first thread is entered with changes. -/
def entryParts : List Part := [.process .quota, .machine .current, .machine .resched, .machine .protProcess,
  .machine .frames] ++ bootParts

/-- The first thread of the root is charged for, gets the regions of the boot, and is entered. -/
theorem spares_enterMain {main entry stackTop system : Nat} (h : ∀ x ∈ entryParts, x ∉ S) : Spares S (do
    quotaCharge rootProcess .thread
    modifies ({ · with currentThread := some main, sliceLeft := sliceTicks })
    whenever (system ≠ rootSystemHandle) (halt .fatalImage)
    mintBootRegions rootProcess
    modifies ({ · with lastProtProcess := some rootProcess })
    frameInit main entry stackTop system) := by
  have boot : ∀ x ∈ bootParts, x ∉ S := fun x hx => h x (List.mem_append_right _ hx)
  simp only [entryParts, List.cons_append, List.nil_append, List.forall_mem_cons] at h
  obtain ⟨quota, current, resched, unit, frames, -⟩ := h
  refine .bind (spares_quotaCharge quota (by simp)) fun _ => .bind (spares_dispatch current resched) fun _ => ?_
  refine .bind (.whenever spares_halt) fun _ => .bind (spares_mintBootRegions boot) fun _ => ?_
  exact .bind (spares_lastProtProcess unit) fun _ => spares_frameInit frames

/-- The root gets its handles on itself, and its first thread. -/
theorem spares_startMain {entry stackTop : Nat} (h : ∀ x ∈ .process .handles :: refParts ++ entryParts, x ∉ S)
    (threads : ∀ x, .thread x ∉ S) : Spares S (do
      let system ← mintHandle rootProcess .system rootSystemRights 0
      let _ ← mintHandle rootProcess .process processRights rootProcess
      refObject .process rootProcess
      match ← allocThread with
      | none => halt .panic
      | some main =>
        let _ ← mintHandle rootProcess .thread threadRights main
        Sawos.threads.write main { ThreadSlot.vacant with state := .running, process := rootProcess }
        quotaCharge rootProcess .thread
        modifies ({ · with currentThread := some main, sliceLeft := sliceTicks })
        whenever (system ≠ rootSystemHandle) (halt .fatalImage)
        mintBootRegions rootProcess
        modifies ({ · with lastProtProcess := some rootProcess })
        frameInit main entry stackTop system) := by
  have handles : .process .handles ∉ S := h _ (by simp)
  have entered : ∀ x ∈ entryParts, x ∉ S := fun x hx => h x (List.mem_append_right _ hx)
  have quota : .process .quota ∉ S := entered _ (by simp [entryParts])
  refine .bind (spares_mintHandle handles quota) fun system => .bind (spares_mintHandle handles quota) fun _ => ?_
  refine .bind (spares_refObject fun x hx => h x (by simp [hx])) fun _ => .bind spares_allocThread fun found => ?_
  cases found with
  | none => exact spares_halt
  | some main =>
    refine .bind (spares_mintHandle handles quota) fun _ => .bind (spares_threads ?_) fun _ => spares_enterMain entered
    exact fun x => .inr (threads x)

/-! ### Rows -/

/-- What recording a row may change. -/
def grantParts : List Part := [.process .grants, .machine .prot, .memory .maps]

/-- What removing a row may change. -/
def rowEditParts : List Part := [.process .grants, .machine .prot] ++ poolParts

/-- What a call that installs a row may change. -/
def installParts : List Part := [.process .handles, .process .quota, .mapping .row, .mapping .refs, .mapping .owner,
  .machine .protProcess, .process .ration] ++ grantParts

@[simp] theorem spares_recordGrant {p a b c d : Nat} {e : Bool} {r : Option Nat} (h : ∀ x ∈ grantParts, x ∉ S) :
    Spares S (recordGrant p a b c d e r) := by
  simp only [grantParts, List.forall_mem_cons] at h
  unfold recordGrant
  refine .bind spares_read fun _ => .ite (.bind ?_ fun _ => .bind (spares_refRegionRow h.2.2.1) fun _ => ?_) spares_halt
  · exact spares_processes (by simp [h, ProcessSlot.pushRow])
  · exact spares_protUpdate h.2.1

@[simp] theorem spares_removeGrant {p r : Nat} (h : ∀ x ∈ rowEditParts, x ∉ S) : Spares S (removeGrant p r) := by
  have pool : ∀ x ∈ poolParts, x ∉ S := fun x hx => h x (List.mem_append_right _ hx)
  simp only [rowEditParts, List.cons_append, List.forall_mem_cons] at h
  unfold removeGrant
  refine .ite (.bind spares_read fun _ => .bind (by simp) fun _ => .bind (spares_protUpdate h.2.1) fun _ => ?_)
    spares_halt
  refine .bind (spares_processes ?_) fun _ => spares_unrefRegionRow pool
  simp [h, ProcessSlot.dropRow]

@[simp] theorem spares_clearDomain {p : Nat} (h : ∀ x ∈ rowEditParts, x ∉ S) (h' : .machine .protProcess ∉ S) :
    Spares S (clearDomain p) := by
  have pool : ∀ x ∈ poolParts, x ∉ S := fun x hx => h x (List.mem_append_right _ hx)
  simp only [rowEditParts, List.cons_append, List.forall_mem_cons] at h
  unfold clearDomain
  refine .bind spares_read fun _ => .bind (spares_processes ?_) fun _ => .bind (spares_prot h.2.1) fun _ => ?_
  · simp [h]
  refine .bind (.countUp fun _ => spares_unrefRegionRow pool) fun _ => .bind spares_reads fun _ => .whenever ?_
  exact spares_machine (fun _ => rfl) (by simp [h', K.shape])

@[simp] theorem spares_mintRow {p t a b c d : Nat} {e : Bool} {r : Option Nat} (h : ∀ x ∈ installParts, x ∉ S) :
    Spares S (mintRow p t a b c d e r) := by
  have edit : ∀ x ∈ grantParts, x ∉ S := fun x hx => h x (List.mem_append_right _ hx)
  have quota : .process .quota ∉ S := h _ (by decide)
  simp only [installParts, List.cons_append, List.forall_mem_cons] at h
  unfold mintRow minted
  refine .bind spares_allocMapping fun found => ?_
  cases found with
  | none => exact spares_pure
  | some m =>
    refine .bind (spares_mintHandle h.1 quota) fun _ => .ite (.bind spares_mintRefusal fun _ => spares_pure) ?_
    refine .bind ?_ fun _ => spares_pure
    refine .bind spares_read fun _ => .bind (spares_recordGrant edit) fun _ => .bind (spares_mappings ?_) fun _ => ?_
    · simp [h]
    · exact .bind (spares_quotaCharge quota fun _ => h.2.2.2.2.2.2.1) fun _ => spares_domainChanged
        (edit _ (by decide)) h.2.2.2.2.2.1

@[simp] theorem spares_installRow {p t a b c : Nat} {e : Bool} {r : Option Nat} (h : ∀ x ∈ installParts, x ∉ S) :
    Spares S (installRow p t a b c e r) := by
  unfold installRow
  refine .bind spares_quotaRoom fun _ => .ite ?_ spares_pure
  refine .bind spares_read fun _ => .bind (.whenever spares_fatalKernel) fun _ => .bind spares_freeUserVa fun _ => ?_
  exact .ite spares_pure (.ite spares_pure (spares_mintRow h))

end Sawos
