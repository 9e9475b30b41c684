import Sawos.Kernel.Copies
import Sawos.Kernel.Devices
import Sawos.Kernel.Samples

/-! # What an interrupt delivers

The attachment that a line or a timer names is one for it, in every state that a run reaches. So a delivery out of an
interrupt is about its own line or timer and ends at most that: it leaves memory, records, tables and connections alone,
whatever else is being waited for. -/

namespace Sawos
open Exec

/-- An attachment for `i` of kind `k`. -/
def Attachment.For (v : Attachment) (k : WaitableKind) (i : Nat) : Prop := v.state = .live ∧ v.kind = k ∧ v.target = i

/-- The kinds of what interrupts make ready. -/
def WaitableKind.device : WaitableKind → Bool
  | .interrupt | .timer => true
  | _ => false

section
variable [Hal]

/-- The attachment that a line or a timer names. -/
def K.backLink (s : K) : WaitableKind → Nat → Option Nat
  | .interrupt, i => (s.interrupts.slot i).attachment
  | .timer, i => (s.timers.slot i).attachment
  | _, _ => none

/-- Attachment `a` is for `i` of kind `k`. -/
def K.Attached (s : K) (a : Nat) (k : WaitableKind) (i : Nat) : Prop := a < s.attachments.cap ∧
    (s.attachments.slot a).For k i

/-- The attachment that a line or a timer names is for it. -/
def Backed (s : K) : Prop := ∀ k i a, s.backLink k i = some a → s.Attached a k i

/-- Only `i` of kind `k` may name attachment `a`, and the others are for those who name them. -/
def BackedBut (a : Nat) (k : WaitableKind) (i : Nat) (s : K) : Prop :=
  ∀ l j b, s.backLink l j = some b → (b = a ∧ l = k ∧ j = i) ∨ (b ≠ a ∧ s.Attached b l j)

/-- No one names attachment `a`. -/
def Unlinked (a : Nat) (s : K) : Prop := ∀ l j b, s.backLink l j = some b → b ≠ a ∧ s.Attached b l j

/-- What this is about. -/
def backedParts : List Part := .machine .slabs :: linkParts

section
variable {G : Ev → Prop} {n : Nat} {A : K → Prop} {s t : K} {a i : Nat} {k : WaitableKind}

theorem agree_backLink (h : Agree backedParts s t) : t.backLink = s.backLink := by
  have lines : ∀ i, (s.interrupts.slot i).attachment = (t.interrupts.slot i).attachment :=
    h (.interrupt .attachment) (by decide)
  have timers : ∀ i, (s.timers.slot i).attachment = (t.timers.slot i).attachment := h (.timer .attachment) (by decide)
  funext k i
  cases k <;> simp [K.backLink, lines, timers]

theorem agree_attached (h : Agree backedParts s t) : t.Attached a k i ↔ s.Attached a k i := by
  obtain ⟨state, kind, target, -⟩ : (s.attachments.slot a).state = (t.attachments.slot a).state ∧ _ :=
    h (.attachment .state) (by decide) a
  have shape : s.shape = t.shape := h (.machine .slabs) (by decide)
  have cap : s.attachments.cap = t.attachments.cap := by
    simp only [K.shape, List.cons.injEq, Prod.mk.injEq] at shape
    exact shape.2.2.2.2.2.2.1.1
  rw [K.Attached, K.Attached, Attachment.For, Attachment.For, state, kind, target, cap]

theorem Backed.agree (h : Agree backedParts s t) (hs : Backed s) : Backed t := fun k i a named =>
  (agree_attached h).mpr (hs k i a (agree_backLink h ▸ named))

theorem BackedBut.agree (h : Agree backedParts s t) (hs : BackedBut a k i s) : BackedBut a k i t := fun l j b named =>
  (hs l j b (agree_backLink h ▸ named)).imp id fun other => ⟨other.1, (agree_attached h).mpr other.2⟩

theorem Backed.spares {α : Type} {m : M α} (hm : Spares backedParts m) : Keeps G n A Backed m :=
  hm.keeps fun _ _ => Backed.agree

/-- An attachment is named by whom it is for, or by no one. -/
theorem Backed.but (hs : Backed s) : BackedBut a (s.attachments.slot a).kind (s.attachments.slot a).target s := by
  intro l j b named
  obtain ⟨inCap, state, kind, target⟩ := hs l j b named
  by_cases same : b = a
  · subst same
    exact Or.inl ⟨rfl, kind.symm, target.symm⟩
  · exact Or.inr ⟨same, inCap, state, kind, target⟩

theorem Unlinked.backed (h : Unlinked a s) : Backed s := fun l j b named => (h l j b named).2

/-- A free attachment is named by no one. -/
theorem Backed.unlinked (hs : Backed s) (free : (s.attachments.slot a).state = .free) : Unlinked a s := by
  intro l j b named
  have attached := hs l j b named
  refine ⟨?_, attached⟩
  rintro rfl
  cases attached.2.1.symm.trans free

/-- After `a` was written, it is still named by no one. -/
theorem Unlinked.write {v : Attachment} (h : Unlinked a s) :
    Unlinked a { s with attachments := s.attachments.set a v } := by
  intro l j b named
  obtain ⟨other, inCap, live⟩ := h l j b named
  exact ⟨other, inCap, by simpa [other] using live⟩

theorem BackedBut.write {v : Attachment} (h : BackedBut a k i s) :
    BackedBut a k i { s with attachments := s.attachments.set a v } := by
  intro l j b named
  rcases h l j b named with own | ⟨other, inCap, live⟩
  · exact Or.inl own
  · exact Or.inr ⟨other, inCap, by simpa [other] using live⟩

/-- What a waitable names changes, and what the others name stays. -/
theorem wp_setWaitableAttachment {x : Option Nat} {Q : Unit → K → Prop}
    (hQ : ∀ t, t.attachments = s.attachments →
      (∀ l j b, t.backLink l j = some b → (l = k ∧ j = i ∧ x = some b) ∨ (¬(l = k ∧ j = i) ∧ s.backLink l j = some b)) →
      Q () t) :
    wp G n (setWaitableAttachment k i x) Q (.leaving A) s := by
  cases k <;> unfold setWaitableAttachment <;> refine wp_modify.mpr fun _ => hQ _ rfl fun l j b named => ?_
  case interrupt | timer =>
    cases l <;> simp only [K.backLink, interrupts, timers, Slab.set_slot] at named ⊢ <;> grind
  all_goals
    refine Or.inr ⟨?_, named⟩
    rintro ⟨rfl, -⟩
    cases named

theorem BackedBut.clear : Leads G n A (BackedBut a k i) (Unlinked a) (setWaitableAttachment k i none) := by
  refine fun s hs => wp_setWaitableAttachment fun t same named => ?_
  intro l j b here
  rw [K.Attached, same]
  rcases named l j b here with ⟨-, -, nothing⟩ | ⟨other, before⟩
  · cases nothing
  · rcases hs l j b before with own | rest
    · exact absurd own.2 other
    · exact rest

/-- Attachments come and go with what names them. -/
theorem Backed.links : Linked G n A Backed where
  attach a v live := by
    rintro s ⟨hs, free⟩
    refine wp_bind.mpr (wp_modify.mpr fun inCap => ?_)
    have unlinked : Unlinked a { s with attachments := s.attachments.set a v } := (hs.unlinked free).write
    have waiter : Spares backedParts (waiters.modify v.waiter ({ · with attached := some a })) :=
      spares_waiters (by simp +decide)
    refine wp_bind.mpr (wp_sparesQuietly (fun _ _ => trivial) waiter fun _ t same =>
      wp_setWaitableAttachment fun u still named => ?_)
    have written : (s.attachments.set a v).slot a = v := if_pos rfl
    have here : t.Attached a v.kind v.target := (agree_attached same).mpr ⟨inCap, written.symm ▸ ⟨live, rfl, rfl⟩⟩
    intro l j b now
    rw [K.Attached, still]
    rcases named l j b now with ⟨rfl, rfl, new⟩ | ⟨-, before⟩
    · obtain rfl := Option.some.inj new
      exact here
    · exact (agree_attached same).mpr (unlinked l j b (agree_backLink same ▸ before)).2
  detach w a := by
    unfold Sawos.detachAttachment
    refine .bind (Backed.spares (by simp)) fun _ => .loop fun at' => ?_
    split
    · exact keeps_pure
    refine .ite (.bind (fun s hs => ?_) fun _ => keeps_pure) (.bind (Backed.spares (by simp)) fun _ => keeps_pure)
    refine wp_bind.mpr (wp_read.mpr fun _ => ?_)
    have link : Spares backedParts (attachedLink w at'.1 (s.attachments.slot a).link) := by
      unfold attachedLink
      split
      · exact spares_waiters (by simp +decide)
      · exact spares_attachments (by simp +decide)
    refine wp_bind.mpr (wp_sparesQuietly (fun _ _ => trivial) link fun _ t same => ?_)
    refine wp_bind.mpr ((BackedBut.clear t (hs.but.agree same)).imp fun _ u hu => wp_modify.mpr fun _ => ?_)
    exact hu.write.backed
  drop a v := by
    rintro s ⟨hs, rfl⟩
    refine wp_bind.mpr (wp_modify.mpr fun _ => ?_)
    exact (BackedBut.clear _ hs.but.write).imp fun _ t ht => ht.backed

/-- A line or a timer that names the same attachment as before, or none. -/
theorem Backed.line {f : InterruptSlot → InterruptSlot}
    (hf : ∀ v, (f v).attachment = v.attachment ∨ (f v).attachment = none) :
      Keeps G n A Backed (interrupts.modify i f) := by
  refine fun s hs => wp_modify.mpr fun _ k j a named => hs k j a ?_
  cases k with
  | interrupt =>
    by_cases same : j = i
    · subst same
      have here : (f (s.interrupts.slot j)).attachment = some a := by simpa [K.backLink, interrupts] using named
      exact ((hf _).resolve_right (by simp [here])).symm.trans here
    · simpa [K.backLink, interrupts, same] using named
  | _ => exact named

theorem Backed.timer {f : TimerSlot → TimerSlot} (hf : ∀ v, (f v).attachment = v.attachment ∨ (f v).attachment = none) :
    Keeps G n A Backed (timers.modify i f) := by
  refine fun s hs => wp_modify.mpr fun _ k j a named => hs k j a ?_
  cases k with
  | timer =>
    by_cases same : j = i
    · subst same
      have here : (f (s.timers.slot j)).attachment = some a := by simpa [K.backLink, timers] using named
      exact ((hf _).resolve_right (by simp [here])).symm.trans here
    · simpa [K.backLink, timers, same] using named
  | _ => exact named

theorem TimerSlot.fire_attachment (t : TimerSlot) (now : Nat) : (t.fire now).attachment = t.attachment := by
  unfold TimerSlot.fire
  split <;> rfl

theorem Backed.watched : Watched G n A Backed where
  quiet _ _ := trivial
  about _ _ same hs := hs.agree (same.mono (by decide))
  consume _ _ := Backed.spares (by simp +decide)
  freeInterrupt _ _ := by
    refine .bind (Backed.spares (by simp)) fun _ => .bind (.whenever (Backed.spares (by simp))) fun _ => ?_
    refine .bind (Backed.spares (by simp +decide)) fun _ => .bind (Backed.line fun _ => Or.inr rfl) fun _ => ?_
    exact Backed.spares (by simp +decide)
  freeTimer _ _ := by
    refine .bind (Backed.spares (by simp)) fun _ => .bind (.whenever (Backed.spares (by simp))) fun _ => ?_
    refine .bind (Backed.timer fun _ => Or.inr rfl) fun _ => .bind (Backed.spares (by simp +decide)) fun _ => ?_
    exact Backed.spares (by simp +decide)
  links := Backed.links

/-! ### Deliveries -/

/-- What the service of an interrupt leaves alone. -/
def shelteredParts : List Part :=
  [.process .handles, .process .table, .process .limits, .process .grants, .process .state, .process .refs,
    .process .attachment, .process .boot, .process .image, .process .exit, .thread .process, .thread .exitCode,
    .thread .joiners, .thread .callPipe, .thread .callClaim, .thread .callArgs, .event .state, .event .word,
    .event .attachment, .event .refs, .waiter .state, .waiter .refs, .memory .region, .memory .pool, .memory .maps,
    .memory .refs, .memory .owner, .freeRange .range, .freeRange .next, .ioMemory .region, .ioMemory .refs,
    .ioMemory .owner, .mapping .row, .mapping .refs, .mapping .owner, .pipe .state, .pipe .staged,
    .pipe .inletAttachment, .pipe .outletAttachment, .pipe .inletRefs, .pipe .outletRefs, .exchange .state,
    .exchange .data, .exchange .replyRefs, .exchange .requestRefs, .exchange .replyAttach, .exchange .requestAttach,
    .exchange .caller, .exchange .next, .exchange .held, .machine .current, .machine .protProcess, .machine .stats,
    .machine .prot, .machine .slabs, .machine .beyond]

/-- The same, with the memory, which only deliveries write. -/
def stillParts : List Part := .machine .mem :: shelteredParts

theorem spares_dropDevice (dev : k.device) {u : ObjType → Nat → M Unit} :
    Spares stillParts (Cascade.dropReference u (waitableObjType k) i) := by
  have write : ∀ m, Spares stillParts (writeRefs (waitableObjType k) i m) := fun m => by
    cases k with
    | interrupt =>
      show Spares _ (interrupts.modify i ({ · with refs := m }))
      exact spares_interrupts (by simp +decide)
    | timer =>
      show Spares _ (timers.modify i ({ · with refs := m }))
      exact spares_timers (by simp +decide)
    | _ => cases dev
  have last : ∀ b, Spares stillParts (Cascade.dropped u b (waitableObjType k) i) := fun b => by
    cases k with
    | interrupt | timer => exact spares_pure
    | _ => cases dev
  exact .ite (.bind spares_readRefs fun m => .ite spares_pure (.bind (write _) fun _ => last _)) spares_pure

/-- The end of a line's or a timer's last reference ends nothing else. -/
theorem spares_unrefDevice (dev : k.device) : Spares stillParts (unrefWaitable k i) := by
  have body : ∀ u, Spares stillParts (Cascade.unrefObject u (waitableObjType k) i) := fun u =>
    .bind (spares_dropDevice dev) fun _ => .whenever <| by
      cases k with
      | interrupt => exact spares_freeInterrupt (by decide)
      | timer => exact spares_freeTimer (by decide)
      | _ => cases dev
  have once : ∀ n, Spares stillParts (calls (fun again (o : ObjType × Nat) =>
      Cascade.unrefObject (fun k i => again (k, i)) o.1 o.2) n (waitableObjType k, i)) := fun n => by
    cases n with
    | zero => exact spares_spent
    | succ n => exact body _
  exact fun n s => once n n s

theorem spares_setDevice (dev : k.device) {x : Option Nat} : Spares stillParts (setWaitableAttachment k i x) := by
  cases k with
  | interrupt =>
    show Spares _ (interrupts.modify i ({ · with attachment := x }))
    exact spares_interrupts (by simp +decide)
  | timer =>
    show Spares _ (timers.modify i ({ · with attachment := x }))
    exact spares_timers (by simp +decide)
  | _ => cases dev

/-- A copy of `bytes` to `dst` of `p` writes the byte `b` of memory. -/
def Writes (s : K) (p dst bytes b : Nat) : Prop :=
  ∃ i, Admits s p (s.processes.slot p).rwBase (s.processes.slot p).rwTop dst bytes i ∧
    (s.processes.slot p).physOf i dst ≤ b ∧ b < (s.processes.slot p).physOf i dst + bytes

/-- Only the rows and the window of the process matter. -/
theorem writes_iff {p dst bytes b : Nat} (same : Agree shelteredParts s t) :
    Writes s p dst bytes b ↔ Writes t p dst bytes b := by
  obtain ⟨count, grants, -⟩ := same (.process .grants) (by decide) p
  obtain ⟨-, -, -, -, rwBase, rwTop⟩ := same (.process .image) (by decide) p
  have phys : ∀ j, (s.processes.slot p).physOf j dst = (t.processes.slot p).physOf j dst := fun j => by
    rw [ProcessSlot.physOf, ProcessSlot.physOf, grants]
  have finds : ∀ j, (s.processes.slot p).Finds dst j ↔ (t.processes.slot p).Finds dst j := fun j =>
    ⟨.same count grants, .same count.symm grants.symm⟩
  simp only [Writes, phys, ← rwBase, ← rwTop]
  refine exists_congr fun j => and_congr_left' ⟨?_, ?_⟩
  · rintro ⟨⟨found, inside⟩, aligned, above, below⟩
    exact ⟨⟨(finds j).mp found, grants ▸ inside⟩, aligned, above, below⟩
  · rintro ⟨⟨found, inside⟩, aligned, above, below⟩
    exact ⟨⟨(finds j).mpr found, grants ▸ inside⟩, aligned, above, below⟩

/-- A thread is moved whose record, where the kernel tells of a device, has the byte `b` of memory. -/
def Rouses (b : Nat) : Ev → Prop
  | .mark (.move t) s => Writes s (s.threads.slot t).process (s.threads.slot t).waitBuf waitMetaEndBytes b
  | _ => False

/-- No record of a thread that is moved has a byte of `W`. -/
def Misses (W : Nat → Prop) (e : Ev) : Prop := ∀ b, W b → ¬Rouses b e

/-- The state is `s₀` but for what an interrupt may change, and so is the memory on `W`. -/
structure Like (W : Nat → Prop) (s₀ s : K) : Prop where
  parts : Agree shelteredParts s₀ s
  mem : ∀ b, W b → s.mem b = s₀.mem b

section
variable {A : Conduct K Ev} {s₀ : K} {W : Nat → Prop} (quiet : ∀ e : Ev, e.quiet → A.emitted e)

theorem Like.refl : Like W s s := ⟨.refl s, fun _ _ => rfl⟩

theorem Like.agree (same : Agree stillParts s t) (h : Like W s₀ s) : Like W s₀ t := by
  have mem : s.mem = t.mem := same (.machine .mem) (by decide)
  exact ⟨h.parts.trans (same.mono fun x hx => List.mem_cons_of_mem _ hx), fun b hb => mem ▸ h.mem b hb⟩

/-- It is like `s₀`, and `a` is still for `i` of kind `k`. -/
def Sheltering (W : Nat → Prop) (s₀ : K) (a : Nat) (k : WaitableKind) (i : Nat) (s : K) : Prop :=
  Like W s₀ s ∧ (s.attachments.slot a).For k i

theorem Sheltering.agree (same : Agree (.attachment .state :: stillParts) s t) (h : Sheltering W s₀ a k i s) :
    Sheltering W s₀ a k i t := by
  obtain ⟨state, kind, target, -⟩ : (s.attachments.slot a).state = (t.attachments.slot a).state ∧ _ :=
    same (.attachment .state) (by decide) a
  refine ⟨h.1.agree (same.mono fun x hx => List.mem_cons_of_mem _ hx), ?_⟩
  rw [Attachment.For, ← state, ← kind, ← target]
  exact h.2

/-- The record of a thread that waited for a device is short, and written where its process may write. -/
theorem Like.record {p d key payload : Nat} {tag : WaitTag} (h : Like W s₀ s)
    (clear : ∀ b, W b → ¬Writes s₀ p d waitMetaEndBytes b) :
    wp G n (deliverWaitRecord p d ⟨key, tag, payload, 0, (List.replicate pipeMsgHandles (0, noHandle)).map (·.1),
      noHandle :: (List.replicate pipeMsgHandles (0, noHandle)).map (·.2)⟩ []) (fun _ => Like W s₀) (.leaving A) s := by
  let rec' : WaitPrefix := ⟨key, tag, payload, 0, (List.replicate pipeMsgHandles (0, noHandle)).map (·.1),
    noHandle :: (List.replicate pipeMsgHandles (0, noHandle)).map (·.2)⟩
  have bare : rec'.carries = false := rfl
  have short : (rec'.bytes.take waitMetaEndBytes).length = waitMetaEndBytes := by
    simp only [rec', WaitPrefix.bytes, msgMetaBytes, List.length_take, List.length_append,
      length_wordBytesLe, List.length_cons,
      List.length_map, List.length_replicate, List.length_nil, waitMetaEndBytes, pipeMsgHandles]
    omega
  have said : deliverWaitRecord p d rec' [] = (do
      let refused ← copyOut p d (rec'.bytes.take waitMetaEndBytes)
      whenever refused.isSome (halt .fatalDoor)
      whenever false (pure ())) := by
    simp only [deliverWaitRecord, bare]
    rfl
  rw [said]
  refine wp_bind.mpr (wp_copiesOut (fun _ => wp_bind.mpr (wp_halt.mpr trivial)) fun j admits =>
    wp_bind.mpr (wp_pure.mpr (wp_pure.mpr ?_)))
  rw [short] at admits
  refine ⟨h.parts.trans (agree_mem (by decide)), fun b hb => ?_⟩
  have out := fun inside => clear b hb ((writes_iff h.parts).mpr ⟨j, admits, inside⟩)
  rw [← h.mem b hb]
  refine if_neg ?_
  rw [short]
  exact out

include quiet

theorem Like.spares {α : Type} {m : M α} (hm : Spares stillParts m) : Keeps G n A (Like W s₀) m :=
  hm.keepsQuietly (fun _ _ => Like.agree) quiet

theorem Sheltering.detach (dev : k.device) {w : Nat} :
    Leads G n A (Sheltering W s₀ a k i) (Like W s₀) (Sawos.detachAttachment w a) := by
  have before : ∀ {α : Type} {m : M α}, Spares (.attachment .state :: stillParts) m →
      Keeps G n A (Sheltering W s₀ a k i) m := fun hm => hm.keepsQuietly (fun _ _ => Sheltering.agree) quiet
  unfold Sawos.detachAttachment
  refine Leads.bind (before (by simp)) fun _ s hs => wp_loop (I := fun _ => Sheltering W s₀ a k i)
    (fun at' s hs => ?_) hs
  split
  · exact wp_pure.mpr hs.1
  refine wp_ite.mpr ⟨fun _ => wp_bind.mpr ?_, fun _ => ?_⟩
  · refine wp_bind.mpr (wp_read.mpr fun _ => ?_)
    have link : Spares (.attachment .state :: stillParts) (attachedLink w at'.1 (s.attachments.slot a).link) := by
      unfold attachedLink
      split
      · exact spares_waiters (by simp +decide)
      · exact spares_attachments (by simp +decide)
    refine wp_bind.mpr ((before link s hs).imp fun _ t ht => wp_bind.mpr ?_)
    obtain ⟨-, kind, target⟩ : ((attachments.get s).slot a).For k i := hs.2
    rw [kind, target]
    refine (Like.spares quiet (spares_setDevice dev) t ht.1).imp fun _ u hu => ?_
    refine (Like.spares quiet ?_ u hu).imp fun _ _ hv => wp_pure.mpr hv
    exact spares_attachments (by simp +decide)
  · exact wp_bind.mpr ((before spares_read s hs).imp fun _ _ ht => wp_pure.mpr ht)

/-- What an interrupt delivers to the thread that waited for it. -/
theorem Sheltering.deliver (dev : k.device) {p d : Nat} (clear : ∀ b, W b → ¬Writes s₀ p d waitMetaEndBytes b) :
    Leads G n A (Sheltering W s₀ a k i) (Like W s₀) (Sawos.deliverAttachment p d a) := by
  have before : ∀ {α : Type} {m : M α}, Spares (.attachment .state :: stillParts) m →
      Keeps G n A (Sheltering W s₀ a k i) m := fun hm => hm.keepsQuietly (fun _ _ => Sheltering.agree) quiet
  refine fun s hs => wp_bind.mpr (wp_read.mpr fun _ => ?_)
  obtain ⟨-, kind, target⟩ : ((attachments.get s).slot a).For k i := hs.2
  rw [kind, target]
  have plain : outletTakeDelivery k i ((attachments.get s).slot a).owns = pure false := by
    cases k with
    | interrupt | timer => rfl
    | _ => cases dev
  have bare : ∀ answer, replyCarriesHandles k answer = false := fun answer => by
    cases k with
    | interrupt | timer => rfl
    | _ => cases dev
  have tells : wp G n (waitableAnswer k i)
      (fun answer t => Sheltering W s₀ a k i t ∧ answer.bodyLen = 0 ∧ answer.body = []) (.leaving A) s := by
    cases k with
    | interrupt | timer => exact wp_bind.mpr (wp_read.mpr fun _ => wp_pure.mpr ⟨hs, rfl, rfl⟩)
    | _ => cases dev
  rw [plain]
  refine wp_bind.mpr (wp_pure.mpr (wp_bind.mpr (tells.imp fun answer t ⟨ht, len, body⟩ => ?_)))
  rw [bare, len, body]
  refine wp_bind.mpr (wp_pure.mpr (wp_bind.mpr ?_))
  have kept : Spares [.attachment .state]
    (deliverWaitRecord p d ⟨((attachments.get s).slot a).key, answer.tag, answer.payload, 0,
    (List.replicate pipeMsgHandles (0, noHandle)).map (·.1),
      noHandle :: (List.replicate pipeMsgHandles (0, noHandle)).map (·.2)⟩ []) := by
    simp +decide
  refine ((ht.1.record clear).and (kept.wp quiet n t)).mono (fun _ => id) (fun _ u hu => ?_) (fun _ => And.left)
    (fun _ _ => trivial)
    fun _ => And.left
  obtain ⟨like, same⟩ := hu
  obtain ⟨state, kind', target', -⟩ : (t.attachments.slot a).state = (u.attachments.slot a).state ∧ _ :=
    same (.attachment .state) (by decide) a
  have still : Sheltering W s₀ a k i u := ⟨like, state ▸ ht.2.1, kind' ▸ ht.2.2.1, target' ▸ ht.2.2.2⟩
  have consume : Spares (.attachment .state :: stillParts) (waitableConsume k i) := by
    cases k with
    | interrupt => exact spares_interrupts (by simp +decide)
    | timer =>
      exact spares_timers (by simp +decide)
    | _ => cases dev
  refine wp_bind.mpr ((before consume u still).imp fun _ v hv => wp_bind.mpr ?_)
  refine (wp_whenever.mpr ⟨fun _ => ?_, fun _ => hv.1⟩).imp fun _ _ hw => wp_pure.mpr hw
  exact (Sheltering.detach quiet dev).bind (fun _ => Like.spares quiet (spares_unrefDevice dev)) v hv

/-- The thread that leaves a Waiter's list is told of, and its record is not written yet. -/
theorem Sheltering.take {w : Nat} {Q : Option Nat → K → Prop} (hs : Sheltering W s₀ a k i s) (empty : Q none s)
    (first : ∀ t u, G (.mark (.move t) s) → Sheltering W s₀ a k i u →
      (u.threads.slot t).process = (s.threads.slot t).process →
      (u.threads.slot t).waitBuf = (s.threads.slot t).waitBuf → Q (some t) u) :
        wp G n (takeBlocked w) Q (.leaving A) s := by
  refine wp_bind.mpr (wp_read.mpr fun _ => ?_)
  cases ((waiters.get s).slot w).blocked with
  | none => exact wp_pure.mpr empty
  | some t =>
    refine wp_bind.mpr (wp_emits.mpr ⟨quiet _ (by simp), fun told => wp_bind.mpr (wp_readThread.mpr fun _ => ?_)⟩)
    have popped : Spares (.thread .waitBuf :: .attachment .state :: stillParts) (waiters.modify w
        ({ · with blocked := (s.threads.slot t).link })) := spares_waiters (by simp +decide)
    have cut : Spares (.thread .waitBuf :: .attachment .state :: stillParts)
      (threads.modify t ({ · with link := none })) :=
      spares_threads (by simp +decide)
    refine wp_bind.mpr (wp_sparesQuietly quiet popped fun _ u same =>
      wp_bind.mpr (wp_sparesQuietly quiet cut fun _ v same' => ?_))
    have both := same.trans same'
    obtain ⟨process, -⟩ : (s.threads.slot t).process = (v.threads.slot t).process ∧ _ :=
      both (.thread .process) (by decide) t
    have waitBuf : (s.threads.slot t).waitBuf = (v.threads.slot t).waitBuf := both (.thread .waitBuf) (by decide) t
    exact wp_pure.mpr (first t v told (hs.agree (both.mono (by decide))) process.symm waitBuf.symm)

variable (aside : ∀ e, G e → Misses W e)
include aside

theorem Sheltering.wake (dev : k.device) {w : Nat} :
    Leads G n A (Sheltering W s₀ a k i) (Like W s₀) (Sawos.wakeOneWaiter w a) := by
  refine fun s hs => wp_bind.mpr (Sheltering.take quiet hs (wp_pure.mpr hs.1) fun t u told hu process waitBuf => ?_)
  refine wp_bind.mpr (wp_readThread.mpr fun _ => wp_bind.mpr ?_)
  rw [process, waitBuf]
  have clear : ∀ b, W b → ¬Writes s₀ (s.threads.slot t).process (s.threads.slot t).waitBuf waitMetaEndBytes b :=
    fun b hb writes => aside _ told b hb ((writes_iff hs.1.parts).mp writes)
  refine (Sheltering.deliver quiet dev clear u hu).imp fun answered v hv => ?_
  have reset : Spares stillParts (threads.modify t ({ · with waitBuf := 0 })) := spares_threads (by simp +decide)
  refine wp_bind.mpr ((Like.spares quiet reset v hv).imp fun _ x hx => ?_)
  exact wp_bind.mpr ((Like.spares quiet (by simp +decide) x hx).imp fun _ y hy =>
    Like.spares quiet (by simp +decide) y hy)

theorem Backed.notifyDevice (dev : k.device) :
    Leads G n A (fun s => Backed s ∧ Like W s₀ s) (Like W s₀) (Sawos.notifyReady k i) := by
  rintro s ⟨backed, same⟩
  have named : ∀ {Q : Option Nat → K → Prop}, Q (s.backLink k i) s →
    wp G n (waitableAttachment k i) Q (.leaving A) s := by
    intro Q hQ
    cases k with
    | interrupt | timer => exact wp_bind.mpr (wp_read.mpr fun _ => wp_pure.mpr hQ)
    | _ => cases dev
  refine wp_bind.mpr (named ?_)
  cases link : s.backLink k i with
  | none => exact wp_pure.mpr same
  | some a => exact wp_bind.mpr (wp_read.mpr fun _ => Sheltering.wake quiet aside dev s ⟨same, (backed k i a link).2⟩)

end

section
variable {A : K → Prop} {s₀ : K} {W : Nat → Prop}

/-- Deliveries are about devices, and the state is like `s₀`. -/
def Sheltered (W : Nat → Prop) (s₀ s : K) : Prop := Backed s ∧ Like W s₀ s

theorem Sheltered.refl (h : Backed s) : Sheltered W s s := ⟨h, .refl⟩

theorem Sheltered.agree (same : Agree (linkParts ++ stillParts) s t) (h : Sheltered W s₀ s) : Sheltered W s₀ t :=
  ⟨h.1.agree (same.mono (by decide)), h.2.agree (same.mono (by decide))⟩

theorem Sheltered.spares {α : Type} {m : M α} (hm : Spares (linkParts ++ stillParts) m) :
    Keeps G n A (Sheltered W s₀) m :=
  hm.keeps fun _ _ => Sheltered.agree

/-- The state that has other bytes outside `W`. -/
theorem Sheltered.write {f : (Nat → UInt8) → Nat → UInt8} (out : ∀ m b, W b → f m b = m b) :
    Keeps G n A (Sheltered W s₀) (modifies fun s => { s with mem := f s.mem } : M Unit) := fun s hs => by
  have same : Agree (linkParts ++ shelteredParts) s { s with mem := f s.mem } := agree_mem (by decide)
  refine wp_modifies.mpr ⟨hs.1.agree (same.mono (by decide)), hs.2.parts.trans (same.mono (by decide)), fun b hb => ?_⟩
  rw [← hs.2.mem b hb]
  exact out s.mem b hb

variable (aside : ∀ e, G e → Misses W e)
include aside

theorem Sheltered.notify (dev : k.device) : Keeps G n A (Sheltered W s₀) (Sawos.notifyReady k i) := fun s hs =>
  ((Backed.watched.ground.notify s hs.1).and (Backed.notifyDevice (A := A) (fun _ _ => trivial) aside dev s hs)).mono
    (fun _ => id) (fun _ _ => id) (fun _ => And.left) (fun _ _ => trivial) fun _ _ => trivial

theorem Sheltered.externalIrq {l : Nat} : Keeps G n A (Sheltered W s₀) (do irqMask l; onExternalIrq l) := by
  unfold onExternalIrq
  refine .bind (Sheltered.spares (by simp +decide)) fun _ => .bind (Sheltered.spares (by simp)) fun found => ?_
  cases found with
  | none => exact keeps_pure
  | some i =>
    exact .bind (Sheltered.spares (spares_interrupts (by simp +decide [InterruptSlot.raise]))) fun _ =>
      Sheltered.notify aside rfl

theorem Sheltered.timerInterrupt : Keeps G n A (Sheltered W s₀) onTimerInterrupt := by
  unfold onTimerInterrupt expireTimers
  refine .bind (Sheltered.spares (by simp +decide)) fun _ => .bind (Sheltered.spares (by simp)) fun _ =>
    .bind (.whenever ?_) fun _ => ?_
  · refine .bind (Sheltered.spares (spares_machine (fun _ => rfl) ?_)) fun _ => Sheltered.spares (by simp +decide)
    simp +decide [K.shape]
  refine .bind (.bind (Sheltered.spares (by simp)) fun _ => .countUp fun _ => ?_) fun _ =>
    Sheltered.spares (by simp +decide)
  refine .bind (Sheltered.spares (by simp)) fun _ => .bind (.whenever (Sheltered.spares ?_)) fun _ => .whenever ?_
  · exact spares_timers (by simp +decide [TimerSlot.seen])
  refine .bind (.whenever (Sheltered.spares (by simp))) fun _ => .bind (Sheltered.spares ?_) fun _ =>
    Sheltered.notify aside rfl
  refine spares_timers fun x => ?_
  cases x with
  | attachment => exact .inl fun _ => (TimerSlot.fire_attachment _ _).symm
  | _ => exact .inr (by decide)

theorem Sheltered.service : Service (linkParts ++ stillParts) G n A (Sheltered W s₀) :=
  ⟨by decide, fun _ _ => trivial, fun _ _ => Sheltered.agree, Sheltered.timerInterrupt aside, fun _ =>
    Sheltered.externalIrq aside⟩

theorem Sheltered.longCopy {dst src len : Nat} (out : ∀ b, W b → ¬(dst ≤ b ∧ b < dst + len)) :
    Keeps G n A (Sheltered W s₀) (longCopy dst src len) :=
  (Sheltered.service aside).inStrides fun d c fits => Sheltered.write (f := fun m => copyBytes m (dst + d) (src + d) c)
    fun m b hb => if_neg fun inside => out b hb (by omega)

theorem Sheltered.longZero {dst len : Nat} (out : ∀ b, W b → ¬(dst ≤ b ∧ b < dst + len)) :
    Keeps G n A (Sheltered W s₀) (longZero dst len) :=
  (Sheltered.service aside).inStrides fun d c fits => Sheltered.write (f := fun m => zeroBytes m (dst + d) c)
    fun m b hb => if_neg fun inside => out b hb (by omega)

end

section
variable {A : K → Prop} {s₀ : K}

/-- Nothing is asked of the memory. -/
abbrev nowhere : Nat → Prop := fun _ => False

theorem misses_nowhere : ∀ e, G e → Misses nowhere e := fun _ _ _ none => none.elim

/-! ### Runs -/

theorem Backed.serviced : Serviced G n A Backed where
  toGround := Backed.watched.ground
  timerInterrupt s hs := (Sheltered.timerInterrupt misses_nowhere s (.refl hs)).imp fun _ _ => And.left
  externalIrq _ s hs := (Sheltered.externalIrq misses_nowhere s (.refl hs)).imp fun _ _ => And.left

/-- A sweep over lines names nothing new. -/
theorem Backed.sweepLines {p : Nat} : Keeps G n A Backed
    (sweep interrupts (fun q => q.process = p && q.state = .live) (fun q => irqMask q.line) .vacant) := by
  refine .bind (Backed.spares (by simp)) fun _ => .countUp fun i => .bind (Backed.spares (by simp)) fun _ =>
    .whenever ?_
  exact .bind (Backed.spares (by simp +decide)) fun _ => Backed.line fun _ => Or.inr rfl

theorem Backed.sweepTimers {p : Nat} : Keeps G n A Backed (do
    sweep timers (fun t => t.process = p && t.state = .live) (fun _ => pure ()) .vacant
    reprogramTimer) := by
  refine .bind (.bind (Backed.spares (by simp)) fun _ => .countUp fun i => ?_) fun _ => Backed.spares (by simp +decide)
  exact .bind (Backed.spares (by simp)) fun _ => .whenever (.bind keeps_pure fun _ => Backed.timer fun _ => Or.inr rfl)

theorem Backed.steady : Steady G n Backed :=
  Backed.serviced.steadyDevices .any (fun _ _ same hs => hs.agree (same.mono (by decide)))
    (fun _ => Backed.sweepLines) fun _ =>
    Backed.sweepTimers

/-- New slots name no attachment, and no attachment that was named is new. -/
theorem Backed.donated (d : Donated s t) (hs : Backed s) : Backed t := by
  have old : ∀ {k i a}, t.backLink k i = some a → s.backLink k i = some a := by
    intro k i a named
    cases k with
    | interrupt =>
      simp only [K.backLink, d.interrupts.slot i] at named ⊢
      split at named
      · cases named
      · exact named
    | timer =>
      simp only [K.backLink, d.timers.slot i] at named ⊢
      split at named
      · cases named
      · exact named
    | _ => exact named
  intro k i a named
  obtain ⟨inCap, live⟩ := hs k i a (old named)
  refine ⟨Nat.lt_of_lt_of_le inCap d.attachments.cap, ?_⟩
  rwa [d.attachments.old inCap]

theorem Backed.bind {q l : Nat} : Keeps G n Backed Backed (interruptBind q l) := by
  have w : Steady G n Backed := Backed.steady
  refine .bind (.whenever (w.faultProcess mortal_any)) fun _ => .bind (Backed.spares (by simp)) fun _ => ?_
  refine .bind (.whenever (w.faultProcess mortal_any)) fun _ => w.create (by simp) fun i => ?_
  refine .bind (Backed.line fun _ => Or.inr rfl) fun _ => .bind (Backed.spares (by simp +decide)) fun _ => ?_
  exact Backed.spares (by simp +decide)

theorem Backed.timerCreate {p c : Nat} : Keeps G n Backed Backed (Sawos.timerCreate p c) := by
  have w : Steady G n Backed := Backed.steady
  exact w.create (by simp) fun i => .bind (Backed.timer fun _ => Or.inr rfl) fun _ => Backed.spares (by simp +decide)

theorem Backed.grounded : SteadyGrounded G n Backed := by
  have about : ∀ s t : K, Agree backedParts s t → Backed s → Backed t := fun _ _ same hs => hs.agree same
  have w : Steady G n Backed := Backed.steady
  exact w.watching (fun _ _ same hs => hs.agree (same.mono (by decide))) (fun _ _ d hs => hs.donated d)
    (fun _ _ => Backed.bind)
    (fun _ _ _ _ => w.interruptOp about (by decide) mortal_any) (fun _ _ _ => w.clockNow about (by decide) mortal_any)
    (fun _ _ => Backed.timerCreate) (fun _ _ _ _ => w.timerArm about (by decide) mortal_any) fun _ =>
      w.timerDisarm about (by decide)

theorem Backed.fresh (hs : s.Fresh) : Backed s := by
  intro k i a named
  cases k with
  | interrupt =>
    rw [K.backLink, hs.interrupts] at named
    cases named
  | timer =>
    rw [K.backLink, hs.timers] at named
    cases named
  | _ => cases named

theorem Backed.reachable (h : ReachableWith G s) : Backed s :=
  Grounded.reachable (fun _ => Backed.grounded) (fun _ s hs =>
    (Backed.serviced (A := fun _ => False)).bootDevices (fun _ _ same hs => hs.agree (same.mono (by decide))) s
      (.fresh hs)) h

end

end

/-! ### What an interrupt leaves as it is -/

/-- From `s` to `t`, nothing has changed but devices, who waits for them, what a process may spend on them, the memory
    in `own`, and the records of the threads that `tr` tells to be moved. -/
structure K.Undisturbed (s : K) (tr : List Ev) (own : Nat → Prop) (t : K) : Prop where
  memories : t.memories = s.memories
  freeRanges : t.freeRanges = s.freeRanges
  ioMemories : t.ioMemories = s.ioMemories
  mappings : t.mappings = s.mappings
  events : t.events = s.events
  pipes : t.pipes = s.pipes
  exchanges : t.exchanges = s.exchanges
  processes : ∀ p, t.processes.slot p = { s.processes.slot p with
    quotaUsed := (t.processes.slot p).quotaUsed, history := (t.processes.slot p).history }
  threads : ∀ i, t.threads.slot i = { s.threads.slot i with
    state := (t.threads.slot i).state, link := (t.threads.slot i).link, waitBuf := (t.threads.slot i).waitBuf }
  waiters : ∀ w, t.waiters.slot w = { s.waiters.slot w with
    attached := (t.waiters.slot w).attached, blocked := (t.waiters.slot w).blocked }
  currentThread : t.currentThread = s.currentThread
  prot : t.prot = s.prot ∧ t.lastProtProcess = s.lastProtProcess
  stats : t.stats = s.stats
  shape : t.shape = s.shape
  mem : ∀ b, t.mem b = s.mem b ∨ own b ∨ ∃ e ∈ tr, Rouses b e

omit [Hal] in
theorem Slab.ext_slots {α : Type} {x y : Slab α} (cap : x.cap = y.cap) (extents : x.extents = y.extents)
    (slot : ∀ i, x.slot i = y.slot i) : x = y := by
  obtain ⟨c, f, e⟩ := x
  obtain ⟨c', f', e'⟩ := y
  obtain rfl : c = c' := cap
  obtain rfl : e = e' := extents
  obtain rfl : f = f' := funext slot
  rfl

omit [Hal] in
theorem MemoryPart.all {v w : MemorySlot} (h : ∀ x : MemoryPart, x.same v w) : w = v := by
  obtain ⟨state, base, len, root⟩ := h .region
  obtain ⟨freeHead, outBytes, dropped, history⟩ := h .pool
  have maps := h .maps
  have refs := h .refs
  have owner := h .owner
  cases v
  cases w
  simp_all

omit [Hal] in
theorem FreeRangePart.all {v w : FreeRange} (h : ∀ x : FreeRangePart, x.same v w) : w = v := by
  obtain ⟨state, base, len⟩ := h .range
  have next := h .next
  cases v
  cases w
  simp_all

omit [Hal] in
theorem IoMemoryPart.all {v w : IoMemorySlot} (h : ∀ x : IoMemoryPart, x.same v w) : w = v := by
  obtain ⟨state, base, len⟩ := h .region
  have refs := h .refs
  have owner := h .owner
  cases v
  cases w
  simp_all

omit [Hal] in
theorem MappingPart.all {v w : MappingSlot} (h : ∀ x : MappingPart, x.same v w) : w = v := by
  obtain ⟨state, target, row, installed⟩ := h .row
  have refs := h .refs
  have owner := h .owner
  cases v
  cases w
  simp_all

omit [Hal] in
theorem EventPart.all {v w : EventSlot} (h : ∀ x : EventPart, x.same v w) : w = v := by
  obtain ⟨state, process, mode⟩ := h .state
  have word := h .word
  have attachment := h .attachment
  have refs := h .refs
  cases v
  cases w
  simp_all

omit [Hal] in
theorem PipePart.all {v w : PipeSlot} (h : ∀ x : PipePart, x.same v w) : w = v := by
  obtain ⟨state, process⟩ := h .state
  have staged := h .staged
  have inlet := h .inletAttachment
  have outlet := h .outletAttachment
  have inletRefs := h .inletRefs
  have outletRefs := h .outletRefs
  cases v
  cases w
  simp_all

omit [Hal] in
theorem ExchangePart.all {v w : Exchange} (h : ∀ x : ExchangePart, x.same v w) : w = v := by
  have state := h .state
  obtain ⟨len, body⟩ := h .data
  have replyRefs := h .replyRefs
  have requestRefs := h .requestRefs
  have replyAttach := h .replyAttach
  have requestAttach := h .requestAttach
  have caller := h .caller
  have next := h .next
  have held := h .held
  cases v
  cases w
  simp_all

section
variable {s t : K}

theorem undisturbed_of_agree {tr : List Ev} {own : Nat → Prop} (h : Agree shelteredParts s t)
    (mem : ∀ b, t.mem b = s.mem b ∨ own b ∨ ∃ e ∈ tr, Rouses b e) : s.Undisturbed tr own t := by
  have same : ∀ x ∈ shelteredParts, x.same s t := h
  have shape : s.shape = t.shape := same (.machine .slabs) (by decide)
  have caps := shape.symm
  simp only [K.shape, List.cons.injEq, Prod.mk.injEq] at caps
  obtain ⟨-, -, events, -, -, -, -, memories, freeRanges, ioMemories, mappings, pipes, exchanges, -⟩ := caps
  constructor
  case memories =>
    exact Slab.ext_slots memories.1 memories.2 fun i => MemoryPart.all fun x =>
      same (.memory x) (by cases x <;> decide) i
  case freeRanges =>
    exact Slab.ext_slots freeRanges.1 freeRanges.2 fun i => FreeRangePart.all fun x => same (.freeRange x)
      (by cases x <;> decide) i
  case ioMemories =>
    exact Slab.ext_slots ioMemories.1 ioMemories.2 fun i => IoMemoryPart.all fun x =>
      same (.ioMemory x) (by cases x <;> decide) i
  case mappings =>
    exact Slab.ext_slots mappings.1 mappings.2 fun i => MappingPart.all fun x =>
      same (.mapping x) (by cases x <;> decide) i
  case events =>
    exact Slab.ext_slots events.1 events.2 fun i => EventPart.all fun x => same (.event x) (by cases x <;> decide) i
  case pipes =>
    exact Slab.ext_slots pipes.1 pipes.2 fun i => PipePart.all fun x => same (.pipe x) (by cases x <;> decide) i
  case exchanges =>
    exact Slab.ext_slots exchanges.1 exchanges.2 fun i => ExchangePart.all fun x =>
      same (.exchange x) (by cases x <;> decide) i
  case processes =>
    intro p
    have part : ∀ x : ProcessPart, .process x ∈ shelteredParts → x.same (s.processes.slot p)
      (t.processes.slot p) := fun x hx =>
      same (.process x) hx p
    have handles := part .handles (by decide)
    have limits := part .limits (by decide)
    obtain ⟨grantCount, grants, imageRows⟩ := part .grants (by decide)
    have state := part .state (by decide)
    have refs := part .refs (by decide)
    have attachment := part .attachment (by decide)
    obtain ⟨bootHandles, bootNext, bootLog⟩ := part .boot (by decide)
    obtain ⟨entry, stackTop, regionBase, regionTop, rwBase, rwTop⟩ := part .image (by decide)
    obtain ⟨exitKind, exitCode⟩ := part .exit (by decide)
    generalize s.processes.slot p = v, t.processes.slot p = w at *
    cases v
    cases w
    simp_all
  case threads =>
    intro i
    have process : (s.threads.slot i).process = (t.threads.slot i).process ∧ _ := same (.thread .process) (by decide) i
    have exitCode : (s.threads.slot i).exitCode = (t.threads.slot i).exitCode := same (.thread .exitCode) (by decide) i
    have joiners : (s.threads.slot i).joiners = (t.threads.slot i).joiners := same (.thread .joiners) (by decide) i
    have callPipe : (s.threads.slot i).callPipe = (t.threads.slot i).callPipe := same (.thread .callPipe) (by decide) i
    have callClaim : (s.threads.slot i).callClaim = (t.threads.slot i).callClaim :=
      same (.thread .callClaim) (by decide) i
    have callArgs : (s.threads.slot i).callSrc = (t.threads.slot i).callSrc ∧ _ :=
      same (.thread .callArgs) (by decide) i
    generalize s.threads.slot i = v, t.threads.slot i = w at *
    cases v
    cases w
    simp_all
  case waiters =>
    intro i
    have state : (s.waiters.slot i).state = (t.waiters.slot i).state ∧ _ := same (.waiter .state) (by decide) i
    have refs : (s.waiters.slot i).refs = (t.waiters.slot i).refs := same (.waiter .refs) (by decide) i
    generalize s.waiters.slot i = v, t.waiters.slot i = w at *
    cases v
    cases w
    simp_all
  case currentThread => exact (same (.machine .current) (by decide) : s.currentThread = t.currentThread).symm
  case prot =>
    have prot : s.prot = t.prot := same (.machine .prot) (by decide)
    have last : s.lastProtProcess = t.lastProtProcess := same (.machine .protProcess) (by decide)
    exact ⟨prot.symm, last.symm⟩
  case stats => exact (same (.machine .stats) (by decide) : s.stats = t.stats).symm
  case shape => exact shape.symm
  case mem => exact mem

/-- A service of interrupts that returns has left everything else as it was. -/
theorem Backed.undisturbed {m : M Unit} {own : Nat → Prop} (hs : Backed s)
    (serves : ∀ n W, (∀ b, W b → ¬own b) → Keeps (Misses W) n (fun _ => False : K → Prop) (Sheltered W s) m)
    {n : Nat} {tr : List Ev}
    (run : m n s = .ok () t tr) : Backed t ∧ s.Undisturbed tr own t := by
  have kept : ∀ W, (∀ b, W b → ¬own b) → (∀ e ∈ tr, Misses W e) → Sheltered W s t := fun W out aside => by
    have kept := serves n W out s (.refl hs)
    rw [Exec.wp, run] at kept
    exact kept.2 aside
  obtain ⟨backed, like⟩ := kept nowhere (fun _ none => none.elim) fun _ _ _ none => none.elim
  refine ⟨backed, undisturbed_of_agree like.parts fun b => ?_⟩
  by_cases mine : own b
  · exact Or.inr (Or.inl mine)
  by_cases roused : ∃ e ∈ tr, Rouses b e
  · exact Or.inr (Or.inr roused)
  · refine Or.inl
      ((kept (· = b) (fun _ same => same ▸ mine) fun e he _ same rouses => roused ⟨e, he, same ▸ rouses⟩).2.mem b rfl)

end

end

section

/-- The root binds line 10, starts a second thread, and waits for the line, with its record at `0x80200800`. -/
def lineAwaited [Hal] : List Stimulus :=
  [.call 2 6 10 0 0, .call 2 5 0 0 0, .call 7 0 6 1 0, .call 2 0 0 0x80201000 0, .call 8 0 0 0 0,
    .call 7 2 0x80200800 256 0]

attribute [local instance] sampleBuild sampleTarget Riscv32.board

/-- A Waiter waits for line 0, whose fire is told to the thread that waits. -/
def firesAwaited (s : K) : Bool :=
  match deliverLine 10 64 s with
  | .ok _ t _ => decide ((s.interrupts.slot 0).attachment = some 0 ∧ s.mem 0x80200800 = 0 ∧ t.mem 0x80200800 = 1)
  | _ => false

end

end Sawos
