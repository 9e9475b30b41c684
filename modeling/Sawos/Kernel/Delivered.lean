import Sawos.Kernel.Handover

/-! # Delivered records decode to what was delivered

The kernel writes a record through the copy door, piece by piece; the receiver decodes its buffer. What comes out is
the key, the answer and the message that went in, with the handles that were minted for it. -/

namespace Sawos
open Exec

section
variable [Hal]

/-! ### The copies of a record -/

/-- One copy through the door: to which user address, where that is, and what. -/
structure Copy where
  va : Nat
  pa : Nat
  data : List UInt8

def Copy.sent (c : Copy) : Nat × List UInt8 := (c.va, c.data)

/-- The door puts a copy where a row of `p` has it, all of it in that row. -/
def Opens (s : K) (p : Nat) (c : Copy) : Prop :=
  ∃ row ∈ (s.processes.slot p).rows, row.device = false ∧ row.base ≤ c.va ∧ c.va + c.data.length ≤ row.top ∧
    c.pa = row.pa + (c.va - row.base)

/-- From `s` to `t`, these copies are made to `p` one after the other, and nothing else happens. -/
def Copies (p : Nat) : K → List Copy → K → Prop
  | s, [], t => t = s
  | s, c :: l, t => Opens s p c ∧ Copies p { s with mem := storeBytes s.mem c.pa c.data } l t

/-- The bytes of a buffer, some of them overwritten. -/
def written (buf : List UInt8) (off : Nat) (data : List UInt8) : List UInt8 :=
  buf.take off ++ data ++ buf.drop (off + data.length)

/-- A buffer at `dst` after copies. -/
def receive (dst : Nat) (buf : List UInt8) (sent : List (Nat × List UInt8)) : List UInt8 :=
  sent.foldl (fun buf c => written buf (c.1 - dst) c.2) buf

/-- What `p` receives in its buffer of `size` bytes at `dst`: no copy leaves the buffer, and one that was `fresh` before
    `reads` so after. -/
structure Received (s t : K) (p dst size : Nat) (l : List Copy) (fresh reads : List UInt8 → Prop) : Prop where
  copied : Copies p s l t
  inside : ∀ c ∈ l, dst ≤ c.va ∧ c.va + c.data.length ≤ dst + size
  whole : ∀ buf, buf.length = size → fresh buf → reads (receive dst buf (l.map Copy.sent))
  /-- In memory, where the door has the buffer in one piece. -/
  memory : ∀ base, (∀ c ∈ l, c.pa = base + (c.va - dst)) → fresh (loadBytes s.mem base size) →
    reads (loadBytes t.mem base size)

omit [Hal] in
theorem loadBytes_storeBytes {mem : Nat → UInt8} {base off size : Nat} {data : List UInt8}
    (fits : off + data.length ≤ size) :
    loadBytes (storeBytes mem (base + off) data) base size = written (loadBytes mem base size) off data := by
  have length : ∀ m, (loadBytes m base size).length = size := fun m => by simp [loadBytes]
  refine List.ext_getElem ?_ fun i hi _ => ?_
  · simp only [length, written, List.length_append, List.length_take, List.length_drop]
    omega
  rw [length] at hi
  simp only [written, List.getElem_append, List.length_append, List.length_take, length,
    List.getElem_take, List.getElem_drop]
  simp only [loadBytes, List.getElem_map, List.getElem_range, storeBytes]
  rcases Nat.lt_or_ge i off with before | behind
  · rw [if_neg (by omega), dif_pos (by omega), dif_pos (by omega)]
  rcases Nat.lt_or_ge i (off + data.length) with within | after
  · rw [if_pos (by omega), dif_pos (by omega), dif_neg (by omega)]
    rw [List.getD_eq_getElem?_getD, List.getElem?_eq_getElem (by omega), Option.getD_some]
    exact getElem_congr rfl (by omega) _
  · rw [if_neg (by omega), dif_neg (by omega)]
    congr 1
    omega

theorem Copies.window {p dst base size : Nat} {s t : K} {l : List Copy} (h : Copies p s l t)
    (inside : ∀ c ∈ l, dst ≤ c.va ∧ c.va + c.data.length ≤ dst + size) (whole : ∀ c ∈ l, c.pa = base + (c.va - dst)) :
    loadBytes t.mem base size = receive dst (loadBytes s.mem base size) (l.map Copy.sent) := by
  induction l generalizing s with
  | nil => rw [show t = s from h]; rfl
  | cons c l ih =>
    obtain ⟨-, rest⟩ := h
    obtain ⟨here, there⟩ := List.forall_mem_cons.mp inside
    obtain ⟨at', others⟩ := List.forall_mem_cons.mp whole
    rw [ih rest there others, at', loadBytes_storeBytes (by omega)]
    rfl

theorem Received.of {s t : K} {p dst size : Nat} {l : List Copy} {fresh reads : List UInt8 → Prop}
    (copied : Copies p s l t) (inside : ∀ c ∈ l, dst ≤ c.va ∧ c.va + c.data.length ≤ dst + size)
    (whole : ∀ buf, buf.length = size → fresh buf → reads (receive dst buf (l.map Copy.sent))) :
    Received s t p dst size l fresh reads where
  copied := copied
  inside := inside
  whole := whole
  memory base placed zero := by
    rw [copied.window inside placed]
    exact whole _ (by simp [loadBytes]) zero

theorem Copies.opens {p : Nat} {s t : K} {l : List Copy} (h : Copies p s l t) : ∀ c ∈ l, Opens s p c := by
  induction l generalizing s with
  | nil => exact fun _ hc => absurd hc List.not_mem_nil
  | cons c l ih => exact List.forall_mem_cons.mpr ⟨h.1, fun c' hc => ih h.2 c' hc⟩

theorem Copies.processes {p : Nat} {s t : K} {l : List Copy} (h : Copies p s l t) : t.processes = s.processes := by
  induction l generalizing s with
  | nil => rw [show t = s from h]
  | cons c l ih =>
    have rest := ih h.2
    exact rest

/-- What is received where every row of the process is at its own addresses. -/
theorem Received.inPlace {s t : K} {p dst size : Nat} {l : List Copy} {fresh reads : List UInt8 → Prop}
    (h : Received s t p dst size l fresh reads) (rows : ∀ row ∈ (s.processes.slot p).rows, row.pa = row.base)
    (new : fresh (loadBytes s.mem dst size)) : reads (loadBytes t.mem dst size) := by
  refine h.memory dst (fun c hc => ?_) new
  obtain ⟨row, mem, -, low, -, at'⟩ := h.copied.opens c hc
  have above := (h.inside c hc).1
  rw [at', rows row mem]
  omega

theorem Received.imp {s t : K} {p dst size : Nat} {l : List Copy} {fresh reads reads' : List UInt8 → Prop}
    (h : Received s t p dst size l fresh reads) (weaker : ∀ buf, reads buf → reads' buf) :
      Received s t p dst size l fresh reads' where
  copied := h.copied
  inside := h.inside
  whole buf length zero := weaker _ (h.whole buf length zero)
  memory base placed zero := weaker _ (h.memory base placed zero)

/-- A record's fixed part, and a body behind it if there is one. -/
def pieces (dst : Nat) (fixed body : List UInt8) : List (Nat × List UInt8) :=
  (dst, fixed) :: if body = [] then [] else [(dst + fixed.length, body)]

omit [Hal] in
theorem receive_pieces {dst : Nat} {fixed body buf : List UInt8}
    (zero : buf.drop fixed.length = List.replicate pipeBodyBytes 0) :
    receive dst buf (pieces dst fixed body) = fixed ++ (body ++ List.replicate (pipeBodyBytes - body.length) 0) := by
  have first : written buf (dst - dst) fixed = fixed ++ List.replicate pipeBodyBytes 0 := by
    simp [written, zero]
  by_cases empty : body = []
  · simp only [pieces, empty, if_true, receive, List.foldl_cons, List.foldl_nil, first]
    rfl
  · simp only [pieces, empty, if_false, receive, List.foldl_cons, List.foldl_nil, first]
    have off : dst + fixed.length - dst = fixed.length := by omega
    rw [off, written, List.take_left, List.drop_length_add_append, List.drop_replicate, List.append_assoc]

omit [Hal] in
theorem inside_pieces {dst size : Nat} {fixed body : List UInt8} {l : List Copy}
    (sent : l.map Copy.sent = pieces dst fixed body)
    (fits : fixed.length + body.length ≤ size) : ∀ c ∈ l, dst ≤ c.va ∧ c.va + c.data.length ≤ dst + size := by
  intro c hc
  have mem : c.sent ∈ pieces dst fixed body := sent ▸ List.mem_map_of_mem hc
  rcases List.mem_cons.mp mem with first | second
  · obtain ⟨va, data⟩ := Prod.mk.inj first
    rw [va, data]; omega
  · split at second
    · cases second
    · obtain ⟨va, data⟩ := Prod.mk.inj (List.mem_singleton.mp second)
      rw [va, data]; omega

/-! ### The handles of a message -/

/-- The wrapper of a kind around a word. -/
def wrapped : ObjType → Nat → Option Sos.PipeHandle
  | .memory, w => some (.memory w)
  | .ioMemory, w => some (.ioMemory w)
  | .pipeInlet, w => some (.inlet w)
  | .pipeOutlet, w => some (.outlet w)
  | .pipeReply, w => some (.reply w)
  | .pipeRequest, w => some (.request w)
  | _, _ => none

theorem Suits.decodes {ref : StagedRef} {m : Nat × Nat} (h : Suits ref m) :
    Sos.decodeHandle m.1 m.2 = .ok (wrapped ref.objType m.2) := by
  obtain ⟨unbound, rfl⟩ | ⟨kind, known, word, bound, -⟩ := h
  · rw [unbound]; rfl
  · rw [Sos.decodeHandle, if_neg bound, word, BootHandleKind.ofRaw_word]
    cases type : ref.objType <;> simp only [msgKindOf, bootKindOf, type, reduceCtorEq, Option.some.injEq] at known <;>
      subst known <;> rfl

theorem Suits.spelled {ref : StagedRef} {m : Nat × Nat} (h : Suits ref m) : m.1 < 256 ∧ m.2 < wordModulus := by
  obtain ⟨-, rfl⟩ | ⟨kind, -, word, -, fits⟩ := h
  · exact ⟨by decide, Nat.two_pow_pos _⟩
  · refine ⟨?_, fits⟩
    rw [word]
    cases kind <;> decide

theorem Filled.spelled {held : Nat → StagedRef} {moved : StagedHandles} (h : Filled held moved) :
    (∀ k ∈ moved.map (·.1), k < 256) ∧ ∀ w ∈ moved.map (·.2), w < wordModulus := by
  have slot : ∀ m ∈ moved, m.1 < 256 ∧ m.2 < wordModulus := by
    intro m hm
    obtain ⟨i, hi, rfl⟩ := List.mem_iff_getElem.mp hm
    have fills := h.fills i (h.four ▸ hi)
    rw [List.getD_eq_getElem?_getD, List.getElem?_eq_getElem hi] at fills
    exact fills.spelled
  constructor
  · rintro k hk
    obtain ⟨m, hm, rfl⟩ := List.mem_map.mp hk
    exact (slot m hm).1
  · rintro w hw
    obtain ⟨m, hm, rfl⟩ := List.mem_map.mp hw
    exact (slot m hm).2

omit [Hal] in
theorem mapM_ok {ε α β : Type} {f : α → Except ε β} {g : α → β} {l : List α} (h : ∀ a ∈ l, f a = .ok (g a)) :
    l.mapM f = .ok (l.map g) := by
  induction l with
  | nil => rfl
  | cons a l ih =>
    obtain ⟨first, rest⟩ := List.forall_mem_cons.mp h
    rw [List.mapM_cons, first, ih rest]
    rfl

/-- The message that was delivered, in the words that its handles were minted under. -/
def message (held : Nat → StagedRef) (moved : StagedHandles) (len : Nat) (body : List UInt8) : Sos.PipeMsg :=
  ⟨len, (List.range pipeMsgHandles).map fun i => wrapped (held i).objType (moved.getD i (0, noHandle)).2,
    body ++ List.replicate (pipeBodyBytes - body.length) 0⟩

theorem Filled.msgOf {held : Nat → StagedRef} {moved : StagedHandles} (h : Filled held moved)
    {len : Nat} {body : List UInt8} :
    Sos.msgOf ⟨len, moved.map (·.1)⟩ (moved.map (·.2)) (body ++ List.replicate (pipeBodyBytes - body.length) 0) =
      .ok (message held moved len body) := by
  have slots : ∀ i ∈ List.range pipeMsgHandles, Sos.decodeHandle ((moved.map (·.1)).getD i 0)
    ((moved.map (·.2)).getD i noHandle) =
      .ok (wrapped (held i).objType (moved.getD i (0, noHandle)).2) := by
    intro i hi
    have kind : (moved.map (·.1)).getD i 0 = (moved.getD i (0, noHandle)).1 := by
      cases found : moved[i]? <;> simp [List.getD_eq_getElem?_getD, found]
    have word : (moved.map (·.2)).getD i noHandle = (moved.getD i (0, noHandle)).2 := by
      cases found : moved[i]? <;> simp [List.getD_eq_getElem?_getD, found]
    rw [kind, word]
    exact (h.fills i (List.mem_range.mp hi)).decodes
  rw [Sos.msgOf, mapM_ok slots]
  rfl

section
variable {G : Ev → Prop} {n p : Nat} {s : K}

/-! ### The copy door -/

theorem wp_translateUser {va bytes : Nat} {Q : Except FaultReason Nat → K → Prop} (no : ∀ why, Q (.error why) s)
    (yes : ∀ row ∈ (s.processes.slot p).rows, row.device = false → row.base ≤ va → va + bytes ≤ row.top →
      Q (.ok (row.pa + (va - row.base))) s) : wp G n (translateUser p va bytes) Q Unasked s := by
  refine wp_bind.mpr (wp_readProcess.mpr fun _ => ?_)
  cases found : (s.processes.slot p).rows.find? fun row => !row.device && row.base ≤ va && va < row.top with
  | none => exact wp_pure.mpr (no _)
  | some row =>
    have covers := List.find?_some found
    simp only [Bool.and_eq_true, Bool.not_eq_true', decide_eq_true_eq] at covers
    obtain ⟨⟨memory, above⟩, below⟩ := covers
    refine wp_ite.mpr ⟨fun _ => wp_pure.mpr (no _), fun long => wp_bind.mpr (wp_addWord.mpr fun _ => wp_pure.mpr ?_)⟩
    exact yes row (List.mem_of_find?_eq_some found) memory above (by omega)

theorem wp_copyOut {dst : Nat} {data : List UInt8} {Q : Option FaultReason → K → Prop} (no : ∀ why, Q (some why) s)
    (yes : ∀ pa, Opens s p ⟨dst, pa, data⟩ → Q none { s with mem := storeBytes s.mem pa data }) :
    wp G n (copyOut p dst data) Q Unasked s := by
  refine wp_bind.mpr (looks_copyOutCheck.wp fun refused => ?_)
  cases refused with
  | some why => exact wp_pure.mpr (no why)
  | none =>
    refine wp_bind.mpr (wp_translateUser (fun why => wp_pure.mpr (no why)) fun row hrow memory above inside => ?_)
    refine wp_bind.mpr (wp_modifies.mpr (wp_pure.mpr (yes _ ⟨row, hrow, memory, above, inside, rfl⟩)))

/-- A copy to its place, and one of the body behind it; a refused one is not returned from. -/
theorem wp_pieces {dst off : Nat} {fixed body : List UInt8} {again : Bool} {check : Option FaultReason → M Unit}
    {Q : Unit → K → Prop} (passes : check none = pure ()) (stops : ∀ why t R, wp G n (check (some why)) R Unasked t)
    (behind : again = true → off = fixed.length) (some' : again = !body.isEmpty)
    (hQ : ∀ l t, Copies p s l t → l.map Copy.sent = pieces dst fixed body → Q () t) :
    wp G n (do
      check (← copyOut p dst fixed)
      whenever again do
        check (← copyOut p (← addWord dst off) body)) Q Unasked s := by
  subst some'
  refine wp_bind.mpr (wp_copyOut (fun why => wp_bind.mpr (stops why _ _)) fun pa opens => ?_)
  rw [passes]
  refine wp_bind.mpr (wp_pure.mpr (wp_whenever.mpr ⟨fun more => ?_, fun empty => ?_⟩))
  · rw [behind more]
    refine wp_bind.mpr (wp_addWord.mpr fun _ =>
      wp_bind.mpr (wp_copyOut (fun why => stops why _ _) fun pa' opens' => ?_))
    rw [passes]
    refine wp_pure.mpr (hQ [⟨dst, pa, fixed⟩, ⟨dst + fixed.length, pa', body⟩] _ ⟨opens, opens', rfl⟩ ?_)
    have some' : body ≠ [] := by simpa using more
    simp [pieces, Copy.sent, some']
  · have none' : body = [] := by simpa using empty
    exact hQ [⟨dst, pa, fixed⟩] _ ⟨opens, rfl⟩ (by simp [pieces, Copy.sent, none'])

theorem wp_piecesThen {α : Type} {dst off : Nat} {fixed body : List UInt8} {again : Bool}
    {check : Option FaultReason → M Unit}
    {k : M α} {Q : α → K → Prop} (passes : check none = pure ())
    (stops : ∀ why t R, wp G n (check (some why)) R Unasked t)
    (behind : again = true → off = fixed.length) (some' : again = !body.isEmpty)
    (hQ : ∀ l t, Copies p s l t → l.map Copy.sent = pieces dst fixed body → wp G n k Q Unasked t) :
    wp G n (do
      check (← copyOut p dst fixed)
      whenever again do
        check (← copyOut p (← addWord dst off) body)
      k) Q Unasked s := by
  simpa only [bind_assoc] using wp_bind.mpr
    (wp_pieces (Q := fun _ t => wp G n k Q Unasked t) passes stops behind some' hQ)

omit [Hal] in
theorem some_bytes {body : List UInt8} {len : Nat} (length : body.length = len) : decide (len ≠ 0) = !body.isEmpty := by
  subst length
  cases body <;> simp

theorem wp_copyRecord {dst off : Nat} {fixed body : List UInt8} {Q : Unit → K → Prop} (behind : off = fixed.length)
    (hQ : ∀ l t, Copies p s l t → l.map Copy.sent = pieces dst fixed body → Q () t) :
    wp G n (copyRecord p dst fixed off body) Q Unasked s :=
  wp_pieces rfl (fun _ _ _ => wp_fault_never) (fun _ => behind) rfl hQ

/-! ### Wait records -/

/-- A record whose fields fit, with its body. -/
structure WaitPrefix.Formed (rec : WaitPrefix) (body : List UInt8) : Prop where
  key : rec.key < wordModulus
  payload : rec.payload < wordModulus
  four : rec.kinds.length = pipeMsgHandles
  five : rec.handles.length = waitHandleSlots
  kinds : ∀ k ∈ rec.kinds, k < 256
  handles : ∀ w ∈ rec.handles, w < wordModulus
  body : body.length = rec.len
  len : rec.len ≤ pipeBodyBytes

/-- The record up to its handles, and all of its fixed part. -/
def WaitPrefix.head (rec : WaitPrefix) : List UInt8 :=
  Sos.wordsBytes [rec.key, rec.tag.word, rec.payload] ++ msgMetaBytes rec.len rec.kinds

/-- What the kernel sends of a record. -/
def WaitPrefix.sent (rec : WaitPrefix) (dst : Nat) (body : List UInt8) : List (Nat × List UInt8) :=
  pieces dst (if rec.carries then rec.bytes else rec.bytes.take waitMetaEndBytes) body

/-- What a buffer holds of a record. -/
def WaitPrefix.buffer (rec : WaitPrefix) (body : List UInt8) : Sos.WaitBuffer :=
  ⟨[rec.key, rec.tag.word, rec.payload], ⟨rec.len, rec.kinds⟩, rec.handles,
    body ++ List.replicate (pipeBodyBytes - body.length) 0⟩

theorem WaitTag.word_lt (h : Sos.Profiled) (t : WaitTag) : t.word < wordModulus := by
  have small : t.word < 9 := by cases t <;> decide
  rcases h with width | width <;> rw [wordModulus, width] <;> omega

section
variable {rec : WaitPrefix} {body : List UInt8} (f : rec.Formed body)
include f

theorem WaitPrefix.Formed.length :
    rec.head.length = waitMetaEndBytes ∧ rec.bytes = rec.head ++ Sos.wordsBytes rec.handles ∧
    rec.bytes.length = waitPrefixBytes := by
  have head : rec.head.length = waitMetaEndBytes := by
    rw [WaitPrefix.head, List.length_append, Sos.length_wordsBytes, Sos.length_msgMetaBytes f.four]
    rfl
  have bytes : rec.bytes = rec.head ++ Sos.wordsBytes rec.handles := by
    simp [WaitPrefix.bytes, WaitPrefix.head, Sos.wordsBytes]
  refine ⟨head, bytes, ?_⟩
  rw [bytes, List.length_append, head, Sos.length_wordsBytes, f.five, waitPrefixBytes]

theorem WaitPrefix.Formed.spelled (h : Sos.Profiled) :
    Sos.Spelled [rec.key, rec.tag.word, rec.payload] rec.len rec.kinds rec.handles
    (body ++ List.replicate (pipeBodyBytes - body.length) 0) where
  front := by simp [f.key, f.payload, WaitTag.word_lt h]
  len := Nat.lt_of_le_of_lt f.len (by decide)
  four := f.four
  kinds := f.kinds
  words := f.handles
  body := by
    have := f.len
    rw [List.length_append, List.length_replicate, f.body]; omega

theorem WaitPrefix.Formed.ofBytes (h : Sos.Profiled) :
    Sos.WaitBuffer.ofBytes (rec.bytes ++ (body ++ List.replicate (pipeBodyBytes - body.length) 0)) =
      rec.buffer body := by
  have read := Sos.WaitBuffer.ofBytes_layout (f.spelled h) h rfl f.five
  rw [← WaitPrefix.buffer, Sos.layout, ← List.append_assoc, ← WaitPrefix.head, ← List.append_assoc,
    ← f.length.2.1] at read
  exact read

/-- Without a byte and without a handle there is only a head. -/
theorem WaitPrefix.Formed.bare (none' : rec.carries = false) :
    body = [] ∧ rec.len = 0 ∧ rec.handles = List.replicate waitHandleSlots noHandle := by
  simp only [WaitPrefix.carries, Bool.or_eq_false_iff, decide_eq_false_iff_not, not_not, List.any_eq_false,
    decide_eq_true_eq] at none'
  refine ⟨List.length_eq_zero_iff.mp (f.body.trans none'.1), none'.1, List.eq_replicate_iff.mpr ⟨f.five, none'.2⟩⟩

theorem WaitPrefix.Formed.receive (h : Sos.Profiled) {dst : Nat} {buf : List UInt8}
    (length : buf.length = waitRecordBytes)
    (fresh : Sos.WaitBuffer.ofBytes buf = .fresh) :
      Sos.WaitBuffer.ofBytes (receive dst buf (rec.sent dst body)) = rec.buffer body := by
  obtain ⟨full, short⟩ := Sos.WaitBuffer.zeros h length fresh
  obtain ⟨head, bytes, fixed⟩ := f.length
  rw [← f.ofBytes h, WaitPrefix.sent]
  cases carries : rec.carries with
  | true =>
    rw [if_pos rfl, receive_pieces (fixed ▸ full)]
  | false =>
    obtain ⟨rfl, -, handles⟩ := f.bare carries
    have zero : Sos.wordsBytes rec.handles = List.replicate (waitHandleSlots * wordBytes) 0 := by
      rw [handles]; exact Sos.wordsBytes_zero
    rw [if_neg Bool.false_ne_true, bytes, List.take_left' head, zero]
    simp only [pieces, if_true, Sawos.receive, List.foldl_cons, List.foldl_nil, Nat.sub_self, written,
      List.take_zero, List.nil_append, Nat.zero_add, head, short, List.length_nil, Nat.sub_zero, List.append_assoc]

theorem WaitPrefix.Formed.received (h : Sos.Profiled) {dst p : Nat} {s t : K} {l : List Copy} (copied : Copies p s l t)
    (sent : l.map Copy.sent = rec.sent dst body) :
      Received s t p dst waitRecordBytes l (Sos.WaitBuffer.ofBytes · = .fresh)
      (Sos.WaitBuffer.ofBytes · = rec.buffer body) := by
  refine .of copied (inside_pieces sent ?_) fun buf length fresh => ?_
  · have prefix' : (if rec.carries then rec.bytes else rec.bytes.take waitMetaEndBytes).length ≤ waitPrefixBytes := by
      rw [← f.length.2.2]
      split
      · exact Nat.le_refl _
      · exact List.length_take_le' _ _
    have room := f.len
    rw [f.body, waitRecordBytes]
    omega
  · rw [sent]
    exact f.receive h length fresh

theorem wp_deliverWaitRecord {G : Ev → Prop} {n p dst : Nat} {s : K} {Q : Unit → K → Prop}
    (hQ : ∀ l t, Copies p s l t → l.map Copy.sent = rec.sent dst body → Q () t) :
    wp G n (deliverWaitRecord p dst rec body) Q Unasked s := by
  refine wp_pieces rfl (fun _ _ _ => wp_whenever.mpr ⟨fun _ => wp_halt.mpr trivial, nofun⟩) (fun more => ?_) ?_ hQ
  · have carries : rec.carries = true := by simp [WaitPrefix.carries, of_decide_eq_true more]
    rw [if_pos carries, f.length.2.2]
  · exact some_bytes f.body

end

/-! ### Deliveries, up to their record and after it -/

def writeTake (p dst key c : Nat) : M (Except SosStatus Nat) := do
  match ← stagePeek c with
  | none => fatalKernel
  | some x =>
    if ← tableRoom p ((← stagedCount x) + 1) then
      let request ← mintHandle p .pipeRequest pipeRequestRights x
      whenever (request = noHandle) fatalKernel
      let moved ← mintStaged x p
      let ex ← exchanges.read x
      deliverWaitRecord p dst
        ⟨key, .message, outletLevelMsg, ex.len, moved.map (·.1), request :: moved.map (·.2)⟩ (ex.body.take ex.len)
      return .ok x
    else
      return .error (← mintRefusal p)

def endTake (waiter a c : Nat) (ends : Bool) : Except SosStatus Nat → M SosStatus
  | .error why => return why
  | .ok x => do
    stagePop c
    exchanges.modify x ({ · with requestRefs := 1, state := .taken })
    Cascade.endAttachment unrefObject ends waiter a .pipeOutlet c
    return .ok

theorem deliverTake_eq {p dst key waiter a c : Nat} {ends : Bool} :
    Cascade.deliverTake unrefObject p dst key waiter a c ends = writeTake p dst key c >>= endTake waiter a c ends := by
  refine (bind_then fun found => ?_).symm
  cases found with
  | none => rfl
  | some x =>
    refine bind_then fun count => bind_then fun room => ?_
    cases room with
    | false => exact (bind_then fun _ => pure_then).trans then_pure
    | true =>
      refine bind_then fun _ => bind_then fun _ => bind_then fun _ => bind_then fun _ => bind_then fun _ => ?_
      exact pure_then

def writeAnswer (p dst : Nat) (att : Attachment) : M (Except SosStatus Unit) := do
  let answer ← waitableAnswer att.kind att.target
  match ← Cascade.mintReply unrefObject (replyCarriesHandles att.kind answer) att.target p with
  | none => return .error (← mintRefusal p)
  | some moved =>
    deliverWaitRecord p dst
      ⟨att.key, answer.tag, answer.payload, answer.bodyLen, moved.map (·.1), noHandle :: moved.map (·.2)⟩ answer.body
    return .ok ()

def endAnswer (a : Nat) (att : Attachment) (ends : Bool) : Except SosStatus Unit → M SosStatus
  | .error why => return why
  | .ok () => do
    waitableConsume att.kind att.target
    Cascade.endAttachment unrefObject ends att.waiter a att.kind att.target
    return .ok

theorem deliverAttachment_eq {p dst a : Nat} : deliverAttachment p dst a = (do
    let att ← attachments.read a
    let ends := att.oneshot || deliveryConsumes att.kind
    if ← outletTakeDelivery att.kind att.target att.owns then
      writeTake p dst att.key att.target >>= endTake att.waiter a att.target ends
    else
      writeAnswer p dst att >>= endAnswer a att ends) := by
  show Cascade.deliverAttachment unrefObject p dst a = _
  unfold Cascade.deliverAttachment
  refine congrArg _ (funext fun att => ?_)
  extract_lets ends
  refine congrArg _ (funext fun taken => ?_)
  cases taken with
  | true => exact deliverTake_eq
  | false =>
    refine (bind_then fun answer => bind_then fun moved => ?_).symm
    cases moved with
    | none => exact (bind_then fun _ => pure_then).trans then_pure
    | some moved => exact bind_then fun _ => pure_then

/-- A reply that is resolved, up to its record. -/
def writeReply (p x dst : Nat) : M (Except SosStatus Nat) := do
  if ← tableRoom p (← stagedCount x) then
    let len := (← exchanges.read x).len
    let moved ← mintStaged x p
    copyRecord p dst (msgPrefix len moved) pipeMsgBodyOffset ((← exchanges.read x).body.take len)
    return .ok len
  else
    return .error (← mintRefusal p)

def endReply (p word x : Nat) : Except SosStatus Nat → M SyscallResult
  | .error why => do
    consumeEntry p word .pipeReply x
    return opStatus why
  | .ok len => do
    consumeEntry p word .pipeReply x
    return opValue len

theorem resolveReplied_eq {p word x dst : Nat} :
    resolveReplied p word x dst = writeReply p x dst >>= endReply p word x := by
  refine (bind_then fun count => bind_then fun room => ?_).symm
  cases room with
  | false => exact bind_then fun _ => pure_then
  | true => exact bind_then fun _ => bind_then fun _ => bind_then fun _ => bind_then fun _ => pure_then

/-! ### What a waitable answers -/

/-- What there is to hear of a waitable, with the message that a reply brings. -/
def heard (s : K) : WaitableKind → Nat → Sos.PipeMsg → Sos.WaitPayload
  | .event, slot, _ => .event (s.events.slot slot).word
  | .interrupt, slot, _ => .interrupt (s.interrupts.slot slot).line
  | .timer, slot, _ => .timer (s.timers.slot slot).fires
  | .process, slot, _ => .process (processStatusWord (s.processes.slot slot).exitKind (s.processes.slot slot).exitCode)
  | .pipeOutlet, slot, _ => .readable (if (s.pipes.slot slot).staged.isSome then .msg else .peerGone)
  | .pipeInlet, slot, _ => .room (if (s.pipes.slot slot).outletRefs = 0 then .peerGone else .room)
  | .pipeReply, slot, msg => .reply (if (s.exchanges.slot slot).state = .replied then .data msg else .peerClosed)
  | .pipeRequest, _, _ => .abandoned

/-- A message no longer than a body, whose bytes are there. -/
def Exchange.Fits (ex : Exchange) : Prop := ex.len ≤ pipeBodyBytes ∧ ex.len ≤ ex.body.length

instance {ex : Exchange} : Decidable ex.Fits := inferInstanceAs (Decidable (_ ∧ _))

/-- The exchange whose message an answer brings: a reply's that has come, or an empty one. -/
def brought (s : K) (kind : WaitableKind) (slot : Nat) : Exchange :=
  if kind = .pipeReply ∧ (s.exchanges.slot slot).state = .replied then s.exchanges.slot slot else .vacant

/-- What a waitable counts is a machine word, and its message fits. -/
def Tellable (s : K) : WaitableKind → Nat → Prop
  | .event, slot => (s.events.slot slot).word < wordModulus
  | .interrupt, slot => (s.interrupts.slot slot).line < wordModulus
  | .timer, slot => (s.timers.slot slot).fires < wordModulus
  | .pipeReply, slot => (s.exchanges.slot slot).Fits
  | .process, _ | .pipeOutlet, _ | .pipeInlet, _ | .pipeRequest, _ => True

/-- An answer that decodes to what there is to hear. -/
structure Conveys (s : K) (kind : WaitableKind) (slot : Nat) (answer : WaitAnswer) : Prop where
  payload : answer.payload < wordModulus
  bodyLen : answer.bodyLen = (brought s kind slot).len
  body : answer.body = (brought s kind slot).body.take answer.bodyLen
  fits : (brought s kind slot).Fits
  carries : replyCarriesHandles kind answer = true ↔ kind = .pipeReply ∧ (s.exchanges.slot slot).state = .replied
  decodes : ∀ {key : Nat} {packed : Sos.PipeMsgMeta} {handles : List Nat} {bytes : List UInt8} {msg : Sos.PipeMsg},
    Sos.waitMessage ⟨[key, answer.tag.word, answer.payload], packed, handles, bytes⟩ = .ok msg →
      Sos.decodeWait ⟨[key, answer.tag.word, answer.payload], packed, handles, bytes⟩ = .ok ⟨key, heard s kind slot msg⟩

/-- An answer without a message. -/
theorem Conveys.word {kind : WaitableKind} {slot payload : Nat} {tag : WaitTag} (fits : payload < wordModulus)
    (level : replyCarriesHandles kind ⟨tag, payload, 0, []⟩ = false)
    (nothing : ¬(kind = .pipeReply ∧ (s.exchanges.slot slot).state = .replied))
    (decodes : ∀ key packed handles bytes msg,
      Sos.decodeWait ⟨[key, tag.word, payload], packed, handles, bytes⟩ = .ok ⟨key, heard s kind slot msg⟩) :
    Conveys s kind slot ⟨tag, payload, 0, []⟩ where
  payload := fits
  bodyLen := by rw [brought, if_neg nothing]; rfl
  body := by rw [brought, if_neg nothing]; rfl
  fits := by rw [brought, if_neg nothing]; exact ⟨Nat.zero_le _, Nat.zero_le _⟩
  carries := iff_of_false (by rw [level]; nofun) nothing
  decodes _ := decodes _ _ _ _ _

theorem lt_wordModulus (h : Sos.Profiled) {v : Nat} (hv : v < 2 ^ 32) : v < wordModulus := by
  rcases h with width | width <;> rw [wordModulus, width] <;> omega

omit [Hal] in
theorem processStatusWord_lt {kind : ProcessStatusKind} {code : Nat} : processStatusWord kind code < 2 ^ 32 := by
  refine Nat.or_lt_two_pow ?_ (Nat.lt_of_le_of_lt Nat.and_le_right (by decide))
  cases kind <;> decide

theorem wp_waitableAnswer (h : Sos.Profiled) {kind : WaitableKind} {slot : Nat} (tell : Tellable s kind slot) :
    wp G n (waitableAnswer kind slot) (fun answer t => t = s ∧ Conveys s kind slot answer) Unasked s := by
  have wide : ∀ {v : Nat}, v < 2 ^ 32 → v < wordModulus := lt_wordModulus h
  cases kind with
  | event => exact wp_bind.mpr (wp_read.mpr fun _ => wp_pure.mpr ⟨rfl, .word tell rfl nofun fun _ _ _ _ _ => rfl⟩)
  | interrupt => exact wp_bind.mpr (wp_read.mpr fun _ => wp_pure.mpr ⟨rfl, .word tell rfl nofun fun _ _ _ _ _ => rfl⟩)
  | timer => exact wp_bind.mpr (wp_read.mpr fun _ => wp_pure.mpr ⟨rfl, .word tell rfl nofun fun _ _ _ _ _ => rfl⟩)
  | process =>
    exact wp_bind.mpr (wp_read.mpr fun _ =>
      wp_pure.mpr ⟨rfl, .word (wide processStatusWord_lt) rfl nofun fun _ _ _ _ _ => rfl⟩)
  | pipeOutlet =>
    refine wp_bind.mpr (wp_read.mpr fun _ => ?_)
    cases staged : ((pipes.get s).slot slot).staged.isSome <;> simp only [if_true, Bool.false_eq_true, if_false]
    · refine wp_pure.mpr ⟨rfl, .word (wide (by decide)) rfl nofun fun _ _ _ _ _ => ?_⟩
      simp [heard, show (s.pipes.slot slot).staged.isSome = false from staged]; rfl
    · refine wp_pure.mpr ⟨rfl, .word (wide (by decide)) rfl nofun fun _ _ _ _ _ => ?_⟩
      simp [heard, show (s.pipes.slot slot).staged.isSome = true from staged]; rfl
  | pipeInlet =>
    refine wp_bind.mpr (wp_read.mpr fun _ => ?_)
    by_cases gone : ((pipes.get s).slot slot).outletRefs = 0
    · simp only [gone, if_true]
      refine wp_pure.mpr ⟨rfl, .word (wide (by decide)) rfl nofun fun _ _ _ _ _ => ?_⟩
      simp [heard, show (s.pipes.slot slot).outletRefs = 0 from gone]; rfl
    · simp only [gone, if_false]
      refine wp_pure.mpr ⟨rfl, .word (wide (by decide)) rfl nofun fun _ _ _ _ _ => ?_⟩
      simp [heard, show (s.pipes.slot slot).outletRefs ≠ 0 from gone]; rfl
  | pipeReply =>
    refine wp_bind.mpr (wp_read.mpr fun _ => wp_pure.mpr ⟨rfl, ?_⟩)
    by_cases replied : ((exchanges.get s).slot slot).state = .replied
    · have state : (s.exchanges.slot slot).state = .replied := replied
      have here : brought s .pipeReply slot = s.exchanges.slot slot := if_pos ⟨rfl, state⟩
      rw [if_pos replied]
      refine ⟨wide (Nat.two_pow_pos 32), by rw [here]; rfl, by rw [here]; rfl, by rw [here]; exact tell,
        iff_of_true rfl ⟨rfl, state⟩, fun message => ?_⟩
      simp only [heard, if_pos state]
      exact Sos.decodeWait_data message
    · have state : (s.exchanges.slot slot).state ≠ .replied := replied
      rw [if_neg replied]
      refine .word (wide (by decide)) rfl (fun both => state both.2) fun _ _ _ _ _ => ?_
      simp only [heard, if_neg state]
      rfl
  | pipeRequest => exact wp_pure.mpr ⟨rfl, .word (wide (by decide)) rfl nofun fun _ _ _ _ _ => rfl⟩

/-! ### What a delivery hands over -/

/-- A copy that stops short of the handles is made only of a record without a handle and without a byte. -/
def Short (l : List Copy) (words : List Nat) (len : Nat) : Prop :=
  ∀ c ∈ l.head?, c.data.length < waitPrefixBytes → len = 0 ∧ ∀ w ∈ words, w = noHandle

theorem WaitPrefix.Formed.short {rec : WaitPrefix} {body : List UInt8} (f : rec.Formed body) {dst : Nat} {l : List Copy}
    (sent : l.map Copy.sent = rec.sent dst body) : Short l rec.handles rec.len := by
  intro c hc less
  have data : c.data = if rec.carries then rec.bytes else rec.bytes.take waitMetaEndBytes := by
    have first : (l.map Copy.sent).head? = some c.sent := by
      rw [List.head?_map, hc]; rfl
    rw [sent] at first
    exact (Prod.mk.inj (Option.some.inj first)).2.symm
  cases carries : rec.carries with
  | true =>
    rw [carries, if_pos rfl] at data
    rw [data, f.length.2.2] at less
    exact absurd less (Nat.lt_irrefl _)
  | false =>
    obtain ⟨-, none', handles⟩ := f.bare carries
    exact ⟨none', fun w hw => List.eq_of_mem_replicate (handles ▸ hw)⟩

/-- What a process hears from its buffer at `dst`, whose record the kernel copies there from `u` to `t`. -/
def Heard (u t : K) (p dst key : Nat) (words : List Nat) (len : Nat) (what : Sos.WaitPayload) : Prop :=
  ∃ l, Short l words len ∧ Received u t p dst waitRecordBytes l (Sos.WaitBuffer.ofBytes · = .fresh)
    fun buf => Sos.decodeWait (.ofBytes buf) = .ok ⟨key, what⟩

/-- A wait record, as it is decoded. -/
theorem wp_waitRecord (h : Sos.Profiled) (rec : WaitPrefix) {dst request : Nat} {held : Nat → StagedRef}
    {moved : StagedHandles}
    {body : List UInt8} {what : Sos.WaitPayload} (key : rec.key < wordModulus) (payload : rec.payload < wordModulus)
    (filled : Filled held moved) (kinds : rec.kinds = moved.map (·.1)) (asked : request < wordModulus)
    (words : rec.handles = request :: moved.map (·.2)) (length : body.length = rec.len)
    (short : rec.len ≤ pipeBodyBytes)
    (decodes : Sos.waitMessage (rec.buffer body) = .ok (message held moved rec.len body) →
      Sos.decodeWait (rec.buffer body) = .ok ⟨rec.key, what⟩) :
    wp G n (deliverWaitRecord p dst rec body) (fun _ t => Heard s t p dst rec.key rec.handles rec.len what)
      Unasked s := by
  have formed : rec.Formed body :=
    { key := key
      payload := payload
      four := by rw [kinds, List.length_map, filled.four]
      five := by rw [words, List.length_cons, List.length_map, filled.four]; rfl
      kinds := kinds ▸ filled.spelled.1
      handles := words ▸ List.forall_mem_cons.mpr ⟨asked, filled.spelled.2⟩
      body := length
      len := short }
  refine wp_deliverWaitRecord formed fun l t copied sent =>
    ⟨l, formed.short sent, (formed.received h copied sent).imp fun buf read => ?_⟩
  rw [read]
  refine decodes ?_
  have four : (moved.map (·.2)).length = pipeMsgHandles := by rw [List.length_map, filled.four]
  rw [WaitPrefix.buffer, words, Sos.waitMessage_slots four, kinds]
  exact filled.msgOf

theorem looks_stagedCount {x : Nat} : Looks (stagedCount x) := .bind looks_read fun _ => looks_pure

theorem looks_tableRoom {k : Nat} : Looks (tableRoom p k) :=
  .bind (.bind looks_read fun _ => looks_pure) fun _ => .ite (.bind looks_read fun _ => looks_pure) looks_pure

theorem filled_none : Filled (fun _ => .none) (List.replicate pipeMsgHandles (0, noHandle)) where
  four := List.length_replicate
  fills i hi := by
    rw [List.getD_eq_getElem?_getD, List.getElem?_replicate_of_lt hi]
    exact Or.inl ⟨rfl, rfl⟩

/-- What goes to `p` with the answer of a waitable: the handles of a reply that has come. -/
def HandedWith (p : Nat) (kind : WaitableKind) (slot : Nat) (moved : StagedHandles) (s u : K) : Prop :=
  if kind = .pipeReply ∧ (s.exchanges.slot slot).state = .replied then Handed p slot moved s u
  else u = s ∧ moved = List.replicate pipeMsgHandles (0, noHandle)

/-- What a process hears of an attachment in `s`: in `u` it has the handles, and in `t` the record. -/
def Hears (s : K) (p dst : Nat) (att : Attachment) (t : K) : Prop :=
  let ex := brought s att.kind att.target
  Referenced s ex.held → ∃ u moved, HandedWith p att.kind att.target moved s u ∧
    Heard u t p dst att.key (noHandle :: moved.map (·.2)) ex.len
      (heard s att.kind att.target (message ex.held moved ex.len (ex.body.take ex.len)))

theorem wp_handsReply (h : Sos.Profiled) (narrow : Narrow s) {kind : WaitableKind} {slot : Nat} {answer : WaitAnswer}
    (conveys : Conveys s kind slot answer) (refs : Referenced s (brought s kind slot).held) :
    wp G n (Cascade.mintReply unrefObject (replyCarriesHandles kind answer) slot p) (fun found u =>
      ∀ moved, found = some moved → HandedWith p kind slot moved s u ∧ Filled (brought s kind slot).held moved)
        Unasked s := by
  unfold HandedWith
  by_cases replied : kind = .pipeReply ∧ (s.exchanges.slot slot).state = .replied
  · rw [conveys.carries.mpr replied]
    rw [brought, if_pos replied] at refs ⊢
    refine wp_bind.mpr (looks_stagedCount.wp fun _ => wp_bind.mpr (looks_tableRoom.wp fun room => ?_))
    cases room with
    | false => exact wp_pure.mpr nofun
    | true =>
      refine wp_bind.mpr ((wp_mintStaged h narrow refs).imp fun l _ handed => wp_pure.mpr fun moved found => ?_)
      obtain rfl := Option.some.inj found
      exact ⟨by rw [if_pos replied]; exact handed, handed.filled⟩
  · rw [Bool.eq_false_iff.mpr (mt conveys.carries.mp replied), brought, if_neg replied]
    refine wp_pure.mpr fun moved found => ?_
    obtain rfl := Option.some.inj found
    exact ⟨by rw [if_neg replied]; exact ⟨rfl, rfl⟩, filled_none⟩

theorem wp_writeAnswer (h : Sos.Profiled) (narrow : Narrow s) {dst : Nat} {att : Attachment}
    (key : att.key < wordModulus) (tell : Tellable s att.kind att.target) :
    wp G n (writeAnswer p dst att) (fun r t => r = .ok () → Hears s p dst att t) Unasked s := by
  by_cases refs : Referenced s (brought s att.kind att.target).held
  · refine wp_bind.mpr ((wp_waitableAnswer h tell).imp fun answer t ⟨same, tells⟩ => ?_)
    subst same
    refine wp_bind.mpr ((wp_handsReply h narrow tells refs).imp fun found u handed => ?_)
    cases found with
    | none => exact wp_bind.mpr (looks_mintRefusal.wp fun _ => wp_pure.mpr nofun)
    | some moved =>
      obtain ⟨given, filled⟩ := handed moved rfl
      obtain ⟨short, there⟩ := tells.fits
      rw [← tells.bodyLen] at short there
      refine wp_bind.mpr
        ((wp_waitRecord h ⟨att.key, answer.tag, answer.payload, answer.bodyLen, _, _⟩ key tells.payload filled rfl
        (Nat.two_pow_pos _) rfl ?_ short tells.decodes).imp fun _ t' hears => wp_pure.mpr fun _ _ =>
          ⟨u, moved, given, ?_⟩)
      · rw [tells.body, List.length_take_of_le there]
      · rw [tells.body, tells.bodyLen] at hears
        exact hears
  · exact wp_any (fun _ _ _ yes => absurd yes refs) (fun _ => trivial) (fun _ => trivial) fun _ => trivial

/-- What a process hears of the message at the head of connection `c` in `s`, when a delivery takes it: in `u` it has
    the handles, and in `t` the record. -/
def Takes (s : K) (p dst key c x : Nat) (t : K) : Prop :=
  let ex := s.exchanges.slot x
  (s.pipes.slot c).staged = some x ∧ (ex.Fits → Referenced s ex.held → ∃ u request moved, Asked p x request moved s u ∧
    Heard u t p dst key (request :: moved.map (·.2)) ex.len
      (.message (message ex.held moved ex.len (ex.body.take ex.len)) request))

theorem wp_writeTake (h : Sos.Profiled) (narrow : Narrow s) {dst key c : Nat} (word : key < wordModulus) :
    wp G n (writeTake p dst key c) (fun r t => ∀ x, r = .ok x → Takes s p dst key c x t) Unasked s := by
  refine wp_bind.mpr (wp_bind.mpr (wp_read.mpr fun _ => wp_pure.mpr ?_))
  cases head : ((pipes.get s).slot c).staged with
  | none => exact wp_fatalKernel.mpr trivial
  | some x =>
    refine wp_bind.mpr (looks_stagedCount.wp fun _ => wp_bind.mpr (looks_tableRoom.wp fun room => ?_))
    cases room with
    | false => exact wp_bind.mpr (looks_mintRefusal.wp fun _ => wp_pure.mpr nofun)
    | true =>
      by_cases there : (s.exchanges.slot x).Fits ∧ Referenced s (s.exchanges.slot x).held
      · refine wp_mintMessage h narrow there.2 fun request moved u fits asked => wp_bind.mpr (wp_read.mpr fun _ => ?_)
        rw [show (exchanges.get u).slot x = _ from asked.exchange]
        refine wp_bind.mpr
          ((wp_waitRecord h ⟨key, .message, outletLevelMsg, _, _, _⟩ word (Nat.two_pow_pos _) asked.filled rfl fits rfl
          (List.length_take_of_le there.1.2) there.1.1 fun got => Sos.decodeWait_message asked.bound got).imp
            fun _ t heard => wp_pure.mpr ?_)
        rintro _ ⟨⟩
        exact ⟨head, fun _ _ => ⟨u, request, moved, asked, heard⟩⟩
      · simp only [← bind_assoc]
        refine wp_bind.mpr (wp_any (fun _ t => wp_pure.mpr ?_) (fun _ => trivial) (fun _ => trivial) fun _ => trivial)
        rintro _ ⟨⟩
        exact ⟨head, fun fits refs => absurd ⟨fits, refs⟩ there⟩

/-! ### Messages that are taken, resolved or answered -/

section
variable {held : Nat → StagedRef} {moved : StagedHandles} {len dst : Nat} {body : List UInt8} {t : K} {l : List Copy}

theorem msgPrefix_layout {rest : List UInt8} :
    msgPrefix len moved ++ rest = Sos.layout [] len (moved.map (·.1)) (moved.map (·.2)) rest := by
  simp [msgPrefix, Sos.layout, Sos.wordsBytes, List.flatMap_map]

theorem length_msgPrefix (four : moved.length = pipeMsgHandles) : (msgPrefix len moved).length = pipeMsgBodyOffset := by
  rw [← List.append_nil (msgPrefix len moved), msgPrefix_layout, Sos.layout, List.append_nil, List.length_append,
    List.length_append,
    Sos.length_msgMetaBytes (by rw [List.length_map, four]), Sos.length_wordsBytes, Sos.length_wordsBytes,
      List.length_map, four]
  simp [pipeMsgBodyOffset]

variable (h : Sos.Profiled) (filled : Filled held moved) (length : body.length = len) (short : len ≤ pipeBodyBytes)
  (copied : Copies p s l t)
include h filled length short

omit h in
theorem Filled.spells : Sos.Spelled [] len (moved.map (·.1)) (moved.map (·.2))
    (body ++ List.replicate (pipeBodyBytes - body.length) 0) where
  front := nofun
  len := Nat.lt_of_le_of_lt short (by decide)
  four := by rw [List.length_map, filled.four]
  kinds := filled.spelled.1
  words := filled.spelled.2
  body := by rw [List.length_append, List.length_replicate, length]; omega

omit length short h in
theorem Filled.length_msgPrefix : (msgPrefix len moved).length = pipeMsgBodyOffset := Sawos.length_msgPrefix filled.four

include copied

theorem Filled.receives (sent : l.map Copy.sent = pieces dst (msgPrefix len moved) body) :
    Received s t p dst pipeMsgRecordBytes l (Sos.PipeMsgRecord.ofBytes · = .fresh)
      fun buf => Sos.decodeMsg (.ofBytes buf) = .ok (message held moved len body) := by
  have fixed : (msgPrefix len moved).length = pipeMsgBodyOffset := filled.length_msgPrefix
  refine .of copied (inside_pieces sent ?_) fun buf size fresh => ?_
  · rw [fixed, length, pipeMsgRecordBytes]; omega
  · rw [sent, receive_pieces (fixed ▸ Sos.PipeMsgRecord.zeros h size fresh), msgPrefix_layout,
      Sos.PipeMsgRecord.ofBytes_layout (filled.spells length short) h (by rw [List.length_map, filled.four])]
    exact filled.msgOf

theorem Filled.receivesTaken {request : Nat} (word : request < wordModulus)
    (sent : l.map Copy.sent = pieces dst (wordBytesLe wordBytes request ++ msgPrefix len moved) body) :
    Received s t p dst pipeTakeRecordBytes l (Sos.PipeTakeRecord.ofBytes · = .fresh)
      fun buf => Sos.decodeTake (.ofBytes buf) = .ok (message held moved len body, request) := by
  have fixed : (wordBytesLe wordBytes request ++ msgPrefix len moved).length = pipeTakeBodyOffset := by
    rw [List.length_append, length_wordBytesLe, filled.length_msgPrefix, pipeTakeBodyOffset]
  refine .of copied (inside_pieces sent ?_) fun buf size fresh => ?_
  · rw [fixed, length, pipeTakeRecordBytes]; omega
  · rw [sent, receive_pieces (fixed ▸ Sos.PipeTakeRecord.zeros h size fresh), List.append_assoc, msgPrefix_layout,
      Sos.PipeTakeRecord.ofBytes_layout (filled.spells length short) h (by rw [List.length_map, filled.four]) word]
    show (Sos.msgOf _ _ _).bind _ = _
    rw [filled.msgOf]
    rfl

end

/-- A message that is taken: in `u` the process has its handles, and in `v` the record, both as in `t`. -/
def TakenAt (s : K) (p slot dst : Nat) (t : K) : Prop :=
  ∃ x, (s.pipes.slot slot).staged = some x ∧
    let ex := s.exchanges.slot x
    ex.Fits → Referenced s ex.held → ∃ u v request moved l, Asked p x request moved s u ∧ v.mem = t.mem ∧
      (∀ q, (v.processes.slot q).handles = (t.processes.slot q).handles) ∧
      Received u v p dst pipeTakeRecordBytes l (Sos.PipeTakeRecord.ofBytes · = .fresh)
        fun buf => Sos.decodeTake (.ofBytes buf) = .ok (message ex.held moved ex.len (ex.body.take ex.len), request)

theorem wp_mintRefusal {Q : SosStatus → K → Prop} (hQ : ∀ why, why ≠ .ok → Q why s) :
    wp G n (mintRefusal p) Q Unasked s := by
  refine wp_bind.mpr (looks_quotaRoom.wp fun room => wp_pure.mpr (hQ _ ?_))
  cases room <;> nofun

theorem wp_pipeTake (h : Sos.Profiled) (narrow : Narrow s) {slot dst cap : Nat} :
    wp G n (pipeTake p slot dst cap) (fun r t => r.status = .ok → TakenAt s p slot dst t) Unasked s := by
  refine wp_bind.mpr
    (wp_whenever.mpr ⟨fun _ => wp_fault_never, fun _ => wp_bind.mpr (looks_copyOutCheck.wp fun refused => ?_)⟩)
  refine wp_bind.mpr (looks_refuse.wp fun _ => wp_bind.mpr (wp_bind.mpr (wp_read.mpr fun _ => wp_pure.mpr ?_)))
  cases head : ((pipes.get s).slot slot).staged with
  | none =>
    refine wp_bind.mpr (wp_read.mpr fun _ => wp_pure.mpr ?_)
    split <;> nofun
  | some x =>
    refine wp_bind.mpr (looks_stagedCount.wp fun _ => wp_bind.mpr (looks_tableRoom.wp fun room => ?_))
    cases room with
    | false => exact wp_bind.mpr (wp_mintRefusal fun why refused => wp_pure.mpr fun ok => absurd ok refused)
    | true =>
      by_cases there : (s.exchanges.slot x).Fits ∧ Referenced s (s.exchanges.slot x).held
      · refine wp_mintMessage h narrow there.2 fun request moved u fits asked => wp_bind.mpr (wp_read.mpr fun _ => ?_)
        rw [show (exchanges.get u).slot x = _ from asked.exchange]
        refine wp_bind.mpr (wp_copyRecord ?_ fun l t copied sent => ?_)
        · rw [List.length_append, length_wordBytesLe, asked.filled.length_msgPrefix, pipeTakeBodyOffset]
        have rest : Spares [.machine .mem, .process .handles] (do
            stagePop slot
            exchanges.modify x ({ · with requestRefs := 1, state := .taken })
            return opOk : M SyscallResult) :=
          .bind (by simp +decide) fun _ => .bind (spares_exchanges fun y => by cases y <;> simp +decide)
            fun _ => spares_pure
        refine wp_spares rest fun r v same _ => ⟨x, head, fun _ _ => ⟨u, t, request, moved, l, asked, ?_, ?_, ?_⟩⟩
        · exact same (.machine .mem) (by decide)
        · exact same (.process .handles) (by decide)
        · exact asked.filled.receivesTaken h (List.length_take_of_le there.1.2) there.1.1 copied fits sent
      · refine wp_any (fun _ _ _ => ⟨x, head, fun fits refs => absurd ⟨fits, refs⟩ there⟩) ?_ ?_ ?_
          <;> exact fun _ => trivial

/-- A reply that is resolved or answered to `p`: in `u` it has the handles, and in `t` the record. -/
def Resolved (s : K) (p x dst : Nat) (t : K) : Prop :=
  let ex := s.exchanges.slot x
  ex.Fits → Referenced s ex.held → ∃ u moved l, Handed p x moved s u ∧
    Received u t p dst pipeMsgRecordBytes l (Sos.PipeMsgRecord.ofBytes · = .fresh)
      fun buf => Sos.decodeMsg (.ofBytes buf) = .ok (message ex.held moved ex.len (ex.body.take ex.len))

theorem wp_writeReply (h : Sos.Profiled) (narrow : Narrow s) {x dst : Nat} :
    wp G n (writeReply p x dst) (fun r t => ∀ len, r = .ok len → Resolved s p x dst t) Unasked s := by
  by_cases there : (s.exchanges.slot x).Fits ∧ Referenced s (s.exchanges.slot x).held
  · refine wp_bind.mpr (looks_stagedCount.wp fun _ => wp_bind.mpr (looks_tableRoom.wp fun room => ?_))
    cases room with
    | false => exact wp_bind.mpr (looks_mintRefusal.wp fun _ => wp_pure.mpr nofun)
    | true =>
      refine wp_bind.mpr (wp_read.mpr fun _ =>
        wp_bind.mpr ((wp_mintStaged h narrow there.2).imp fun moved u handed => ?_))
      refine wp_bind.mpr (wp_read.mpr fun _ => ?_)
      rw [show (exchanges.get u).slot x = _ from handed.exchange]
      refine wp_bind.mpr (wp_copyRecord handed.filled.length_msgPrefix.symm fun l t copied sent => ?_)
      refine wp_pure.mpr fun _ _ _ _ => ⟨u, moved, l, handed, ?_⟩
      exact handed.filled.receives h (List.length_take_of_le there.1.2) there.1.1 copied sent
  · exact wp_any (fun _ _ _ _ fits refs => absurd ⟨fits, refs⟩ there) (fun _ => trivial)
      (fun _ => trivial) fun _ => trivial

theorem wp_answerCallReply (h : Sos.Profiled) (narrow : Narrow s) {th x : Nat} :
    wp G n (Cascade.answerCallReply unrefObject th x) (fun r t => r.status = .ok →
      Resolved s (s.threads.slot th).process x (s.threads.slot th).waitBuf t) Unasked s := by
  by_cases there : (s.exchanges.slot x).Fits ∧ Referenced s (s.exchanges.slot x).held
  · refine wp_bind.mpr (wp_readThread.mpr fun _ => wp_bind.mpr (wp_bind.mpr (wp_read.mpr fun _ => wp_pure.mpr ?_)))
    by_cases replied : ((exchanges.get s).slot x).state = .replied
    · rw [if_pos replied]
      refine wp_bind.mpr (looks_stagedCount.wp fun _ => wp_bind.mpr (looks_tableRoom.wp fun room => ?_))
      cases room with
      | false => exact wp_bind.mpr (wp_mintRefusal fun why refused => wp_pure.mpr fun ok => absurd ok refused)
      | true =>
        refine wp_bind.mpr ((wp_mintStaged h narrow there.2).imp fun moved u handed => ?_)
        have length : ((s.exchanges.slot x).body.take (s.exchanges.slot x).len).length = (s.exchanges.slot x).len :=
          List.length_take_of_le there.1.2
        refine wp_piecesThen rfl (fun _ _ _ => wp_whenever.mpr ⟨fun _ => wp_halt.mpr trivial, nofun⟩)
          (fun _ => handed.filled.length_msgPrefix.symm) (some_bytes length) fun l t copied sent =>
            wp_pure.mpr fun _ _ _ => ?_
        exact ⟨u, moved, l, handed, handed.filled.receives h length there.1.1 copied sent⟩
    · rw [if_neg replied]
      exact wp_pure.mpr nofun
  · exact wp_any (fun _ _ _ fits refs => absurd ⟨fits, refs⟩ there) (fun _ => trivial)
      (fun _ => trivial) fun _ => trivial

end

/-! ### All records -/

section
variable {s : K}

/-- What the kernel writes for `p` from `s` on, at the delivery of an attachment, at a Take, at a Resolve and at the
    end of a Call, decodes to what it delivers. -/
structure Decodes (s : K) (p dst : Nat) : Prop where
  delivery : ∀ a, deliverAttachment p dst a = (do
    let att ← attachments.read a
    let ends := att.oneshot || deliveryConsumes att.kind
    if ← outletTakeDelivery att.kind att.target att.owns then
      writeTake p dst att.key att.target >>= endTake att.waiter a att.target ends
    else
      writeAnswer p dst att >>= endAnswer a att ends)
  answer : ∀ {n : Nat} {att : Attachment} {t : K} {tr : List Ev}, att.key < wordModulus →
    Tellable s att.kind att.target → writeAnswer p dst att n s = .ok (.ok ()) t tr → Hears s p dst att t
  take : ∀ {n key c x : Nat} {t : K} {tr : List Ev}, key < wordModulus →
    writeTake p dst key c n s = .ok (.ok x) t tr → Takes s p dst key c x t
  taken : ∀ {n slot cap : Nat} {r : SyscallResult} {t : K} {tr : List Ev},
    pipeTake p slot dst cap n s = .ok r t tr → r.status = .ok → TakenAt s p slot dst t
  resolve : ∀ word x, resolveReplied p word x dst = writeReply p x dst >>= endReply p word x
  resolved : ∀ {n x len : Nat} {t : K} {tr : List Ev}, writeReply p x dst n s = .ok (.ok len) t tr →
    Resolved s p x dst t
  answered : ∀ {n th x : Nat} {r : SyscallResult} {t : K} {tr : List Ev},
    Cascade.answerCallReply unrefObject th x n s = .ok r t tr → r.status = .ok →
      Resolved s (s.threads.slot th).process x (s.threads.slot th).waitBuf t

/-- Delivered records decode to what was delivered, on both widths of a machine word. -/
theorem delivered_records_decode (h : Sos.Profiled) (narrow : Narrow s) (p dst : Nat) : Decodes s p dst where
  delivery _ := deliverAttachment_eq
  answer key tell run := (wp_writeAnswer h narrow key tell).ok run rfl
  take key run := (wp_writeTake h narrow key).ok run _ rfl
  taken run ok := (wp_pipeTake h narrow).ok run ok
  resolve _ _ := resolveReplied_eq
  resolved run := (wp_writeReply h narrow).ok run _ rfl
  answered run ok := (wp_answerCallReply h narrow).ok run ok

/-- In every run the generations of the tables fit their field. -/
theorem Narrow.reachable {G : Ev → Prop} (h : ReachableWith G s) : Narrow s := fun p i =>
  ((Tabled.reachable h).evolves p).narrow (by decide) (fun _ => Nat.two_pow_pos _) i

end

end

section

attribute [local instance] sampleBuild sampleTarget Riscv32.board

/-- The root makes a connection, and posts three bytes and its memory on it. -/
def postsMemory : List Stimulus :=
  .call 2 10 0x80200700 8 0 :: storesBytes 0x80200500 [0, 6, 0x20, 0x80, 3, 0, 0, 0, 4] ++
    storesBytes 0x80200600 [1, 2, 3] ++ [.call 6 0 0x80200500 24 0]

/-- The message is taken to where memory is zero. -/
def takesMemory (s : K) : Bool :=
  let ex := s.exchanges.slot 0
  (match pipeTake rootProcess 0 0x80200800 256 64 s with
    | .ok r _ _ => decide (r.status = .ok)
    | _ => false) &&
  decide ((s.pipes.slot 0).staged = some 0 ∧ ex.len = 3 ∧ ex.body = [1, 2, 3] ∧ (ex.held 0).objType = .memory ∧
    (ex.held 0).target = 0 ∧
    (ex.held 1).objType = .unbound ∧ (ex.held 2).objType = .unbound ∧ (ex.held 3).objType = .unbound) &&
  decide (Referenced s ex.held) &&
    decide (loadBytes s.mem 0x80200800 pipeTakeRecordBytes = List.replicate pipeTakeRecordBytes 0) &&
  (s.processes.slot rootProcess).rows.all fun row => decide (row.pa = row.base)

/-- The root takes three bytes and a handle, which decode to the bytes and to a word for the memory. -/
theorem delivered_records_decode_memory :
    ∃ (s t : K) (r : SyscallResult) (tr : List Ev) (w g rights request : Nat), Reachable s ∧
    pipeTake rootProcess 0 0x80200800 256 64 s = .ok r t tr ∧
    Sos.decodeTake (.ofBytes (loadBytes t.mem 0x80200800 pipeTakeRecordBytes)) =
      .ok (⟨3, [some (.memory w), none, none, none], [1, 2, 3] ++ List.replicate 125 0⟩, request) ∧
    (t.processes.slot rootProcess).lookup w = ⟨.memory, rights, 0, g⟩ ∧ request ≠ noHandle := by
  obtain ⟨s, reached, found⟩ := reachable_of_played (i := postsMemory) (G := fun _ => True) (c := takesMemory)
    (g := fun _ => true) (by decide +kernel) fun _ _ => trivial
  simp only [takesMemory, Bool.and_eq_true, decide_eq_true_eq, List.all_eq_true] at found
  obtain ⟨⟨⟨⟨ok, staged, len, body, memory, target, one, two, three⟩, refs⟩, zero⟩, rows⟩ := found
  rcases run : pipeTake rootProcess 0 0x80200800 256 64 s with ⟨r, t, tr⟩ | _ | _ | _ <;> rw [run] at ok
  · have decodes := delivered_records_decode (Or.inl rfl) (Narrow.reachable reached) rootProcess 0x80200800
    obtain ⟨x, head, taken⟩ := decodes.taken run (of_decide_eq_true ok)
    obtain rfl := Option.some.inj (head.symm.trans staged)
    obtain ⟨u, v, request, moved, l, asked, mem, handles, received⟩ :=
      taken ⟨by rw [len]; decide, by rw [len, body]; decide⟩ refs
    have same : u.mem = s.mem := asked.only.mem
    have reads := received.inPlace (fun row hrow => rows row (asked.only.rows ▸ hrow)) (by rw [same, zero]; rfl)
    have given : Names u rootProcess ((s.exchanges.slot 0).held 0) (moved.getD 0 (0, noHandle)).2 :=
      asked.names 0 (by decide) (by rw [memory]; nofun)
    have kept : Names v rootProcess ((s.exchanges.slot 0).held 0) (moved.getD 0 (0, noHandle)).2 :=
      given.congr (by rw [received.copied.processes])
    obtain ⟨g, names⟩ := kept.congr (handles rootProcess)
    rw [memory, target] at names
    refine ⟨s, t, r, tr, _, g, _, request, reached, run, ?_, names, asked.bound⟩
    rw [← mem, reads]
    simp [message, wrapped, len, body, memory, one, two, three, pipeMsgHandles, pipeBodyBytes, List.range_succ]
  all_goals cases ok

end

end Sawos
