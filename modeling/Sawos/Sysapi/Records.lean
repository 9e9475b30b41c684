import Sawos.Sysapi.Pipe
import Sawos.Kernel.Refs

/-! # The kernel's records as the decoders read them

The kernel writes words, the packed meta and the body one behind the other; the decoders read them at the offsets of
the natural layout. Both widths of a machine word put them at the same places. -/

namespace Sawos

/-! ### Words in bytes -/

theorem ofBytesLe_wordBytesLe {w v : Nat} (fits : v < 256 ^ w) : ofBytesLe (wordBytesLe w v) = v := by
  induction w generalizing v with
  | zero => simp [wordBytesLe, ofBytesLe]; omega
  | succ w ih =>
    have rest : v / 256 < 256 ^ w := Nat.div_lt_of_lt_mul (by rwa [Nat.pow_succ, Nat.mul_comm] at fits)
    rw [wordBytesLe, ofBytesLe, ih rest]
    have byte : (UInt8.ofNat (v % 256)).toNat = v % 256 := by simp
    omega

theorem wordBytesLe_zero {w : Nat} : wordBytesLe w 0 = List.replicate w 0 := by
  induction w with
  | zero => rfl
  | succ w ih => simp [wordBytesLe, ih, List.replicate_succ]

/-- Bytes that spell 0 are all 0. -/
theorem replicate_of_ofBytesLe {l : List UInt8} (zero : ofBytesLe l = 0) : l = List.replicate l.length 0 := by
  induction l with
  | nil => rfl
  | cons b l ih =>
    simp only [ofBytesLe] at zero
    have first : b = 0 := UInt8.toNat_inj.mp (show b.toNat = 0 by omega)
    have rest := ih (by omega)
    rw [first, List.length_cons, List.replicate_succ, ← rest]

namespace Sos
section
variable [Hal]

/-- The two profiles of the machine. -/
def Profiled : Prop := Hal.wordBits = 32 ∨ Hal.wordBits = 64

theorem Profiled.wordBytes (h : Profiled) : wordBytes = 4 ∨ wordBytes = 8 := by
  rcases h with narrow | wide
  · exact Or.inl (by rw [Sawos.wordBytes, narrow])
  · exact Or.inr (by rw [Sawos.wordBytes, wide])

theorem Profiled.modulus (h : Profiled) : wordModulus = 256 ^ Sawos.wordBytes := by
  rcases h with narrow | wide
  · rw [wordModulus, Sawos.wordBytes, narrow]; rfl
  · rw [wordModulus, Sawos.wordBytes, wide]; rfl

theorem Profiled.handlesOffset (h : Profiled) : waitHandlesOffset = waitMetaEndBytes := by
  rcases h.wordBytes with four | eight
  · rw [waitHandlesOffset, waitMetaEndBytes, four]; rfl
  · rw [waitHandlesOffset, waitMetaEndBytes, eight]; rfl

theorem Profiled.bodyOffset (h : Profiled) : waitBodyOffset = waitPrefixBytes := by
  rw [waitBodyOffset, waitPrefixBytes, h.handlesOffset]

theorem Profiled.msgHandles (h : Profiled) : msgHandlesOffset = 8 := by
  rcases h.wordBytes with four | eight
  · rw [msgHandlesOffset, four]; rfl
  · rw [msgHandlesOffset, eight]; rfl

/-! ### Fields at their offsets -/

/-- Words one behind the other. -/
def wordsBytes (ws : List Nat) : List UInt8 := ws.flatMap (wordBytesLe wordBytes)

@[simp] theorem length_wordsBytes {ws : List Nat} : (wordsBytes ws).length = ws.length * wordBytes := by
  induction ws with
  | nil => simp [wordsBytes]
  | cons v ws ih =>
    rw [wordsBytes, List.flatMap_cons, List.length_append, length_wordBytesLe]
    rw [wordsBytes] at ih
    rw [ih, List.length_cons, Nat.succ_mul, Nat.add_comm]

theorem wordsBytes_zero {k : Nat} : wordsBytes (List.replicate k 0) = List.replicate (k * wordBytes) 0 := by
  induction k with
  | zero => simp [wordsBytes]
  | succ k ih =>
    rw [wordsBytes] at ih ⊢
    rw [List.replicate_succ, List.flatMap_cons, ih, wordBytesLe_zero, List.replicate_append_replicate,
      Nat.succ_mul, Nat.add_comm]

theorem wordAt_append {a l : List UInt8} {off : Nat} : wordAt (a ++ l) (a.length + off) = wordAt l off := by
  rw [wordAt, List.drop_length_add_append, wordAt]

theorem wordsAt_append {a l : List UInt8} {off k : Nat} : wordsAt (a ++ l) (a.length + off) k = wordsAt l off k := by
  simp only [wordsAt, Nat.add_assoc, wordAt_append]

theorem wordsAt_wordsBytes (h : Profiled) {ws : List Nat} (fits : ∀ v ∈ ws, v < wordModulus) {l : List UInt8} :
    wordsAt (wordsBytes ws ++ l) 0 ws.length = ws := by
  induction ws generalizing l with
  | nil => rfl
  | cons v ws ih =>
    obtain ⟨first, rest⟩ := List.forall_mem_cons.mp fits
    have here : wordAt (wordBytesLe wordBytes v ++ (wordsBytes ws ++ l)) 0 = v := by
      rw [wordAt, List.drop_zero, List.take_left' length_wordBytesLe]
      exact ofBytesLe_wordBytesLe (h.modulus ▸ first)
    have behind : (List.range ws.length).map
      (fun i => wordAt (wordBytesLe wordBytes v ++ (wordsBytes ws ++ l)) (0 + (i + 1) * wordBytes))
        = wordsAt (wordsBytes ws ++ l) 0 ws.length := by
      refine List.map_congr_left fun i _ => ?_
      have off : 0 + (i + 1) * wordBytes = (wordBytesLe wordBytes v).length + (0 + i * wordBytes) := by
        rw [length_wordBytesLe, Nat.succ_mul]; omega
      rw [off, wordAt_append]
    rw [show wordsBytes (v :: ws) ++ l = wordBytesLe wordBytes v ++ (wordsBytes ws ++ l) by simp [wordsBytes]]
    rw [wordsAt, List.length_cons, List.range_succ_eq_map, List.map_cons, List.map_map, Nat.zero_mul, here]
    exact congrArg (v :: ·) (behind.trans (ih rest))

omit [Hal] in
theorem length_msgMetaBytes {len : Nat} {kinds : List Nat} (four : kinds.length = pipeMsgHandles) :
    (msgMetaBytes len kinds).length = 8 := by
  simp [msgMetaBytes, four, pipeMsgHandles]

omit [Hal] in
theorem metaAt_msgMetaBytes {a l : List UInt8} {len : Nat} {kinds : List Nat} (four : kinds.length = pipeMsgHandles)
    (short : len < 256) (bytes : ∀ k ∈ kinds, k < 256) :
    metaAt (a ++ (msgMetaBytes len kinds ++ l)) a.length = ⟨len, kinds⟩ := by
  have back : (kinds.map UInt8.ofNat).map UInt8.toNat = kinds := by
    rw [List.map_map]
    refine (List.map_congr_left fun k hk => ?_).trans (List.map_id _)
    simp [Nat.mod_eq_of_lt (bytes k hk)]
  have first : (a ++ (msgMetaBytes len kinds ++ l)).getD a.length 0 = UInt8.ofNat len := by
    simp [msgMetaBytes]
  have rest : ((a ++ (msgMetaBytes len kinds ++ l)).drop (a.length + 1)).take pipeMsgHandles =
    kinds.map UInt8.ofNat := by
    rw [List.drop_length_add_append]
    simp only [msgMetaBytes, List.cons_append, List.drop_succ_cons, List.drop_zero, List.append_assoc]
    exact List.take_left' (by rw [List.length_map, four])
  rw [metaAt, first, rest, back]
  simp [Nat.mod_eq_of_lt short]

/-- Words, a packed meta, words and a body in memory. -/
def layout (front : List Nat) (len : Nat) (kinds words : List Nat) (body : List UInt8) : List UInt8 :=
  wordsBytes front ++ (msgMetaBytes len kinds ++ (wordsBytes words ++ body))

structure Spelled (front : List Nat) (len : Nat) (kinds words : List Nat) (body : List UInt8) : Prop where
  front : ∀ v ∈ front, v < wordModulus
  len : len < 256
  four : kinds.length = pipeMsgHandles
  kinds : ∀ k ∈ kinds, k < 256
  words : ∀ v ∈ words, v < wordModulus
  body : body.length = pipeBodyBytes

section
variable {front kinds words : List Nat} {len : Nat} {body : List UInt8}

theorem Spelled.front_at (s : Spelled front len kinds words body) (h : Profiled) :
    wordsAt (layout front len kinds words body) 0 front.length = front := wordsAt_wordsBytes h s.front

theorem Spelled.meta_at (s : Spelled front len kinds words body) {off : Nat} (at' : off = front.length * wordBytes) :
    metaAt (layout front len kinds words body) off = ⟨len, kinds⟩ := by
  rw [at', ← length_wordsBytes]
  exact metaAt_msgMetaBytes s.four s.len s.kinds

theorem layout_words (four : kinds.length = pipeMsgHandles) :
    layout front len kinds words body = (wordsBytes front ++ msgMetaBytes len kinds) ++ (wordsBytes words ++ body) ∧
      (wordsBytes front ++ msgMetaBytes len kinds).length = front.length * wordBytes + 8 := by
  rw [List.length_append, length_wordsBytes, length_msgMetaBytes four]
  exact ⟨(List.append_assoc _ _ _).symm, rfl⟩

theorem Spelled.words_at (s : Spelled front len kinds words body) (h : Profiled) {off : Nat}
    (at' : off = front.length * wordBytes + 8) :
      wordsAt (layout front len kinds words body) off words.length = words := by
  obtain ⟨same, length⟩ := layout_words s.four
  rw [same, at', ← length, ← Nat.add_zero (List.length _), wordsAt_append]
  exact wordsAt_wordsBytes h s.words

theorem Spelled.body_at (s : Spelled front len kinds words body) {off : Nat}
    (at' : off = front.length * wordBytes + 8 + words.length * wordBytes) :
    bodyAt (layout front len kinds words body) off = body := by
  obtain ⟨same, length⟩ := layout_words s.four
  rw [same, at', ← length, bodyAt, List.drop_length_add_append, ← length_wordsBytes, List.drop_left]
  exact List.take_of_length_le (Nat.le_of_eq s.body)

end

theorem WaitBuffer.ofBytes_layout {front kinds words : List Nat} {len : Nat} {body : List UInt8}
    (s : Spelled front len kinds words body) (h : Profiled) (three : front.length = waitHeaderWords)
    (five : words.length = waitHandleSlots) :
    WaitBuffer.ofBytes (layout front len kinds words body) = ⟨front, ⟨len, kinds⟩, words, body⟩ := by
  have header := s.front_at h
  have at' : waitHandlesOffset = front.length * wordBytes + 8 := by rw [h.handlesOffset, three]; rfl
  have handles := s.words_at h at'
  rw [three] at header
  rw [five] at handles
  rw [WaitBuffer.ofBytes, header, s.meta_at (by rw [three]), handles,
    s.body_at (by rw [waitBodyOffset, h.handlesOffset, three, five]; rfl)]

theorem PipeMsgRecord.ofBytes_layout {kinds words : List Nat} {len : Nat} {body : List UInt8}
    (s : Spelled [] len kinds words body) (h : Profiled) (four : words.length = pipeMsgHandles) :
    PipeMsgRecord.ofBytes (layout [] len kinds words body) = ⟨⟨len, kinds⟩, words, body⟩ := by
  have at' : msgHandlesOffset = ([] : List Nat).length * wordBytes + 8 := by rw [h.msgHandles]; simp
  have handles := s.words_at h at'
  rw [four] at handles
  rw [PipeMsgRecord.ofBytes, s.meta_at (by simp), handles, s.body_at (by rw [h.msgHandles, four]; simp)]

theorem PipeTakeRecord.ofBytes_layout {kinds words : List Nat} {request len : Nat} {body : List UInt8}
    (s : Spelled [] len kinds words body) (h : Profiled) (four : words.length = pipeMsgHandles)
    (fits : request < wordModulus) :
    PipeTakeRecord.ofBytes (wordBytesLe wordBytes request ++ layout [] len kinds words body) =
      ⟨request, ⟨len, kinds⟩, words, body⟩ := by
  have first : wordAt (wordBytesLe wordBytes request ++ layout [] len kinds words body) 0 = request := by
    rw [wordAt, List.drop_zero, List.take_left' length_wordBytesLe]
    exact ofBytesLe_wordBytesLe (h.modulus ▸ fits)
  rw [PipeTakeRecord.ofBytes, first, List.drop_left' length_wordBytesLe, PipeMsgRecord.ofBytes_layout s h four]

/-! ### Fresh buffers -/

theorem zeros_of_wordsAt {l : List UInt8} {off k : Nat} (room : off + k * wordBytes ≤ l.length)
    (zero : wordsAt l off k = List.replicate k 0) :
    (l.drop off).take (k * wordBytes) = List.replicate (k * wordBytes) 0 := by
  induction k with
  | zero => simp
  | succ k ih =>
    rw [Nat.succ_mul] at room
    rw [wordsAt, List.range_succ, List.map_append, List.replicate_succ', List.map_singleton] at zero
    obtain ⟨before, last⟩ := List.append_inj zero (by simp)
    have bytes := replicate_of_ofBytesLe (List.singleton_inj.mp last)
    have length : ((l.drop (off + k * wordBytes)).take wordBytes).length = wordBytes := by
      rw [List.length_take, List.length_drop]; omega
    rw [Nat.succ_mul, List.take_add, ih (by omega) before, List.drop_drop, bytes, length,
      List.replicate_append_replicate]

omit [Hal] in
theorem fresh_body {l : List UInt8} {off : Nat} (length : l.length = off + pipeBodyBytes)
    (fresh : bodyAt l off = List.replicate pipeBodyBytes 0) : l.drop off = List.replicate pipeBodyBytes 0 := by
  rw [← fresh, bodyAt, List.take_of_length_le]
  rw [List.length_drop]; omega

theorem WaitBuffer.zeros {l : List UInt8} (h : Profiled) (length : l.length = waitRecordBytes)
    (fresh : WaitBuffer.ofBytes l = .fresh) :
    l.drop waitPrefixBytes = List.replicate pipeBodyBytes 0 ∧
      l.drop waitMetaEndBytes = List.replicate (waitHandleSlots * wordBytes) 0 ++ List.replicate pipeBodyBytes 0 := by
  obtain ⟨-, -, handles, body⟩ := WaitBuffer.mk.inj fresh
  rw [h.bodyOffset] at body
  rw [h.handlesOffset] at handles
  have tail := fresh_body length body
  have room : waitMetaEndBytes + waitHandleSlots * wordBytes ≤ l.length := by
    rw [length]; exact Nat.le_add_right _ _
  refine ⟨tail, ?_⟩
  rw [← zeros_of_wordsAt room handles, ← tail, waitPrefixBytes, ← List.drop_drop, List.take_append_drop]

theorem PipeMsgRecord.zeros {l : List UInt8} (h : Profiled) (length : l.length = pipeMsgRecordBytes)
    (fresh : PipeMsgRecord.ofBytes l = .fresh) :
    l.drop pipeMsgBodyOffset = List.replicate pipeBodyBytes 0 := by
  obtain ⟨-, -, body⟩ := PipeMsgRecord.mk.inj fresh
  rw [h.msgHandles] at body
  exact fresh_body length body

theorem PipeTakeRecord.zeros {l : List UInt8} (h : Profiled) (length : l.length = pipeTakeRecordBytes)
    (fresh : PipeTakeRecord.ofBytes l = .fresh) :
    l.drop pipeTakeBodyOffset = List.replicate pipeBodyBytes 0 := by
  obtain ⟨-, msg⟩ := PipeTakeRecord.mk.inj fresh
  rw [pipeTakeBodyOffset, ← List.drop_drop]
  refine PipeMsgRecord.zeros h ?_ msg
  rw [List.length_drop, length, pipeTakeRecordBytes, pipeTakeBodyOffset, pipeMsgRecordBytes]
  omega

end
end Sos
end Sawos
