import Sawos.Abi
import Sawos.Hal

/-! # The decoders of the `sos` package

What a process makes of the records that the kernel copies to it, over the bytes of the caller's own buffer. -/

namespace Sawos

def BootHandleKind.ofRaw : Nat → Option BootHandleKind
  | 0 => some .memory
  | 1 => some .process
  | 2 => some .system
  | 3 => some .ioMemory
  | 4 => some .pipeInlet
  | 5 => some .pipeOutlet
  | 6 => some .pipeReply
  | 7 => some .pipeRequest
  | _ => none

def WaitTag.ofRaw : Nat → Option WaitTag
  | 0 => some .event
  | 1 => some .interrupt
  | 2 => some .timer
  | 3 => some .process
  | 4 => some .readable
  | 5 => some .room
  | 6 => some .reply
  | 7 => some .abandoned
  | 8 => some .message
  | _ => none

theorem BootHandleKind.ofRaw_word (k : BootHandleKind) : BootHandleKind.ofRaw k.word = some k := by cases k <;> rfl

namespace Sos

inductive OutletLevel where
  | msg | peerGone
  deriving DecidableEq

def OutletLevel.ofRaw : Nat → Option OutletLevel
  | 0 => some .msg
  | 1 => some .peerGone
  | _ => none

inductive InletLevel where
  | room | peerGone
  deriving DecidableEq

def InletLevel.ofRaw : Nat → Option InletLevel
  | 0 => some .room
  | 1 => some .peerGone
  | _ => none

inductive ReplyLevel where
  | data | peerClosed
  deriving DecidableEq

def ReplyLevel.ofRaw : Nat → Option ReplyLevel
  | 0 => some .data
  | 1 => some .peerClosed
  | _ => none

/-! ### The records, and where the natural layout puts their fields -/

structure PipeMsgMeta where
  len : Nat
  kinds : List Nat

structure WaitBuffer where
  header : List Nat
  packed : PipeMsgMeta
  handles : List Nat
  body : List UInt8

structure PipeMsgRecord where
  packed : PipeMsgMeta
  handles : List Nat
  bytes : List UInt8

structure PipeTakeRecord where
  request : Nat
  msg : PipeMsgRecord

def waitHeaderWords : Nat := 3

def pipeMsgMetaBytes : Nat := 1 + pipeMsgHandles

def PipeMsgMeta.zero : PipeMsgMeta := ⟨0, List.replicate pipeMsgHandles 0⟩

/-- The buffer of `Waiter.wait` before the call. -/
def WaitBuffer.fresh : WaitBuffer :=
  ⟨List.replicate waitHeaderWords 0, .zero, List.replicate waitHandleSlots noHandle, List.replicate pipeBodyBytes 0⟩

/-- The buffer of `PipeInlet.send` and of `PipeReply.resolve` before the call. -/
def PipeMsgRecord.fresh : PipeMsgRecord :=
  ⟨.zero, List.replicate pipeMsgHandles noHandle, List.replicate pipeBodyBytes 0⟩

/-- The buffer of `PipeOutlet.take` before the call. -/
def PipeTakeRecord.fresh : PipeTakeRecord := ⟨noHandle, .fresh⟩

section
variable [Hal]

def wordAt (l : List UInt8) (off : Nat) : Nat := ofBytesLe ((l.drop off).take wordBytes)

def wordsAt (l : List UInt8) (off count : Nat) : List Nat :=
  (List.range count).map fun i => wordAt l (off + i * wordBytes)

def metaAt (l : List UInt8) (off : Nat) : PipeMsgMeta :=
  ⟨(l.getD off 0).toNat, ((l.drop (off + 1)).take pipeMsgHandles).map UInt8.toNat⟩

def bodyAt (l : List UInt8) (off : Nat) : List UInt8 := (l.drop off).take pipeBodyBytes

def waitHandlesOffset : Nat := alignUp (waitHeaderWords * wordBytes + pipeMsgMetaBytes) wordBytes

def waitBodyOffset : Nat := waitHandlesOffset + waitHandleSlots * wordBytes

def WaitBuffer.ofBytes (l : List UInt8) : WaitBuffer :=
  ⟨wordsAt l 0 waitHeaderWords, metaAt l (waitHeaderWords * wordBytes), wordsAt l waitHandlesOffset waitHandleSlots,
    bodyAt l waitBodyOffset⟩

def msgHandlesOffset : Nat := alignUp pipeMsgMetaBytes wordBytes

def PipeMsgRecord.ofBytes (l : List UInt8) : PipeMsgRecord :=
  ⟨metaAt l 0, wordsAt l msgHandlesOffset pipeMsgHandles, bodyAt l (msgHandlesOffset + pipeMsgHandles * wordBytes)⟩

def PipeTakeRecord.ofBytes (l : List UInt8) : PipeTakeRecord := ⟨wordAt l 0, .ofBytes (l.drop wordBytes)⟩

end

/-! ### Decoding -/

/-- What a decoder stops the process for. -/
inductive Panic where
  | handleKind (kind : Nat)
  | carriesProcess
  | carriesSystem
  | waitTag (tag : Nat)
  | outletLevel (level : Nat)
  | inletLevel (level : Nat)
  | replyLevel (level : Nat)
  | noObligation

/-- A handle of a message, in the wrapper of its kind. -/
inductive PipeHandle where
  | memory (m : Nat)
  | ioMemory (io : Nat)
  | inlet (i : Nat)
  | outlet (o : Nat)
  | reply (r : Nat)
  | request (rq : Nat)

structure PipeMsg where
  len : Nat
  handles : List (Option PipeHandle)
  bytes : List UInt8

inductive ReplyDelivery where
  | data (msg : PipeMsg)
  | peerClosed

inductive WaitPayload where
  | event (word : Nat)
  | interrupt (line : Nat)
  | timer (fires : Nat)
  | process (status : Nat)
  | readable (state : OutletLevel)
  | room (state : InletLevel)
  | reply (outcome : ReplyDelivery)
  | abandoned
  | message (msg : PipeMsg) (request : Nat)

structure WaitResult where
  key : Nat
  what : WaitPayload

def decodeHandle (kind word : Nat) : Except Panic (Option PipeHandle) :=
  if word = noHandle then .ok none
  else
    match BootHandleKind.ofRaw kind with
    | none => .error (.handleKind kind)
    | some .memory => .ok (some (.memory word))
    | some .ioMemory => .ok (some (.ioMemory word))
    | some .pipeInlet => .ok (some (.inlet word))
    | some .pipeOutlet => .ok (some (.outlet word))
    | some .pipeReply => .ok (some (.reply word))
    | some .pipeRequest => .ok (some (.request word))
    | some .process => .error .carriesProcess
    | some .system => .error .carriesSystem

def msgOf (packed : PipeMsgMeta) (words : List Nat) (bytes : List UInt8) : Except Panic PipeMsg := do
  let handles ← (List.range pipeMsgHandles).mapM fun i => decodeHandle (packed.kinds.getD i 0) (words.getD i noHandle)
  return ⟨packed.len, handles, bytes⟩

def waitMessage (buf : WaitBuffer) : Except Panic PipeMsg :=
  msgOf buf.packed ((List.range pipeMsgHandles).map fun i => buf.handles.getD (waitMsgSlot0 + i) noHandle) buf.body

def decodeWait (buf : WaitBuffer) : Except Panic WaitResult :=
  let key := buf.header.getD 0 0
  let tag := buf.header.getD 1 0
  let payload := buf.header.getD 2 0
  match WaitTag.ofRaw tag with
  | none => .error (.waitTag tag)
  | some .event => .ok ⟨key, .event payload⟩
  | some .interrupt => .ok ⟨key, .interrupt payload⟩
  | some .timer => .ok ⟨key, .timer payload⟩
  | some .process => .ok ⟨key, .process payload⟩
  | some .readable =>
    match OutletLevel.ofRaw payload with
    | none => .error (.outletLevel payload)
    | some level => .ok ⟨key, .readable level⟩
  | some .room =>
    match InletLevel.ofRaw payload with
    | none => .error (.inletLevel payload)
    | some level => .ok ⟨key, .room level⟩
  | some .reply =>
    match ReplyLevel.ofRaw payload with
    | none => .error (.replyLevel payload)
    | some .data => do
      let got ← waitMessage buf
      return ⟨key, .reply (.data got)⟩
    | some .peerClosed => .ok ⟨key, .reply .peerClosed⟩
  | some .abandoned => .ok ⟨key, .abandoned⟩
  | some .message => do
    let word := buf.handles.getD waitRequestSlot noHandle
    if word = noHandle then .error .noObligation
    else
      let got ← waitMessage buf
      return ⟨key, .message got word⟩

theorem decodeWait_data {key : Nat} {packed : PipeMsgMeta} {handles : List Nat} {bytes : List UInt8} {msg : PipeMsg}
    (got : waitMessage ⟨[key, WaitTag.reply.word, replyLevelData], packed, handles, bytes⟩ = .ok msg) :
    decodeWait ⟨[key, WaitTag.reply.word, replyLevelData], packed, handles, bytes⟩ = .ok ⟨key, .reply (.data msg)⟩ := by
  have decoded : decodeWait ⟨[key, WaitTag.reply.word, replyLevelData], packed, handles, bytes⟩ =
    (waitMessage ⟨[key, WaitTag.reply.word, replyLevelData], packed, handles, bytes⟩).bind fun got =>
      .ok ⟨key, .reply (.data got)⟩ := rfl
  rw [decoded, got]
  rfl

theorem decodeWait_message {key payload request : Nat} {packed : PipeMsgMeta} {words : List Nat}
    {bytes : List UInt8} {msg : PipeMsg} (minted : request ≠ noHandle)
    (got : waitMessage ⟨[key, WaitTag.message.word, payload], packed, request :: words, bytes⟩ = .ok msg) :
    decodeWait ⟨[key, WaitTag.message.word, payload], packed, request :: words, bytes⟩ = .ok
      ⟨key, .message msg request⟩ := by
  have decoded : decodeWait ⟨[key, WaitTag.message.word, payload], packed, request :: words, bytes⟩ =
    if request = noHandle then .error .noObligation
    else (waitMessage ⟨[key, WaitTag.message.word, payload], packed, request :: words, bytes⟩).bind fun got =>
      .ok ⟨key, .message got request⟩ := rfl
  rw [decoded, if_neg minted, got]
  rfl

/-- The message of a wait record is in the slots behind the first. -/
theorem waitMessage_slots {header words : List Nat} {request : Nat} {packed : PipeMsgMeta} {bytes : List UInt8}
    (four : words.length = pipeMsgHandles) :
    waitMessage ⟨header, packed, request :: words, bytes⟩ = msgOf packed words bytes := by
  have slots : (List.range pipeMsgHandles).map
    (fun i => (request :: words).getD (waitMsgSlot0 + i) noHandle) = words := by
    refine List.ext_getElem (by simp [four]) fun i _ hi => ?_
    simp [waitMsgSlot0, Nat.add_comm 1, hi]
  rw [waitMessage, slots]

/-- What `PipeInlet.send` and `PipeReply.resolve` make of their buffer. -/
def decodeMsg (rec : PipeMsgRecord) : Except Panic PipeMsg := msgOf rec.packed rec.handles rec.bytes

/-- What `PipeOutlet.take` makes of its buffer: the message and the obligation. -/
def decodeTake (rec : PipeTakeRecord) : Except Panic (PipeMsg × Nat) := do
  let got ← decodeMsg rec.msg
  return (got, rec.request)

end Sos

end Sawos
