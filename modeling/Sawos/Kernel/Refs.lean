import Sawos.Kernel.Process

/-! # References

Taking and dropping references, and the cascade that a last reference sets off: objects are freed, exchanges
settle, what they held is released, and what became ready is delivered. Every call of the cascade back into
itself goes through `unref_object`, so the functions of the cascade are written over the `unref` they call. -/

namespace Sawos
open Exec

variable [Hal]

/-! ### Reference columns -/

/-- The kinds that have a reference column. -/
def ObjType.counted : ObjType → Bool
  | .unbound | .system | .thread | .clock => false
  | _ => true

def readRefs : ObjType → Nat → M Nat
  | .event, slot => do return (← events.read slot).refs
  | .waiter, slot => do return (← waiters.read slot).refs
  | .interrupt, slot => do return (← interrupts.read slot).refs
  | .timer, slot => do return (← timers.read slot).refs
  | .memory, slot => do return (← memories.read slot).refs
  | .ioMemory, slot => do return (← ioMemories.read slot).refs
  | .mapping, slot => do return (← mappings.read slot).refs
  | .process, slot => do return (← processes.read slot).refs
  | .pipeInlet, slot => do return (← pipes.read slot).inletRefs
  | .pipeOutlet, slot => do return (← pipes.read slot).outletRefs
  | .pipeReply, slot => do return (← exchanges.read slot).replyRefs
  | .pipeRequest, slot => do return (← exchanges.read slot).requestRefs
  | .unbound, _ | .system, _ | .thread, _ | .clock, _ => return 0

def writeRefs : ObjType → Nat → Nat → M Unit
  | .event, slot, n => events.modify slot ({ · with refs := n })
  | .waiter, slot, n => waiters.modify slot ({ · with refs := n })
  | .interrupt, slot, n => interrupts.modify slot ({ · with refs := n })
  | .timer, slot, n => timers.modify slot ({ · with refs := n })
  | .memory, slot, n => memories.modify slot ({ · with refs := n })
  | .ioMemory, slot, n => ioMemories.modify slot ({ · with refs := n })
  | .mapping, slot, n => mappings.modify slot ({ · with refs := n })
  | .process, slot, n => processes.modify slot ({ · with refs := n })
  | .pipeInlet, slot, n => pipes.modify slot ({ · with inletRefs := n })
  | .pipeOutlet, slot, n => pipes.modify slot ({ · with outletRefs := n })
  | .pipeReply, slot, n => exchanges.modify slot ({ · with replyRefs := n })
  | .pipeRequest, slot, n => exchanges.modify slot ({ · with requestRefs := n })
  | .unbound, _, _ | .system, _, _ | .thread, _, _ | .clock, _, _ => pure ()

def refObject (kind : ObjType) (slot : Nat) : M Unit :=
  whenever kind.counted do
    let n ← bump (← readRefs kind slot)
    writeRefs kind slot n

def waitableObjType : WaitableKind → ObjType
  | .event => .event
  | .interrupt => .interrupt
  | .timer => .timer
  | .process => .process
  | .pipeOutlet => .pipeOutlet
  | .pipeInlet => .pipeInlet
  | .pipeReply => .pipeReply
  | .pipeRequest => .pipeRequest

def refWaitable (kind : WaitableKind) (slot : Nat) : M Unit := refObject (waitableObjType kind) slot

/-! ### Records -/

/-- What a caller sends: where its body is, and the handles that go with it. -/
structure PipeSendRecord where
  body : Nat
  len : Nat
  handles : List Nat

def pipeSendRecordBytes : Nat := (2 + pipeMsgHandles) * wordBytes

/-- The words of a record. -/
def recordWords : Nat → List UInt8 → List Nat
  | 0, _ => []
  | n + 1, l => ofBytesLe (l.take wordBytes) :: recordWords n (l.drop wordBytes)

def PipeSendRecord.ofWords (l : List Nat) : PipeSendRecord := ⟨l.getD 0 0, l.getD 1 0, l.drop 2⟩

def PipeSendRecord.ofBytes (l : List UInt8) : PipeSendRecord := .ofWords (recordWords (2 + pipeMsgHandles) l)

/-- Handles minted for a message: the kind of each and its word, 0 and `noHandle` where there is none. -/
abbrev StagedHandles : Type := List (Nat × Nat)

/-- The packed length and kinds, padded to a word. -/
def msgMetaBytes (len : Nat) (kinds : List Nat) : List UInt8 :=
  UInt8.ofNat len :: kinds.map UInt8.ofNat ++ [0, 0, 0]

def msgPrefix (len : Nat) (moved : StagedHandles) : List UInt8 :=
  msgMetaBytes len (moved.map (·.1)) ++ moved.flatMap fun m => wordBytesLe wordBytes m.2

def pipeMsgBodyOffset : Nat := 8 + pipeMsgHandles * wordBytes
def pipeMsgRecordBytes : Nat := pipeMsgBodyOffset + pipeBodyBytes
def pipeTakeBodyOffset : Nat := wordBytes + pipeMsgBodyOffset
def pipeTakeRecordBytes : Nat := pipeTakeBodyOffset + pipeBodyBytes
def waitMetaEndBytes : Nat := 3 * wordBytes + 8
def waitPrefixBytes : Nat := waitMetaEndBytes + waitHandleSlots * wordBytes
def waitRecordBytes : Nat := waitPrefixBytes + pipeBodyBytes

structure WaitPrefix where
  key : Nat
  tag : WaitTag
  payload : Nat
  len : Nat
  kinds : List Nat
  handles : List Nat

def WaitPrefix.bytes (rec : WaitPrefix) : List UInt8 :=
  wordBytesLe wordBytes rec.key ++ wordBytesLe wordBytes rec.tag.word ++ wordBytesLe wordBytes rec.payload ++
    msgMetaBytes rec.len rec.kinds ++ rec.handles.flatMap (wordBytesLe wordBytes)

/-- A record without a body or a handle ends after its meta. -/
def WaitPrefix.carries (rec : WaitPrefix) : Bool := rec.len ≠ 0 || rec.handles.any (· ≠ noHandle)

/-- Copy the body of a message into an exchange; `some` reason when the copy door refused. A record that was rewritten
    while its caller was parked may name more bytes than an exchange has: what they would be written over is not in
    the model, and the machine stops. -/
def fillBody (p x : Nat) (args : PipeSendRecord) : M (Option FaultReason) := do
  if args.len = 0 then return none
  match ← copyIn p args.body args.len with
  | .error why => return some why
  | .ok bytes =>
    whenever (pipeBodyBytes < bytes.length) (halt .overrun)
    exchanges.modify x ({ · with body := bytes })
    return none

def deliverWaitRecord (p dst : Nat) (rec : WaitPrefix) (body : List UInt8) : M Unit := do
  let refused ← copyOut p dst (if rec.carries then rec.bytes else rec.bytes.take waitMetaEndBytes)
  whenever refused.isSome (halt .fatalDoor)
  whenever (rec.len ≠ 0) do
    let refused ← copyOut p (← addWord dst waitPrefixBytes) body
    whenever refused.isSome (halt .fatalDoor)

def deliveryConsumes : WaitableKind → Bool
  | .pipeReply => true
  | _ => false

def outletTakeDelivery : WaitableKind → Nat → Bool → M Bool
  | .pipeOutlet, target, owns => do return owns && (← pipes.read target).staged.isSome
  | _, _, _ => return false

def replyCarriesHandles : WaitableKind → WaitAnswer → Bool
  | .pipeReply, answer => answer.payload = replyLevelData
  | _, _ => false

/-- Make the threads parked on a Waiter runnable with `Revoked`. -/
def revokeBlocked (w : Nat) : M Unit := do
  let head := (← waiters.read w).blocked
  waiters.modify w ({ · with blocked := none })
  loop (fun cur : Option Nat => do
    match cur with
    | none => return .inr ()
    | some slot =>
      let next := (← threads.read slot).link
      threads.modify slot ({ · with waitBuf := 0 })
      writeResult slot (opStatus .revoked)
      makeRunnable slot
      return .inl next) head

/-! ### The cascade -/

namespace Cascade

section
variable (unref : ObjType → Nat → M Unit)

def unrefWaitable (kind : WaitableKind) (slot : Nat) : M Unit := unref (waitableObjType kind) slot

/-- Move one handle of a sender onto an exchange. -/
def holdRef (p x i word : Nat) : M Unit := do
  if word = noHandle then return
  let entry ← lookupHandle p word
  if entry.objType = .unbound then return
  whenever (rightsAllowTransfer entry.rights && (msgKindOf entry.objType).isSome) do
    refObject entry.objType entry.target
    unbindHandle p (handleWordIndex word)
    unref entry.objType entry.target
    exchanges.modify x fun ex =>
      { ex with held := fun j => if j = i then ⟨entry.objType, entry.rights, entry.target⟩ else ex.held j }

def holdStaged (p x : Nat) (args : PipeSendRecord) : M Unit :=
  countUp (fun i => holdRef unref p x i (args.handles.getD i noHandle)) pipeMsgHandles 0

/-- Mint one handle of an exchange into a table that was found to have room. -/
def mintRef (p : Nat) (ref : StagedRef) : M (Nat × Nat) := do
  if ref.objType = .unbound then return (0, noHandle)
  let given ← mintHandle p ref.objType ref.rights ref.target
  whenever (given = noHandle) fatalKernel
  refObject ref.objType ref.target
  unref ref.objType ref.target
  match msgKindOf ref.objType with
  | none => fatalKernel
  | some kind => return (kind.word, given)

def mintRefs (p : Nat) (held : Nat → StagedRef) : Nat → Nat → M StagedHandles
  | 0, _ => return []
  | n + 1, i => do
    let moved ← mintRef unref p (held i)
    let rest ← mintRefs p held n (i + 1)
    return moved :: rest

def mintStaged (x p : Nat) : M StagedHandles := do
  let held ← takeStaged x
  mintRefs unref p held pipeMsgHandles 0

def releaseStaged (held : Nat → StagedRef) : M Unit :=
  countUp (fun i => whenever ((held i).objType ≠ .unbound) (unref (held i).objType (held i).target)) pipeMsgHandles 0

def pipeDropStaged (c : Nat) : M Unit := do
  let head := (← pipes.read c).staged
  pipes.modify c ({ · with staged := none })
  loop (fun cur : Option Nat => do
    match cur with
    | none => return .inr ()
    | some x =>
      let next := (← exchanges.read x).next
      exchanges.modify x ({ · with next := none })
      whenever (← exchangeCanSettle x) do
        releaseStaged unref (← exchangeSettle x)
      return .inl next) head

/-- The attachment that delivered has done its work: it goes, with its reference. -/
def endAttachment (ends : Bool) (waiter a : Nat) (kind : WaitableKind) (target : Nat) : M Unit :=
  whenever ends do
    detachAttachment waiter a
    unrefWaitable unref kind target

/-- A delivery that takes the message at the head of a connection. -/
def deliverTake (p dst key waiter a c : Nat) (ends : Bool) : M SosStatus := do
  match ← stagePeek c with
  | none => fatalKernel
  | some x =>
    if ← tableRoom p ((← stagedCount x) + 1) then
      let request ← mintHandle p .pipeRequest pipeRequestRights x
      whenever (request = noHandle) fatalKernel
      let moved ← mintStaged unref x p
      let ex ← exchanges.read x
      deliverWaitRecord p dst
        ⟨key, .message, outletLevelMsg, ex.len, moved.map (·.1), request :: moved.map (·.2)⟩ (ex.body.take ex.len)
      stagePop c
      exchanges.modify x ({ · with requestRefs := 1, state := .taken })
      endAttachment unref ends waiter a .pipeOutlet c
      return .ok
    else
      mintRefusal p

/-- The handles of a reply, minted for a delivery that carries them; `none` when the table has no room. -/
def mintReply (carries : Bool) (target p : Nat) : M (Option StagedHandles) := do
  if carries then
    if ← tableRoom p (← stagedCount target) then
      return some (← mintStaged unref target p)
    else
      return none
  else
    return some (List.replicate pipeMsgHandles (0, noHandle))

def deliverAttachment (p dst a : Nat) : M SosStatus := do
  let att ← attachments.read a
  let ends := att.oneshot || deliveryConsumes att.kind
  if ← outletTakeDelivery att.kind att.target att.owns then
    deliverTake unref p dst att.key att.waiter a att.target ends
  else
    let answer ← waitableAnswer att.kind att.target
    match ← mintReply unref (replyCarriesHandles att.kind answer) att.target p with
    | none => mintRefusal p
    | some moved =>
      deliverWaitRecord p dst
        ⟨att.key, answer.tag, answer.payload, answer.bodyLen, moved.map (·.1), noHandle :: moved.map (·.2)⟩
        answer.body
      waitableConsume att.kind att.target
      endAttachment unref ends att.waiter a att.kind att.target
      return .ok

def wakeOneWaiter (w a : Nat) : M Unit := do
  match ← takeBlocked w with
  | none => return
  | some slot =>
    let thread ← threads.read slot
    let answered ← deliverAttachment unref thread.process thread.waitBuf a
    threads.modify slot ({ · with waitBuf := 0 })
    writeResult slot (opStatus answered)
    makeRunnable slot

def notifyReady (kind : WaitableKind) (slot : Nat) : M Unit := do
  match ← waitableAttachment kind slot with
  | none => return
  | some a => wakeOneWaiter unref (← attachments.read a).waiter a

def notifyIfReady (kind : WaitableKind) (slot : Nat) : M Unit := do
  if (← waitableAttachment kind slot).isNone then return
  whenever (← waitableReady kind slot) (notifyReady unref kind slot)

/-- The answer to a thread whose call is tied to a claim: the reply, with its handles and its body. -/
def answerCallReply (t x : Nat) : M SyscallResult := do
  let thread ← threads.read t
  let answer ← waitableAnswer .pipeReply x
  if answer.payload = replyLevelData then
    if ← tableRoom thread.process (← stagedCount x) then
      let moved ← mintStaged unref x thread.process
      let refused ← copyOut thread.process thread.waitBuf (msgPrefix answer.bodyLen moved)
      whenever refused.isSome (halt .fatalDoor)
      whenever (answer.bodyLen ≠ 0) do
        let refused ← copyOut thread.process (← addWord thread.waitBuf pipeMsgBodyOffset) answer.body
        whenever refused.isSome (halt .fatalDoor)
      return opValue answer.bodyLen
    else
      return opStatus (← mintRefusal thread.process)
  else
    return opStatus .peerClosed

def wakeCallReply (t x : Nat) : M Unit := do
  let result ← answerCallReply unref t x
  waitableConsume .pipeReply x
  clearPendingCall t
  writeResult t result
  makeRunnable t
  unrefWaitable unref .pipeReply x

def notifyClaim (x : Nat) : M Unit := do
  match (← exchanges.read x).caller with
  | none => notifyIfReady unref .pipeReply x
  | some parked => whenever (← waitableReady .pipeReply x) (wakeCallReply unref parked x)

def notifyClaims (c : Nat) : M Unit := countUp (fun i => notifyClaim unref (pipeExchangeAt c i)) pipeInflight 0

/-- Put a message, its body in place, on a connection: its handles are held and its claim is counted. -/
def stageMessage (p c x : Nat) (args : PipeSendRecord) : M Unit := do
  exchanges.modify x ({ · with len := args.len })
  holdStaged unref p x args
  exchanges.modify x ({ · with replyRefs := 1, requestRefs := 0, state := .staged })
  stagePush c x

/-- Answer a caller that parked for room: with a message staged, or that its peer is gone. -/
def resumeCallRoom (t c : Nat) : M Bool := do
  let thread ← threads.read t
  if (← pipes.read c).outletRefs = 0 then
    clearPendingCall t
    writeResult t (opStatus .peerClosed)
    makeRunnable t
    return true
  else
    match ← allocExchange c with
    | none => return false
    | some x =>
      match ← copyIn thread.process thread.callSrc thread.callLen with
      | .error _ => halt .fatalDoor
      | .ok bytes =>
        let args := PipeSendRecord.ofBytes bytes
        let refused ← fillBody thread.process x args
        whenever refused.isSome (halt .fatalDoor)
        stageMessage unref thread.process c x args
        tieCallReply t x thread.waitBuf
        notifyReady unref .pipeOutlet c
        return true

def resumeCallers (c : Nat) : M Unit :=
  loop (fun _ : Unit => do
    match ← callRoomWaiter c with
    | none => return .inr ()
    | some t => return if ← resumeCallRoom unref t c then .inl () else .inr ()) ()

def notifyRoom (c : Nat) : M Unit := do
  resumeCallers unref c
  notifyIfReady unref .pipeInlet c

def settleExchange (x : Nat) : M Unit := do
  let held ← exchangeSettle x
  releaseStaged unref held
  whenever ((← pipes.read (exchangePipe x)).state = .live) (notifyRoom unref (exchangePipe x))

/-- Free the attachments of a Waiter from `cur` on, each with its reference. -/
def freeAttachments (cur : Option Nat) : M Unit :=
  loop (fun cur : Option Nat => do
    match cur with
    | none => return .inr ()
    | some a =>
      let att ← attachments.read a
      attachments.write a .vacant
      setWaitableAttachment att.kind att.target none
      unrefWaitable unref att.kind att.target
      return .inl att.link) cur

def freeObject : ObjType → Nat → M Unit
  | .event, slot => do
    let e ← events.read slot
    whenever e.attachment.isSome fatalKernel
    events.write slot .vacant
    quotaCredit e.process .event
  | .waiter, slot => do
    freeAttachments unref (← waiters.read slot).attached
    revokeBlocked slot
    let owner := (← waiters.read slot).process
    waiters.write slot .vacant
    quotaCredit owner .waiter
  | .interrupt, slot => do
    let q ← interrupts.read slot
    whenever q.attachment.isSome fatalKernel
    irqMask q.line
    interrupts.write slot .vacant
    quotaCredit q.process .interrupt
  | .timer, slot => do
    let t ← timers.read slot
    whenever t.attachment.isSome fatalKernel
    timers.write slot .vacant
    reprogramTimer
    quotaCredit t.process .timer
  | .memory, slot => memoryReleaseIfIdle slot
  | .ioMemory, slot => do
    let region ← ioMemories.read slot
    ioMemories.write slot .vacant
    quotaCredit region.process .ioMemory
  | .mapping, slot => mappings.write slot .vacant
  | .process, slot => do
    whenever (← processes.read slot).attachment.isSome fatalKernel
    reclaimProcessSlot slot
  | .pipeInlet, slot => freePipe slot
  | .pipeOutlet, slot => freePipe slot
  | .pipeReply, slot => settleExchange unref slot
  | .pipeRequest, slot => settleExchange unref slot
  | .system, _ | .clock, _ | .thread, _ | .unbound, _ => fatalKernel

/-- What follows the drop of a reference: whoever waits for the end of that side is told. Answers whether the
    object goes now; `last` says that this was its last reference of the kind. -/
def dropped (last : Bool) : ObjType → Nat → M Bool
  | .pipeInlet, slot => do
    whenever last (notifyIfReady unref .pipeOutlet slot)
    pipeFreesNow slot
  | .pipeOutlet, slot => do
    whenever last do
      pipeDropStaged unref slot
      notifyRoom unref slot
      notifyClaims unref slot
    pipeFreesNow slot
  | .pipeReply, slot => do
    whenever last (notifyIfReady unref .pipeRequest slot)
    exchangeCanSettle slot
  | .pipeRequest, slot => do
    whenever last (notifyClaim unref slot)
    exchangeCanSettle slot
  | _, _ => return last

def dropReference (kind : ObjType) (slot : Nat) : M Bool := do
  if kind.counted then
    let n ← readRefs kind slot
    if n = 0 then return false
    writeRefs kind slot (n - 1)
    dropped unref (n = 1) kind slot
  else
    return false

def unrefObject (kind : ObjType) (slot : Nat) : M Unit := do
  whenever (← dropReference unref kind slot) (freeObject unref kind slot)

end

end Cascade

/-- Drop one reference; the object goes with its last. -/
def unrefObject (kind : ObjType) (slot : Nat) : M Unit :=
  recur (fun again (o : ObjType × Nat) => Cascade.unrefObject (fun k i => again (k, i)) o.1 o.2) (kind, slot)

def unrefWaitable (kind : WaitableKind) (slot : Nat) : M Unit := unrefObject (waitableObjType kind) slot

/-- Drop a reference of a process that is being torn down; what it named is freed later. -/
def unrefTeardown (kind : ObjType) (slot : Nat) : M Unit := do
  let _ ← Cascade.dropReference unrefObject kind slot

def unrefWaitableTeardown (kind : WaitableKind) (slot : Nat) : M Unit := unrefTeardown (waitableObjType kind) slot

def freeObject : ObjType → Nat → M Unit := Cascade.freeObject unrefObject
def deliverAttachment : Nat → Nat → Nat → M SosStatus := Cascade.deliverAttachment unrefObject
def mintStaged : Nat → Nat → M StagedHandles := Cascade.mintStaged unrefObject
def holdStaged : Nat → Nat → PipeSendRecord → M Unit := Cascade.holdStaged unrefObject
def stageMessage : Nat → Nat → Nat → PipeSendRecord → M Unit := Cascade.stageMessage unrefObject
def releaseStaged : (Nat → StagedRef) → M Unit := Cascade.releaseStaged unrefObject
def wakeOneWaiter : Nat → Nat → M Unit := Cascade.wakeOneWaiter unrefObject
def notifyReady : WaitableKind → Nat → M Unit := Cascade.notifyReady unrefObject
def notifyClaim : Nat → M Unit := Cascade.notifyClaim unrefObject

def moveEntry (from' to' word : Nat) (entry : HandleEntry) (keep : Nat) : M Nat := do
  let given ← mintHandle to' entry.objType (entry.rights &&& keep) entry.target
  if given = noHandle then return noHandle
  refObject entry.objType entry.target
  unbindHandle from' (handleWordIndex word)
  unrefObject entry.objType entry.target
  return given

/-- Settle what the deaths of its holders left unreferenced. -/
def reapUnreferenced : M Unit := do
  countUp (fun m => do
    let region ← memories.read m
    whenever (region.state = .live && region.refs = 0) (freeObject .memory m)) (← memories.capacity) 0
  countUp (fun io => do
    let region ← ioMemories.read io
    whenever (region.state = .live && region.refs = 0) (freeObject .ioMemory io)) (← ioMemories.capacity) 0
  countUp (fun x => do
    whenever (← exchangeCanSettle x) do
      mark (.reap x)
      releaseStaged (← exchangeSettle x)) (← exchanges.capacity) 0
  countUp (fun c => do
    whenever (← pipeFreesNow c) (freePipe c)) (← pipes.capacity) 0

/-- Forget the calls of a process's threads: first those parked for room, then those tied to a claim, whose
    reference goes. -/
def releasePendingCalls (p : Nat) : M Unit := do
  countUp (fun t => do
    let thread ← threads.read t
    whenever (thread.process = p && thread.callPipe.isSome) (clearPendingCall t)) (← threads.capacity) 0
  countUp (fun u => do
    let thread ← threads.read u
    match thread.callClaim with
    | none => return
    | some x =>
      whenever (thread.process = p) do
        clearPendingCall u
        unrefWaitable .pipeReply x) (← threads.capacity) 0

def signalEvent (slot bits : Nat) : M Unit := do
  accumulate slot bits
  if (← events.read slot).word = 0 then return
  notifyReady .event slot

end Sawos
