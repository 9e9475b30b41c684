import Sawos.Kernel.Syscalls

/-! # System calls on connections -/

namespace Sawos
open Exec

variable [Hal]

/-! ### What a sender passes -/

/-- The checks that a sender's handle words pass, each failure the sender's. -/
def checkWord (p word : Nat) : M Unit :=
  whenever (word ≠ noHandle) do
    let entry ← lookupHandle p word
    whenever (entry.objType = .unbound) (faultProcess p .badHandle)
    whenever (!rightsAllowTransfer entry.rights) (faultProcess p .accessDenied)
    whenever (msgKindOf entry.objType).isNone (faultProcess p .badArg)

def checkSend (p : Nat) (args : PipeSendRecord) : M Unit := do
  whenever (pipeBodyBytes < args.len) (faultProcess p .badArg)
  countUp (fun i => checkWord p (args.handles.getD i noHandle)) pipeMsgHandles 0

def sendArgs (p src bytes : Nat) : M PipeSendRecord := do
  whenever (bytes ≠ pipeSendRecordBytes) (faultProcess p .badArg)
  match ← copyIn p src bytes with
  | .error why => faultProcess p why
  | .ok data =>
    let args := PipeSendRecord.ofBytes data
    checkSend p args
    return args

/-! ### Ending an entry -/

/-- An attachment that watches what is consumed goes with it. -/
def detachWatcher (watched : WaitableKind) (target : Nat) : M Unit := do
  match ← waitableAttachment watched target with
  | none => return
  | some a =>
    detachAttachment (← attachments.read a).waiter a
    unrefWaitable watched target

def detachConsumed : ObjType → Nat → M Unit
  | .pipeReply, target => detachWatcher .pipeReply target
  | .pipeRequest, target => detachWatcher .pipeRequest target
  | _, _ => pure ()

def consumeEntry (p word : Nat) (kind : ObjType) (target : Nat) : M Unit := do
  detachConsumed kind target
  unbindHandle p (handleWordIndex word)
  unrefObject kind target

/-! ### The inlet -/

def pipePost (p slot src bytes : Nat) : M SyscallResult := do
  let args ← sendArgs p src bytes
  if (← pipes.read slot).outletRefs = 0 then return opStatus .peerClosed
  match ← allocExchange slot with
  | none => return opStatus .wouldBlock
  | some x =>
    refuse p (← fillBody p x args)
    let claim ← mintHandle p .pipeReply pipeReplyRights x
    minted p claim do
      stageMessage p slot x args
      notifyReady .pipeOutlet slot

def pipeCall (p slot src bytes replyDst : Nat) : M SyscallResult := do
  let args ← sendArgs p src bytes
  refuse p (← copyOutCheck p replyDst pipeMsgRecordBytes)
  whenever (args.len ≠ 0) do
    refuse p (← copyInCheck p args.body args.len)
  refuse p (← copyInCheck p src bytes)
  let cur ← parking p
  if (← pipes.read slot).outletRefs = 0 then return opStatus .peerClosed
  match ← allocExchange slot with
  | none =>
    blockOnCallRoom cur slot src bytes replyDst
    return opBlocked
  | some x =>
    refuse p (← fillBody p x args)
    stageMessage p slot x args
    blockOnCallReply cur x replyDst
    notifyReady .pipeOutlet slot
    return opBlocked

def pipeInletOp (p raw rights slot arg0 arg1 arg2 : Nat) : M SyscallResult := do
  match PipeInletOp.ofRaw raw with
  | none => faultProcess p .badOp
  | some .post =>
    require p rights PipeInletRight.post
    pipePost p slot arg0 arg1
  | some .call =>
    require p rights PipeInletRight.post
    pipeCall p slot arg0 arg1 arg2

/-! ### The outlet -/

/-- Copy a record and the body behind it to the caller. -/
def copyRecord (p dst : Nat) (data : List UInt8) (bodyOffset : Nat) (body : List UInt8) : M Unit := do
  refuse p (← copyOut p dst data)
  whenever (!body.isEmpty) do
    refuse p (← copyOut p (← addWord dst bodyOffset) body)

def pipeTake (p slot dst cap : Nat) : M SyscallResult := do
  whenever (cap < pipeTakeRecordBytes) (faultProcess p .badArg)
  refuse p (← copyOutCheck p dst pipeTakeRecordBytes)
  match ← stagePeek slot with
  | none => return opStatus (if (← pipes.read slot).inletRefs = 0 then .peerClosed else .wouldBlock)
  | some x =>
    if ← tableRoom p ((← stagedCount x) + 1) then
      let request ← mintHandle p .pipeRequest pipeRequestRights x
      whenever (request = noHandle) fatalKernel
      let moved ← mintStaged x p
      let ex ← exchanges.read x
      copyRecord p dst (wordBytesLe wordBytes request ++ msgPrefix ex.len moved) pipeTakeBodyOffset
        (ex.body.take ex.len)
      stagePop slot
      exchanges.modify x ({ · with requestRefs := 1, state := .taken })
      return opOk
    else
      return opStatus (← mintRefusal p)

def pipeOutletOp (p raw rights slot arg0 arg1 : Nat) : M SyscallResult := do
  match PipeOutletOp.ofRaw raw with
  | none => faultProcess p .badOp
  | some .take =>
    require p rights PipeOutletRight.take
    pipeTake p slot arg0 arg1

/-! ### The claim -/

def parkResolve (p word x dst : Nat) : M SyscallResult := do
  let cur ← parking p
  detachConsumed .pipeReply x
  unbindHandle p (handleWordIndex word)
  blockOnCallReply cur x dst
  return opBlocked

/-- The claim is spent, and there is no reply. -/
def resolveClosed (p word x : Nat) : M SyscallResult := do
  consumeEntry p word .pipeReply x
  return opStatus .peerClosed

def resolveReplied (p word x dst : Nat) : M SyscallResult := do
  if ← tableRoom p (← stagedCount x) then
    let len := (← exchanges.read x).len
    let moved ← mintStaged x p
    copyRecord p dst (msgPrefix len moved) pipeMsgBodyOffset ((← exchanges.read x).body.take len)
    consumeEntry p word .pipeReply x
    return opValue len
  else
    let why ← mintRefusal p
    consumeEntry p word .pipeReply x
    return opStatus why

def pipeResolve (p word x dst cap : Nat) : M SyscallResult := do
  whenever (cap < pipeMsgRecordBytes) (faultProcess p .badArg)
  refuse p (← copyOutCheck p dst pipeMsgRecordBytes)
  let ex ← exchanges.read x
  match ex.state with
  | .replied => resolveReplied p word x dst
  | .taken => if ex.requestRefs = 0 then resolveClosed p word x else parkResolve p word x dst
  | .staged =>
    if (← pipes.read (exchangePipe x)).outletRefs = 0 then resolveClosed p word x else parkResolve p word x dst
  | .settled => resolveClosed p word x
  | .free => fatalKernel

def pipeReady (x : Nat) : M SyscallResult := do
  let ex ← exchanges.read x
  match ex.state with
  | .replied => return opOk
  | .taken => return opStatus (if ex.requestRefs = 0 then .peerClosed else .wouldBlock)
  | .staged =>
    return opStatus (if (← pipes.read (exchangePipe x)).outletRefs = 0 then .peerClosed else .wouldBlock)
  | .settled => return opStatus .peerClosed
  | .free => fatalKernel

def pipeReplyOp (p raw rights word slot arg0 arg1 : Nat) : M SyscallResult := do
  match PipeReplyOp.ofRaw raw with
  | none => faultProcess p .badOp
  | some .resolve =>
    require p rights PipeReplyRight.resolve
    pipeResolve p word slot arg0 arg1
  | some .ready =>
    require p rights PipeReplyRight.wait
    pipeReady slot

/-! ### The obligation -/

/-- A reply to a claim that is gone or answered: the obligation is spent. -/
def replyClosed (p word x : Nat) : M SosStatus := do
  consumeEntry p word .pipeRequest x
  return .peerClosed

def pipeReplyStatus (p word x : Nat) (args : PipeSendRecord) : M SosStatus := do
  let ex ← exchanges.read x
  match ex.state with
  | .taken =>
    if ex.replyRefs = 0 then replyClosed p word x
    else
      refuse p (← fillBody p x args)
      exchanges.modify x ({ · with len := args.len })
      holdStaged p x args
      exchanges.modify x ({ · with state := .replied })
      notifyClaim x
      consumeEntry p word .pipeRequest x
      return .ok
  | .replied => replyClosed p word x
  | .settled => replyClosed p word x
  | .staged => fatalKernel
  | .free => fatalKernel

def replyWaitWaiter (p handle : Nat) : M Nat := do
  let entry ← lookupHandle p handle
  if entry.objType = .waiter then
    require p entry.rights WaiterRight.wait
    return entry.target
  else
    faultProcess p .badHandle

def pipeReplyWaitRecordBytes : Nat := wordBytes + pipeSendRecordBytes

def pipeReplyWait (p word x src bytes dst : Nat) : M SyscallResult := do
  whenever (bytes ≠ pipeReplyWaitRecordBytes) (faultProcess p .badArg)
  match ← copyIn p src bytes with
  | .error why => faultProcess p why
  | .ok data =>
    let args := PipeSendRecord.ofBytes (data.drop wordBytes)
    checkSend p args
    let w ← replyWaitWaiter p (ofBytesLe (data.take wordBytes))
    refuse p (← copyOutCheck p dst waitRecordBytes)
    let answered ← pipeReplyStatus p word x args
    if answered = .ok then deliverOrPark p w dst
    else return opStatusValue answered replyWaitLegReply

def pipeRequestOp (p raw rights word slot arg0 arg1 arg2 : Nat) : M SyscallResult := do
  match PipeRequestOp.ofRaw raw with
  | none => faultProcess p .badOp
  | some .reply =>
    require p rights PipeRequestRight.reply
    let args ← sendArgs p arg0 arg1
    return opStatus (← pipeReplyStatus p word slot args)
  | some .replyWait =>
    require p rights PipeRequestRight.reply
    pipeReplyWait p word slot arg0 arg1 arg2

end Sawos
