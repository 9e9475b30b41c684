import Mathlib.Algebra.Group.Nat.Defs

/-! # The kernel's binary interface

Object kinds, rights, operations, statuses and the records that cross the system call boundary. -/

namespace Sawos

/-- What a handle entry names. -/
inductive ObjType where
  | unbound | system | process | thread | event | waiter | interrupt | clock | timer | memory | ioMemory | mapping
  | pipeInlet | pipeOutlet | pipeReply | pipeRequest
  deriving DecidableEq

inductive SosStatus where
  | ok | noResource | badImage | drained | quotaExceeded | revoked | peerClosed | wouldBlock
  deriving DecidableEq

/-- The raw value of a status in the result register. -/
def SosStatus.word : SosStatus → Nat
  | .ok => 0
  | .noResource => 4
  | .badImage => 5
  | .drained => 6
  | .quotaExceeded => 7
  | .revoked => 8
  | .peerClosed => 9
  | .wouldBlock => 10

/-- Why a process was killed for what it asked. -/
inductive FaultReason where
  | badHandle | badOp | accessDenied | notSelf | badState | badEntry | deadlock | notWaitable | badArg | badAlign
  | badBuffer | duplicateKey | lineBound
  deriving DecidableEq

def FaultReason.word : FaultReason → Nat
  | .badHandle => 1
  | .badOp => 2
  | .accessDenied => 3
  | .notSelf => 4
  | .badState => 5
  | .badEntry => 6
  | .deadlock => 7
  | .notWaitable => 8
  | .badArg => 9
  | .badAlign => 10
  | .badBuffer => 11
  | .duplicateKey => 12
  | .lineBound => 13

inductive ProcessStatusKind where
  | running | exited | faulted | killed
  deriving DecidableEq

def ProcessStatusKind.word : ProcessStatusKind → Nat
  | .running => 0
  | .exited => 1
  | .faulted => 2
  | .killed => 3

def processStatusWord (kind : ProcessStatusKind) (code : Nat) : Nat := kind.word <<< 16 ||| code &&& 0xFFFF

/-! ### Handle words -/

def noHandle : Nat := 0
def handleIndexBits : Nat := 8
def handleIndexMask : Nat := 0xFF
def handleGenerationModulus : Nat := 2 ^ 24
def rootSystemHandle : Nat := 1

/-! ### Rights

The universal rights `transfer` and `mint` are the same bits in every kind. -/

def rightTransfer : Nat := 1 <<< 0
def rightMint : Nat := 1 <<< 1

namespace SystemRight
def debug : Nat := 1 <<< 8
def shutdown : Nat := 1 <<< 9
def clockGet : Nat := 1 <<< 10
def processCreate : Nat := 1 <<< 11
def processSelf : Nat := 1 <<< 12
def slabDonate : Nat := 1 <<< 13
def tierGet : Nat := 1 <<< 14
def statsRegionMap : Nat := 1 <<< 15
end SystemRight

namespace ProcessRight
def threadCreate : Nat := 1 <<< 8
def exit : Nat := 1 <<< 9
def wait : Nat := 1 <<< 10
def eventCreate : Nat := 1 <<< 11
def waiterCreate : Nat := 1 <<< 12
def interruptBind : Nat := 1 <<< 13
def start : Nat := 1 <<< 14
def bootHandles : Nat := 1 <<< 15
def threadSelf : Nat := 1 <<< 16
def give : Nat := 1 <<< 17
def map : Nat := 1 <<< 18
def pipeCreate : Nat := 1 <<< 19
def stats : Nat := 1 <<< 20
end ProcessRight

namespace ThreadRight
def start : Nat := 1 <<< 8
def join : Nat := 1 <<< 9
def control : Nat := 1 <<< 10
end ThreadRight

namespace EventRight
def signal : Nat := 1 <<< 8
def receive : Nat := 1 <<< 9
def wait : Nat := 1 <<< 10
end EventRight

namespace WaiterRight
def attach : Nat := 1 <<< 8
def wait : Nat := 1 <<< 9
end WaiterRight

namespace InterruptRight
def wait : Nat := 1 <<< 8
def ack : Nat := 1 <<< 9
end InterruptRight

namespace ClockRight
def read : Nat := 1 <<< 8
def timerCreate : Nat := 1 <<< 9
end ClockRight

namespace TimerRight
def arm : Nat := 1 <<< 8
def wait : Nat := 1 <<< 9
end TimerRight

namespace MemoryRight
def split : Nat := 1 <<< 8
def map : Nat := 1 <<< 9
def mapExecute : Nat := 1 <<< 10
end MemoryRight

namespace IoMemoryRight
def carve : Nat := 1 <<< 8
def map : Nat := 1 <<< 9
end IoMemoryRight

namespace MappingRight
def unmap : Nat := 1 <<< 8
def base : Nat := 1 <<< 9
end MappingRight

namespace PipeInletRight
def post : Nat := 1 <<< 8
def wait : Nat := 1 <<< 9
end PipeInletRight

namespace PipeOutletRight
def take : Nat := 1 <<< 8
def wait : Nat := 1 <<< 9
end PipeOutletRight

namespace PipeReplyRight
def resolve : Nat := 1 <<< 8
def wait : Nat := 1 <<< 9
end PipeReplyRight

namespace PipeRequestRight
def reply : Nat := 1 <<< 8
def wait : Nat := 1 <<< 9
end PipeRequestRight

/-- `rights` includes the right `right`. -/
def allows (rights right : Nat) : Bool := rights &&& right != 0

def rightsAllowTransfer (rights : Nat) : Bool := allows rights rightTransfer
def rightsAllowMint (rights : Nat) : Bool := allows rights rightMint

def rootSystemRights : Nat :=
  SystemRight.debug ||| SystemRight.shutdown ||| SystemRight.processSelf ||| SystemRight.clockGet |||
    SystemRight.processCreate ||| rightMint ||| SystemRight.slabDonate ||| SystemRight.tierGet |||
    SystemRight.statsRegionMap ||| rightTransfer

def processRights : Nat :=
  ProcessRight.threadCreate ||| ProcessRight.threadSelf ||| ProcessRight.exit ||| ProcessRight.wait |||
    ProcessRight.eventCreate ||| ProcessRight.waiterCreate ||| ProcessRight.interruptBind ||| ProcessRight.start |||
    ProcessRight.bootHandles ||| ProcessRight.give ||| ProcessRight.map ||| ProcessRight.pipeCreate |||
    ProcessRight.stats ||| rightTransfer ||| rightMint

def pipeInletRights : Nat := rightTransfer ||| rightMint ||| PipeInletRight.post ||| PipeInletRight.wait
def pipeOutletRights : Nat := rightTransfer ||| rightMint ||| PipeOutletRight.take ||| PipeOutletRight.wait
def pipeReplyRights : Nat := rightTransfer ||| PipeReplyRight.resolve ||| PipeReplyRight.wait
def pipeRequestRights : Nat := rightTransfer ||| PipeRequestRight.reply ||| PipeRequestRight.wait
def memoryRights : Nat :=
    rightTransfer ||| rightMint ||| MemoryRight.split ||| MemoryRight.map ||| MemoryRight.mapExecute
def iomemoryRights : Nat := rightTransfer ||| rightMint ||| IoMemoryRight.carve ||| IoMemoryRight.map
def mappingRights : Nat := MappingRight.unmap ||| rightMint ||| MappingRight.base
def threadRights : Nat := ThreadRight.start ||| ThreadRight.join ||| ThreadRight.control ||| rightMint
def eventRights : Nat := EventRight.signal ||| EventRight.receive ||| EventRight.wait ||| rightMint
def waiterRights : Nat := WaiterRight.attach ||| WaiterRight.wait ||| rightMint
def interruptRights : Nat := InterruptRight.wait ||| InterruptRight.ack ||| rightMint
def clockRights : Nat := ClockRight.read ||| ClockRight.timerCreate ||| rightMint
def timerRights : Nat := TimerRight.arm ||| TimerRight.wait ||| rightMint

/-! ### Operations -/

def releaseOp : Nat := 0xFFFF
def mintOp : Nat := 0xFFFE

inductive SystemOp where
  | debugPrint | shutdown | processSelf | clockGet | processCreate | slabDonate | tierGet | statsRegionMap

def SystemOp.ofRaw : Nat → Option SystemOp
  | 0 => some .debugPrint
  | 1 => some .shutdown
  | 2 => some .processSelf
  | 3 => some .clockGet
  | 4 => some .processCreate
  | 5 => some .slabDonate
  | 6 => some .tierGet
  | 7 => some .statsRegionMap
  | _ => none

inductive ProcessOp where
  | threadCreate | threadSelf | exit | getStatus | eventCreate | waiterCreate | interruptBind | start
  | bootHandleNext | give | pipeCreate | stats

def ProcessOp.ofRaw : Nat → Option ProcessOp
  | 0 => some .threadCreate
  | 1 => some .threadSelf
  | 2 => some .exit
  | 3 => some .getStatus
  | 4 => some .eventCreate
  | 5 => some .waiterCreate
  | 6 => some .interruptBind
  | 7 => some .start
  | 8 => some .bootHandleNext
  | 9 => some .give
  | 10 => some .pipeCreate
  | 11 => some .stats
  | _ => none

inductive ThreadOp where
  | start | join | exit | yield

def ThreadOp.ofRaw : Nat → Option ThreadOp
  | 0 => some .start
  | 1 => some .join
  | 2 => some .exit
  | 3 => some .yield
  | _ => none

inductive EventOp where
  | signal | receive

def EventOp.ofRaw : Nat → Option EventOp
  | 0 => some .signal
  | 1 => some .receive
  | _ => none

inductive WaiterOp where
  | add | remove | wait

def WaiterOp.ofRaw : Nat → Option WaiterOp
  | 0 => some .add
  | 1 => some .remove
  | 2 => some .wait
  | _ => none

inductive InterruptOp where
  | ack

def InterruptOp.ofRaw : Nat → Option InterruptOp
  | 0 => some .ack
  | _ => none

inductive ClockOp where
  | now | timerCreate

def ClockOp.ofRaw : Nat → Option ClockOp
  | 0 => some .now
  | 1 => some .timerCreate
  | _ => none

inductive TimerOp where
  | arm | disarm

def TimerOp.ofRaw : Nat → Option TimerOp
  | 0 => some .arm
  | 1 => some .disarm
  | _ => none

inductive MemoryOp where
  | split | map

def MemoryOp.ofRaw : Nat → Option MemoryOp
  | 0 => some .split
  | 1 => some .map
  | _ => none

inductive IoMemoryOp where
  | carve | map

def IoMemoryOp.ofRaw : Nat → Option IoMemoryOp
  | 0 => some .carve
  | 1 => some .map
  | _ => none

inductive MappingOp where
  | unmap | base

def MappingOp.ofRaw : Nat → Option MappingOp
  | 0 => some .unmap
  | 1 => some .base
  | _ => none

inductive PipeInletOp where
  | post | call

def PipeInletOp.ofRaw : Nat → Option PipeInletOp
  | 0 => some .post
  | 1 => some .call
  | _ => none

inductive PipeOutletOp where
  | take

def PipeOutletOp.ofRaw : Nat → Option PipeOutletOp
  | 0 => some .take
  | _ => none

inductive PipeReplyOp where
  | resolve | ready

def PipeReplyOp.ofRaw : Nat → Option PipeReplyOp
  | 0 => some .resolve
  | 1 => some .ready
  | _ => none

inductive PipeRequestOp where
  | reply | replyWait

def PipeRequestOp.ofRaw : Nat → Option PipeRequestOp
  | 0 => some .reply
  | 1 => some .replyWait
  | _ => none

inductive BootTagForm where
  | absent | present

def BootTagForm.ofRaw : Nat → Option BootTagForm
  | 0 => some .absent
  | 1 => some .present
  | _ => none

inductive EventMode where
  | or | saturatingSum
  deriving DecidableEq

def EventMode.ofRaw : Nat → Option EventMode
  | 0 => some .or
  | 1 => some .saturatingSum
  | _ => none

inductive SlabKind where
  | events | waiters | interrupts | attachments | timers | memories | ioMemories | mappings | freeRanges | threads
  | pipes | processes
  deriving DecidableEq

def SlabKind.ofRaw : Nat → Option SlabKind
  | 0 => some .events
  | 1 => some .waiters
  | 2 => some .interrupts
  | 3 => some .attachments
  | 4 => some .timers
  | 5 => some .memories
  | 6 => some .ioMemories
  | 7 => some .mappings
  | 8 => some .freeRanges
  | 9 => some .threads
  | 10 => some .pipes
  | 11 => some .processes
  | _ => none

/-- The only clock domain is `Monotonic`, raw value 0. -/
def clockTypeKnown (raw : Nat) : Bool := raw == 0

def waiterAddOneshot : Nat := 1 <<< 0
def waiterAddConsuming : Nat := 1 <<< 1
def waiterAddFlags : Nat := waiterAddOneshot ||| waiterAddConsuming

def mapRead : Nat := 1 <<< 0
def mapWrite : Nat := 1 <<< 1
def mapExecute : Nat := 1 <<< 2
def mapAccessMask : Nat := mapRead ||| mapWrite ||| mapExecute

/-- The leg of a `ReplyWait` that answered. -/
def replyWaitLegReply : Nat := 1

/-! ### Records -/

def pipeBodyBytes : Nat := 128
def pipeMsgHandles : Nat := 4
def waitHandleSlots : Nat := 1 + pipeMsgHandles
def waitRequestSlot : Nat := 0
def waitMsgSlot0 : Nat := 1

inductive BootHandleKind where
  | memory | process | system | ioMemory | pipeInlet | pipeOutlet | pipeReply | pipeRequest
  deriving DecidableEq

def BootHandleKind.word : BootHandleKind → Nat
  | .memory => 0
  | .process => 1
  | .system => 2
  | .ioMemory => 3
  | .pipeInlet => 4
  | .pipeOutlet => 5
  | .pipeReply => 6
  | .pipeRequest => 7

/-- Which waitable answered, in a wait record. -/
inductive WaitTag where
  | event | interrupt | timer | process | readable | room | reply | abandoned | message
  deriving DecidableEq

def WaitTag.word : WaitTag → Nat
  | .event => 0
  | .interrupt => 1
  | .timer => 2
  | .process => 3
  | .readable => 4
  | .room => 5
  | .reply => 6
  | .abandoned => 7
  | .message => 8

def outletLevelMsg : Nat := 0
def outletLevelPeerGone : Nat := 1
def inletLevelRoom : Nat := 0
def inletLevelPeerGone : Nat := 1
def replyLevelData : Nat := 0
def replyLevelPeerClosed : Nat := 1

/-- `v` in `w` bytes, the lowest first. -/
def wordBytesLe : Nat → Nat → List UInt8
  | 0, _ => []
  | w + 1, v => UInt8.ofNat (v % 256) :: wordBytesLe w (v / 256)

@[simp] theorem length_wordBytesLe {w v : Nat} : (wordBytesLe w v).length = w := by
  induction w generalizing v with
  | zero => rfl
  | succ w ih => simp [wordBytesLe, ih]

/-- The number whose bytes, the lowest first, are `l`. -/
def ofBytesLe : List UInt8 → Nat
  | [] => 0
  | b :: l => b.toNat + 256 * ofBytesLe l

end Sawos
