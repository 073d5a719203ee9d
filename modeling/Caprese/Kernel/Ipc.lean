import Caprese.Kernel.CapTransfer
import Caprese.Kernel.Sched
import Caprese.Kernel.UserMemory

/-!
# `Caprese.Kernel.Ipc`: messages between tasks

The operations of `ipc.cpp`. A task that blocks leaves the processor in `resched`. What
follows there in the source is the `…Tail` of the operation, which runs when the task is
switched in again.
-/

set_option autoImplicit false

namespace Caprese

open Lib Prog

/-- `ipc_long_msg`, which shares its word with the first of `ipc_short_msg`. -/
def Task.ipcLongMsg (task : Task) : Nat := task.ipcMsg.headD 0

def Task.setIpcLongMsg (task : Task) (msg : Nat) : Task :=
  { task with ipcMsg := msg :: task.ipcMsg.tail }

/-- The bytes of a 64-bit word in memory. -/
def wordBytes (word : Nat) : List UInt8 :=
  (List.range 8).map fun i => UInt8.ofNat (word / 256 ^ i)

/-- The 64-bit word that lies in memory as `bytes`. -/
def bytesWord (bytes : List UInt8) : Nat :=
  bytes.foldr (fun b word => b.toNat + 256 * word) 0 % 2 ^ 64

/-- `sizeof(uintptr_t)`. -/
abbrev WORD_SIZE : Nat := 8

/-- `xlen`: the bits of a word of `data_type_map`. -/
abbrev XLEN : Nat := 64

/-! ### Messages -/

def readMessageHeader (task : TaskPtr) : K (Option MessageHeader) := do
  let config := (← ask).config
  let bytes ← readUserMemory task ((← get).tasks task).ipcLongMsg config.messageHeaderSize
  return bytes.map config.decodeHeader

def writeMessageHeader (task : TaskPtr) (header : MessageHeader) : K Bool := do
  writeUserMemory task ((← ask).config.encodeHeader header) ((← get).tasks task).ipcLongMsg

/-- The header of the message that `src` sends. -/
def sourceHeader (src : TaskPtr) : K (Option MessageHeader) := do
  let task := (← get).tasks src
  match task.ipcMsgState with
  | .empty => return some ⟨0, 0, 0, 0, 0, [0, 0]⟩
  | .shortSize => return some ⟨0, 0, 0, 0, 6 * WORD_SIZE, [0, 0]⟩
  | .longSize => readMessageHeader src

/-- Whether word `i` of the payload is a capability. -/
def isCapWord (dataTypeMap : List Nat) (i : Nat) : Bool :=
  (dataTypeMap.getD (i / XLEN) 0).testBit (i % XLEN)

/-- `data_type_map[i / xlen] &= ~(1ull << (i % xlen))`, for a bit that is set. -/
def clearCapWord (dataTypeMap : List Nat) (i : Nat) : List Nat :=
  dataTypeMap.modify (i / XLEN) fun word => word ^^^ 2 ^ (i % XLEN)

/-- Hands over the capability that word `i` of the payload names. -/
def transferMsgCap (dst src : TaskPtr) (i : Nat) : K Bool := do
  let offset := (← ask).config.messageHeaderSize + WORD_SIZE * i
  match ← readUserMemory src (((← get).tasks src).ipcLongMsg + offset) WORD_SIZE with
  | none => return false
  | some bytes =>
    let value := bytesWord bytes
    let capDesc := value % 2 ^ 63
    let slot ← lookupCap src capDesc
    let dstSlot ← if capDesc ≠ value then delegateCap dst slot else transferCap dst slot
    match dstSlot with
    | none => return false
    | some dstSlot =>
      let dstCapDesc ← getCapSlotIndex dstSlot
      writeUserMemory dst (wordBytes dstCapDesc) (((← get).tasks dst).ipcLongMsg + offset)

/-- The loop over the words of the payload. The answer is what is left of the source's map. -/
def transferMsgCaps (dst src : TaskPtr) : List Nat → List Nat → K (Option (List Nat))
  | [], dataTypeMap => pure (some dataTypeMap)
  | i :: is, dataTypeMap => do
    if isCapWord dataTypeMap i then
      if ← transferMsgCap dst src i then
        transferMsgCaps dst src is (clearCapWord dataTypeMap i)
      else return none
    else transferMsgCaps dst src is dataTypeMap

/-- The payload of a message in the source's memory. -/
def transferLongPayload (dst src : TaskPtr) (header : MessageHeader) : K Bool := do
  let size := (← ask).config.messageHeaderSize
  let dstMsg := ((← get).tasks dst).ipcLongMsg
  let srcMsg := ((← get).tasks src).ipcLongMsg
  if ← forwardUserMemory src dst (srcMsg + size) (dstMsg + size) header.payloadLength then
    let words := min (header.payloadLength / WORD_SIZE) (XLEN * header.dataTypeMap.length)
    match ← transferMsgCaps dst src (List.range words) header.dataTypeMap with
    | none => return false
    | some dataTypeMap =>
      if dataTypeMap ≠ header.dataTypeMap then
        writeMessageHeader src { header with dataTypeMap := dataTypeMap }
      else return true
  else return false

def transferPayload (dst src : TaskPtr) (header : MessageHeader) : K Bool := do
  let task := (← get).tasks src
  match task.ipcMsgState with
  | .empty => return true
  | .shortSize =>
    let dstMsg := ((← get).tasks dst).ipcLongMsg
    writeUserMemory dst (task.ipcMsg.flatMap wordBytes)
      (dstMsg + (← ask).config.messageHeaderSize)
  | .longSize => transferLongPayload dst src header

/-- The check of the receiver that both transfers begin with. -/
def checkReceiver (dst : TaskPtr) : K Unit := do
  if ((← get).tasks dst).ipcMsgState ≠ .longSize then stop .panic

def ipcTransferIpcMsg (dst src : TaskPtr) : K Bool := do
  checkReceiver dst
  match ← sourceHeader src with
  | none => return false
  | some srcHeader =>
    match ← readMessageHeader dst with
    | none => return false
    | some dstHeader =>
      if dstHeader.payloadCapacity < srcHeader.payloadLength then return false
      let header := { dstHeader with
        msgType := (← ask).config.msgTypeIpc
        senderId := ((← get).tasks src).tid
        receiverId := ((← get).tasks dst).tid
        payloadLength := srcHeader.payloadLength
        dataTypeMap := srcHeader.dataTypeMap }
      if ← writeMessageHeader dst header then
        if ← transferPayload dst src srcHeader then
          modify fun k => k.record (.deliver dst src)
          return true
        else return false
      else return false

def ipcTransferKillMsg (dst src : TaskPtr) : K Bool := do
  checkReceiver dst
  match ← readMessageHeader dst with
  | none => return false
  | some dstHeader =>
    let header := { dstHeader with
      msgType := (← ask).config.msgTypeKill
      senderId := ((← get).tasks src).tid
      receiverId := ((← get).tasks dst).tid
      payloadLength := 0
      dataTypeMap := [0, 0] }
    if ← writeMessageHeader dst header then
      modifyTask dst fun t => { t with ipcMsgState := .empty }
      return true
    else return false

/-! ### The operations -/

/-- The assertions at the entry of `ipc_send_short`, `ipc_send_long` and `ipc_receive`. -/
def checkNotWaiting (task : TaskPtr) : K Unit := do
  kassert (((← get).tasks task).prevWaitingTask = none)
  kassert (((← get).tasks task).nextWaitingTask = none)
  kassert (((← get).tasks task).calleeTask = none)

/-- The stores to a receiver that got its message. -/
def Task.received (task : Task) : Task :=
  { task with state := .ready, ipcState := .none, ipcMsgState := .empty, endpoint := none }

/-- The stores to a sender or caller whose message is done with. -/
def Task.sent (task : Task) (ipcState : IpcState) : Task :=
  { task with
    state := .ready, ipcState := ipcState, eventType := .none, ipcMsgState := .empty,
    endpoint := none }

/-- The stores to a sender or caller that waits at an endpoint. -/
def Task.waits (task : Task) (ipcState : IpcState) (endpoint : EndpointPtr) : Task :=
  { task with
    state := .waiting, ipcState := ipcState, eventType := .send, endpoint := some endpoint }

/-- The end of `ipc_send_short` and `ipc_send_long`, that of `ipc_call` as well. -/
def ipcSendTail : K Bool := do
  let task := (← get).tasks (← get).currentTask
  kassert (task.ipcState = .none ∨ task.ipcState = .canceled)
  kassert (task.eventType = .none)
  kassert (task.ipcMsgState = .empty)
  if task.ipcState = .canceled then setErrno .eCanceled
  return task.ipcState = .none

/-- The end of `ipc_receive`. -/
def ipcReceiveTail : K Bool := do
  let task := (← get).tasks (← get).currentTask
  kassert (task.ipcState = .none ∨ task.ipcState = .canceled)
  kassert (task.ipcMsgState = .empty)
  if task.ipcState = .canceled then setErrno .eCanceled
  return task.ipcState = .none

/-- How a sender that finds no receiver ends: it fails, or it waits. -/
def ipcSendBlock (blocking : Bool) (endpoint : EndpointPtr) : K Bool := do
  let curTask := (← get).currentTask
  if blocking then
    modifyTask curTask fun t => t.waits .sending endpoint
    pushWaitingQueue endpoint .sender curTask
    resched .ipcSend
  else
    setErrno .eBlocked
    return false

def ipcSendShort (blocking : Bool) (endpoint : EndpointPtr) (args : List Nat) : K Bool := do
  let curTask := (← get).currentTask
  checkNotWaiting curTask
  modifyTask curTask fun t => { t with ipcMsg := args, ipcMsgState := .shortSize }
  match ((← get).endpoints endpoint).receiverQueue.head with
  | some receiver =>
    kassert (((← get).endpoints endpoint).senderQueue.head = none)
    let _ ← ipcTransferIpcMsg receiver curTask
    removeWaitingQueue endpoint .receiver receiver
    modifyTask receiver Task.received
    switchTask receiver .switchTask
    return true
  | none => ipcSendBlock blocking endpoint

def ipcSendLong (blocking : Bool) (endpoint : EndpointPtr) (msg : Nat) : K Bool := do
  let curTask := (← get).currentTask
  checkNotWaiting curTask
  modifyTask curTask fun t => { t.setIpcLongMsg msg with ipcMsgState := .longSize }
  match ((← get).endpoints endpoint).receiverQueue.head with
  | some receiver =>
    kassert (((← get).endpoints endpoint).senderQueue.head = none)
    if ← ipcTransferIpcMsg receiver curTask then
      removeWaitingQueue endpoint .receiver receiver
      modifyTask receiver Task.received
      switchTask receiver .switchTask
      return true
    else return false
  | none => ipcSendBlock blocking endpoint

/-- The part of `ipc_receive` that gives up a caller left without reply. -/
def ipcAbandonCaller (endpoint : EndpointPtr) : K Unit := do
  let curTask := (← get).currentTask
  match ((← get).tasks curTask).callerTask with
  | none => pure ()
  | some caller =>
    let task := (← get).tasks caller
    kassert (task.state = .waiting)
    kassert (task.ipcState = .calling)
    kassert (task.eventType = .send)
    kassert (task.prevWaitingTask = none)
    kassert (task.nextWaitingTask = none)
    kassert (task.calleeTask = some curTask)
    kassert (task.endpoint = some endpoint)
    modifyTask caller fun t => { t.sent .canceled with calleeTask := none }
    pushReadyQueue caller
    modifyTask curTask fun t => { t with callerTask := none }

/-- The part of `ipc_receive` that takes the message of the first sender. -/
def ipcReceiveFrom (endpoint : EndpointPtr) (sender : TaskPtr) : K Bool := do
  let curTask := (← get).currentTask
  kassert (((← get).endpoints endpoint).receiverQueue.head = none)
  kassert (((← get).tasks sender).calleeTask = none)
  removeWaitingQueue endpoint .sender sender
  match ((← get).tasks sender).eventType with
  | .send =>
    if ← ipcTransferIpcMsg curTask sender then
      if ((← get).tasks sender).ipcState = .calling then
        kassert (((← get).tasks sender).state = .waiting)
        kassert (((← get).tasks sender).eventType = .send)
        modifyTask sender fun t => { t with calleeTask := some curTask }
        modifyTask curTask fun t => { t with callerTask := some sender }
      else modifyTask sender fun t => t.sent .none
    else return false
  | .kill => do let _ ← ipcTransferKillMsg curTask sender
  | .none => pure ()
  if ((← get).tasks sender).state = .ready then switchTask sender .switchTask
  return true

def ipcReceive (blocking : Bool) (endpoint : EndpointPtr) (msg : Nat) : K Bool := do
  let curTask := (← get).currentTask
  checkNotWaiting curTask
  modifyTask curTask fun t => { t.setIpcLongMsg msg with ipcMsgState := .longSize }
  ipcAbandonCaller endpoint
  match ((← get).endpoints endpoint).senderQueue.head with
  | some sender => ipcReceiveFrom endpoint sender
  | none =>
    if blocking then
      modifyTask curTask fun t =>
        { t with state := .waiting, ipcState := .receiving, endpoint := some endpoint }
      pushWaitingQueue endpoint .receiver curTask
      resched .ipcReceive
    else
      setErrno .eBlocked
      return false

def ipcReply (endpoint : EndpointPtr) (msg : Nat) : K Bool := do
  let curTask := (← get).currentTask
  match ((← get).tasks curTask).callerTask with
  | none => return true
  | some caller =>
    let task := (← get).tasks caller
    kassert (task.calleeTask = some curTask)
    kassert (task.state = .waiting)
    kassert (task.ipcState = .calling)
    kassert (task.eventType = .send)
    kassert (task.ipcMsgState = .longSize)
    kassert (task.endpoint = some endpoint)
    modifyTask curTask fun t => { t.setIpcLongMsg msg with ipcMsgState := .longSize }
    if ← ipcTransferIpcMsg caller curTask then
      modifyTask caller fun t => { t.sent .none with calleeTask := none }
      modifyTask curTask fun t => { t with callerTask := none, ipcMsgState := .empty }
      pushReadyQueue caller
      return true
    else return false

def ipcCall (endpoint : EndpointPtr) (msg : Nat) : K Bool := do
  let curTask := (← get).currentTask
  modifyTask curTask fun t =>
    { (t.setIpcLongMsg msg).waits .calling endpoint with ipcMsgState := .longSize }
  match ((← get).endpoints endpoint).receiverQueue.head with
  | some receiver =>
    kassert (((← get).endpoints endpoint).senderQueue.head = none)
    if ← ipcTransferIpcMsg receiver curTask then
      removeWaitingQueue endpoint .receiver receiver
      modifyTask receiver fun t => { t.received with callerTask := some curTask }
      modifyTask curTask fun t => { t with calleeTask := some receiver }
      pushReadyQueue receiver
      resched .ipcCall
    else return false
  | none =>
    pushWaitingQueue endpoint .sender curTask
    resched .ipcCall

/-- One turn of the loops of `ipc_cancel`: takes the first task out of a queue. -/
def ipcCancelOne (endpoint : EndpointPtr) (side : QueueSide) (task : TaskPtr) : K Unit := do
  removeWaitingQueue endpoint side task
  modifyTask task fun t => match side with
    | .receiver => { t.received with ipcState := .canceled }
    | .sender => t.sent .canceled
  pushReadyQueue task

def ipcCancelQueue (endpoint : EndpointPtr) (side : QueueSide) : K Unit :=
  kloop (fun _ => do
    match (((← get).endpoints endpoint).queue side).head with
    | none => return .inr ()
    | some task =>
      ipcCancelOne endpoint side task
      return .inl ()) ()

def ipcCancel (endpoint : EndpointPtr) : K Unit := do
  ipcCancelQueue endpoint .receiver
  ipcCancelQueue endpoint .sender

def ipcSendKillNotify (endpoint : EndpointPtr) (task : TaskPtr) : K Unit := do
  kassert (((← get).tasks task).state = .killed)
  match ((← get).endpoints endpoint).receiverQueue.head with
  | some receiver =>
    kassert (((← get).endpoints endpoint).senderQueue.head = none)
    let _ ← ipcTransferKillMsg receiver task
    removeWaitingQueue endpoint .receiver receiver
    modifyTask receiver Task.received
    pushReadyQueue receiver
  | none =>
    modifyTask task fun t =>
      { t with ipcState := .sending, eventType := .kill, endpoint := some endpoint }
    pushWaitingQueue endpoint .sender task
  resched (.killNotify task)

end Caprese
