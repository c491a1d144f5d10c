import RtThread.Kernel.Basic

/-!
# The message queue

`rt_mq_send_wait`, `rt_mq_urgent` and `rt_mq_recv` on the cells of a message queue, and its reset by
`rt_mq_control`. A send or a receive has two locked sections with the copy of the message between them,
and the cell belongs to the call meanwhile.
-/

namespace RtThread.Kernel

namespace MessageQueue

/-- Write a cell. -/
def setCell (mq : MessageQueue) (cell : ℕ) (message : MqMessage) : MessageQueue :=
  { mq with cell := Function.update mq.cell cell message }

/-- Write the `next` pointer of a cell. -/
def setNext (mq : MessageQueue) (cell : ℕ) (next : Option ℕ) : MessageQueue :=
  mq.setCell cell { mq.cell cell with next := next }

/-- Take the first free cell. -/
def takeFree (mq : MessageQueue) : Option (ℕ × MessageQueue) :=
  mq.msgQueueFree.map fun cell => (cell, { mq with msgQueueFree := (mq.cell cell).next })

/-- Fill a cell outside the lock. -/
def fill (mq : MessageQueue) (cell : ℕ) (bytes : List ℕ) : MessageQueue :=
  mq.setCell cell { mq.cell cell with length := bytes.length, bytes := bytes }

/-- The search of `_rt_mq_send_wait` for the place of a message by its priority: before the first
message of smaller priority, or behind the last one. The cells of the pool bound the steps. -/
def linkByPrio (mq : MessageQueue) (msg : ℕ) : ℕ → Option ℕ → Option ℕ → MessageQueue
  | 0, _, _ => mq
  | _ + 1, _, none => mq
  | steps + 1, prev, some node =>
    if (mq.cell node).prio < (mq.cell msg).prio then
      let mq := match prev with
        | none => { mq with msgQueueHead := some msg }
        | some prev => mq.setNext prev (some msg)
      mq.setNext msg (some node)
    else if (mq.cell node).next = none then
      { (if node ≠ msg then mq.setNext node (some msg) else mq) with msgQueueTail := some msg }
    else linkByPrio mq msg steps (some node) (mq.cell node).next

/-- Link a message into the queue, as `_rt_mq_send_wait` does. -/
def link (mq : MessageQueue) (msg : ℕ) (prio : ℤ) : MessageQueue :=
  if mq.usingPriority then
    let mq := mq.setCell msg { mq.cell msg with prio := prio }
    let mq := if mq.msgQueueHead = none then { mq with msgQueueHead := some msg } else mq
    mq.linkByPrio msg (mq.maxMsgs + 1) none mq.msgQueueHead
  else
    let mq := match mq.msgQueueTail with
      | some tail => mq.setNext tail (some msg)
      | none => mq
    let mq := { mq with msgQueueTail := some msg }
    if mq.msgQueueHead = none then { mq with msgQueueHead := some msg } else mq

/-- Link a message at the beginning of the queue, as `rt_mq_urgent` does. -/
def linkFirst (mq : MessageQueue) (msg : ℕ) : MessageQueue :=
  let mq := { mq.setNext msg mq.msgQueueHead with msgQueueHead := some msg }
  if mq.msgQueueTail = none then { mq with msgQueueTail := some msg } else mq

/-- Unlink the first message. -/
def unlinkFirst (mq : MessageQueue) : Option (ℕ × MessageQueue) :=
  mq.msgQueueHead.map fun msg =>
    let mq := { mq with msgQueueHead := (mq.cell msg).next }
    let mq := if mq.msgQueueTail = some msg then { mq with msgQueueTail := none } else mq
    (msg, { mq with entry := mq.entry - 1 })

/-- Put a cell back to the free ones. -/
def putFree (mq : MessageQueue) (msg : ℕ) : MessageQueue :=
  { mq.setNext msg mq.msgQueueFree with msgQueueFree := some msg }

/-- `rt_mq_init` on a pool of any content: every cell is put to the free ones. -/
def rtMqInit (usingPriority : Bool) (pool : ℕ → MqMessage) (msgSize maxMsgs : ℕ) (flag : IpcFlag) :
    MessageQueue :=
  (List.range maxMsgs).foldl putFree
    ⟨usingPriority, pool, msgSize, maxMsgs, 0, none, none, none, flag⟩

/-- The loop of `rt_mq_control` that puts every message back to the free cells; it does not end on a
list that does not end. -/
def releaseAll : ℕ → MessageQueue → Option MessageQueue
  | 0, mq => if mq.msgQueueHead = none then some mq else none
  | steps + 1, mq =>
    match mq.msgQueueHead with
    | none => some mq
    | some msg =>
      let mq := { mq with msgQueueHead := (mq.cell msg).next }
      let mq := if mq.msgQueueTail = some msg then { mq with msgQueueTail := none } else mq
      releaseAll steps (mq.putFree msg)

end MessageQueue

namespace State

variable {T : Type*} [DecidableEq T]

/-- Write a message queue. -/
def setMq (k : State T) (id : ℕ) (mq : MessageQueue) : State T :=
  { k with messageQueue := Function.update k.messageQueue id mq }

/-- Count a linked message and wake a receiver; a full counter is reported after the link. -/
def mqCount (k : State T) (id : ℕ) (mq : MessageQueue) : State T × ℤ :=
  if mq.entry < rtMqEntryMax then
    let k := k.setMq id { mq with entry := mq.entry + 1 }
    (k.wakeFirst (.mqRecv id), rtEok)
  else (k.setMq id mq, -rtEfull)

/-- The second section of `_rt_mq_send_wait`. -/
def mqSendLink (k : State T) (id cell : ℕ) (bytes : List ℕ) (prio : ℤ) : State T × ℤ :=
  let mq := ((k.messageQueue id).setNext cell none).fill cell bytes
  k.mqCount id (mq.link cell prio)

/-- The loop of `_rt_mq_send_wait` and its first section. -/
def mqSendLoop (k : State T) (thread : T) (id : ℕ) (bytes : List ℕ) (prio timeout : ℤ)
    (suspendFlag : SuspendFlag) : Option (State T × Option ℤ) :=
  match (k.messageQueue id).takeFree with
  | some (cell, mq) => some ((k.setMq id mq).setPc thread (.mqSendFill id cell bytes prio), none)
  | none =>
    let k := k.setError thread (-rtEintr)
    if timeout = 0 then some (k.setPc thread .idle, some (-rtEfull))
    else
      k.blockOn thread (.mqSend id) (k.messageQueue id).flag suspendFlag timeout
        (.mqSendWoken id bytes prio timeout suspendFlag k.tick)

/-- `_rt_mq_send_wait`, up to the end of its first section or its suspension; an empty message is
asserted away. -/
def mqSendWait (k : State T) (id : ℕ) (bytes : List ℕ) (prio timeout : ℤ)
    (suspendFlag : SuspendFlag) : Option (State T × Option ℤ) :=
  match k.current with
  | none => none
  | some thread =>
    if bytes = [] then none
    else if bytes.length > (k.messageQueue id).msgSize then some (k, some (-rtError))
    else if (k.messageQueue id).msgQueueFree = none ∧ timeout = 0 then some (k, some (-rtEfull))
    else k.mqSendLoop thread id bytes prio timeout suspendFlag

/-- `_rt_mq_send_wait`, when the thread was suspended and goes on. -/
def mqSendWoken (k : State T) (thread : T) (id : ℕ) (bytes : List ℕ) (prio timeout : ℤ)
    (suspendFlag : SuspendFlag) (start : ℕ) : Option (State T × Option ℤ) :=
  if k.error thread ≠ rtEok then some (k.setPc thread .idle, some (k.error thread))
  else k.mqSendLoop thread id bytes prio (k.timeoutLeft timeout start) suspendFlag

/-- The second section of `rt_mq_urgent`. -/
def mqUrgentLink (k : State T) (id cell : ℕ) (bytes : List ℕ) : State T × ℤ :=
  k.mqCount id (((k.messageQueue id).fill cell bytes).linkFirst cell)

/-- `rt_mq_urgent`, up to the end of its first section. -/
def mqUrgent (k : State T) (id : ℕ) (bytes : List ℕ) : Option (State T × Option ℤ) :=
  match k.current with
  | none => none
  | some thread =>
    if bytes = [] then none
    else if bytes.length > (k.messageQueue id).msgSize then some (k, some (-rtError))
    else
      match (k.messageQueue id).takeFree with
      | some (cell, mq) => some ((k.setMq id mq).setPc thread (.mqUrgentFill id cell bytes), none)
      | none => some (k, some (-rtEfull))

/-- `rt_mq_send` from an interrupt, with both sections: it cannot wait. -/
def rtMqSend (k : State T) (id : ℕ) (bytes : List ℕ) : Option (State T × ℤ) :=
  if bytes = [] then none
  else if bytes.length > (k.messageQueue id).msgSize then some (k, -rtError)
  else
    match (k.messageQueue id).takeFree with
    | some (cell, mq) => some ((k.setMq id mq).mqSendLink id cell bytes 0)
    | none => some (k, -rtEfull)

/-- The loop of `_rt_mq_recv` and its first section. -/
def mqRecvLoop (k : State T) (thread : T) (id size : ℕ) (timeout : ℤ)
    (suspendFlag : SuspendFlag) : Option (State T × Option ℤ) :=
  let mq := k.messageQueue id
  if mq.entry = 0 then
    if timeout = 0 then
      some ((k.setError thread (-rtEtimeout)).setPc thread .idle, some (-rtEtimeout))
    else
      (k.setError thread (-rtEintr)).blockOn thread (.mqRecv id) mq.flag suspendFlag timeout
        (.mqRecvWoken id size timeout suspendFlag k.tick)
  else
    mq.unlinkFirst.map fun (cell, mq) =>
      ((k.setMq id mq).setPc thread (.mqRecvCopy id cell size), none)

/-- `_rt_mq_recv`, up to the end of its first section or its suspension. -/
def mqRecv (k : State T) (id size : ℕ) (timeout : ℤ) (suspendFlag : SuspendFlag) :
    Option (State T × Option ℤ) :=
  match k.current with
  | none => none
  | some thread =>
    if size = 0 then none
    else if (k.messageQueue id).entry = 0 ∧ timeout = 0 then some (k, some (-rtEtimeout))
    else k.mqRecvLoop thread id size timeout suspendFlag

/-- `_rt_mq_recv`, when the thread was suspended and goes on. -/
def mqRecvWoken (k : State T) (thread : T) (id size : ℕ) (timeout : ℤ) (suspendFlag : SuspendFlag)
    (start : ℕ) : Option (State T × Option ℤ) :=
  if k.error thread ≠ rtEok then some (k.setPc thread .idle, some (k.error thread))
  else k.mqRecvLoop thread id size (k.timeoutLeft timeout start) suspendFlag

/-- The copy of `_rt_mq_recv` and its second section; it returns the length of what was copied. -/
def mqRecvCopy (k : State T) (thread : T) (id cell size : ℕ) : State T × Option ℤ :=
  let mq := k.messageQueue id
  let msg := mq.cell cell
  let len := if msg.length > size then size else msg.length
  let k := { k with message := Function.update k.message thread (msg.bytes.take len, msg.prio) }
  let k := (k.setMq id (mq.putFree cell)).setPc thread .idle
  (k.wakeFirst (.mqSend id), some (len : ℤ))

/-- `rt_mq_control` with `RT_IPC_CMD_RESET`. -/
def rtMqReset (k : State T) (id : ℕ) : Option (State T × ℤ) :=
  let k := (k.rtSuspListResumeAll (.mqRecv id) rtError).rtSuspListResumeAll (.mqSend id) rtError
  let mq := k.messageQueue id
  (mq.releaseAll mq.maxMsgs).map fun mq =>
    ((k.setMq id { mq with entry := 0 }).onSched (·.rtSchedule), rtEok)

end State

end RtThread.Kernel
