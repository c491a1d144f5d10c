import RtThread.Kernel.Basic

/-!
# The mailbox

`rt_mb_send_wait`, `rt_mb_urgent`, `rt_mb_recv` and the reset by `rt_mb_control` on the circular buffer of
a mailbox.
-/

namespace RtThread.Kernel.State

variable {T : Type*} [DecidableEq T]

/-- Write a mailbox. -/
def setMailbox (k : State T) (id : ℕ) (mailbox : Mailbox) : State T :=
  { k with mailbox := Function.update k.mailbox id mailbox }

/-- The next position of the circular buffer. -/
def mbNext (size offset : ℕ) : ℕ := if offset + 1 ≥ size then 0 else offset + 1

/-- The end of `_rt_mb_send_wait`, once there is room: the value is written and the input offset
moved before the counter is checked. -/
def mbPut (k : State T) (id value : ℕ) : State T × ℤ :=
  let mb := k.mailbox id
  let mb := { mb with
    msgPool := Function.update mb.msgPool mb.inOffset value
    inOffset := mbNext mb.size mb.inOffset }
  if mb.entry < rtMbEntryMax then
    let k := k.setMailbox id { mb with entry := mb.entry + 1 }
    (k.wakeFirst (.mbRecv id), rtEok)
  else (k.setMailbox id mb, -rtEfull)

/-- The loop of `_rt_mb_send_wait`. -/
def mbSendLoop (k : State T) (thread : T) (id value : ℕ) (timeout : ℤ)
    (suspendFlag : SuspendFlag) : Option (State T × Option ℤ) :=
  let mb := k.mailbox id
  if mb.entry = mb.size then
    let k := k.setError thread (-rtEintr)
    if timeout = 0 then some (k.setPc thread .idle, some (-rtEfull))
    else
      k.blockOn thread (.mbSend id) mb.flag suspendFlag timeout
        (.mbSendWoken id value timeout suspendFlag k.tick)
  else
    let (k, ret) := (k.setPc thread .idle).mbPut id value
    some (k, some ret)

/-- `_rt_mb_send_wait`, up to its return or its suspension. -/
def mbSendWait (k : State T) (id value : ℕ) (timeout : ℤ) (suspendFlag : SuspendFlag) :
    Option (State T × Option ℤ) :=
  match k.current with
  | none => none
  | some thread =>
    let mb := k.mailbox id
    if mb.entry = mb.size ∧ timeout = 0 then some (k, some (-rtEfull))
    else k.mbSendLoop thread id value timeout suspendFlag

/-- `_rt_mb_send_wait`, when the thread was suspended and goes on. -/
def mbSendWoken (k : State T) (thread : T) (id value : ℕ) (timeout : ℤ)
    (suspendFlag : SuspendFlag) (start : ℕ) : Option (State T × Option ℤ) :=
  if k.error thread ≠ rtEok then some (k.setPc thread .idle, some (k.error thread))
  else k.mbSendLoop thread id value (k.timeoutLeft timeout start) suspendFlag

/-- `rt_mb_send` from an interrupt: it cannot wait. -/
def rtMbSend (k : State T) (id value : ℕ) : State T × ℤ :=
  let mb := k.mailbox id
  if mb.entry = mb.size then (k, -rtEfull) else k.mbPut id value

/-- `rt_mb_urgent`. -/
def rtMbUrgent (k : State T) (id value : ℕ) : State T × ℤ :=
  let mb := k.mailbox id
  if mb.entry = mb.size then (k, -rtEfull)
  else
    let out := if 0 < mb.outOffset then mb.outOffset - 1 else mb.size - 1
    let k := k.setMailbox id { mb with
      outOffset := out
      msgPool := Function.update mb.msgPool out value
      entry := mb.entry + 1 }
    (k.wakeFirst (.mbRecv id), rtEok)

/-- The end of `_rt_mb_recv`, once there is a message. -/
def mbGet (k : State T) (thread : T) (id : ℕ) : State T :=
  let mb := k.mailbox id
  let k := { k with mail := Function.update k.mail thread (mb.msgPool mb.outOffset) }
  let k := k.setMailbox id { mb with
    outOffset := mbNext mb.size mb.outOffset
    entry := mb.entry - 1 }
  k.wakeFirst (.mbSend id)

/-- The loop of `_rt_mb_recv`. -/
def mbRecvLoop (k : State T) (thread : T) (id : ℕ) (timeout : ℤ) (suspendFlag : SuspendFlag) :
    Option (State T × Option ℤ) :=
  let mb := k.mailbox id
  if mb.entry = 0 then
    if timeout = 0 then
      some ((k.setError thread (-rtEtimeout)).setPc thread .idle, some (-rtEtimeout))
    else
      (k.setError thread (-rtEintr)).blockOn thread (.mbRecv id) mb.flag suspendFlag timeout
        (.mbRecvWoken id timeout suspendFlag k.tick)
  else some ((k.setPc thread .idle).mbGet thread id, some rtEok)

/-- `_rt_mb_recv`, up to its return or its suspension. -/
def mbRecv (k : State T) (id : ℕ) (timeout : ℤ) (suspendFlag : SuspendFlag) :
    Option (State T × Option ℤ) :=
  match k.current with
  | none => none
  | some thread =>
    if (k.mailbox id).entry = 0 ∧ timeout = 0 then some (k, some (-rtEtimeout))
    else k.mbRecvLoop thread id timeout suspendFlag

/-- `_rt_mb_recv`, when the thread was suspended and goes on. -/
def mbRecvWoken (k : State T) (thread : T) (id : ℕ) (timeout : ℤ) (suspendFlag : SuspendFlag)
    (start : ℕ) : Option (State T × Option ℤ) :=
  if k.error thread ≠ rtEok then some (k.setPc thread .idle, some (k.error thread))
  else k.mbRecvLoop thread id (k.timeoutLeft timeout start) suspendFlag

/-- `rt_mb_control` with `RT_IPC_CMD_RESET`. -/
def rtMbReset (k : State T) (id : ℕ) : State T × ℤ :=
  let k := (k.rtSuspListResumeAll (.mbRecv id) rtError).rtSuspListResumeAll (.mbSend id) rtError
  let k := k.setMailbox id { k.mailbox id with entry := 0, inOffset := 0, outOffset := 0 }
  (k.onSched (·.rtSchedule), rtEok)

end RtThread.Kernel.State
