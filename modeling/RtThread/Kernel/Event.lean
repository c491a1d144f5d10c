import RtThread.Kernel.Basic

/-!
# The event set

`rt_event_send`, `rt_event_recv`, `rt_event_detach` and the reset by `rt_event_control`.
-/

namespace RtThread.Kernel

open Function (update)

/-- The condition of a thread that waits for events: all of them, or one. -/
def EventFlags.satisfiedBy (info : EventFlags) (wanted set : BitVec 32) : Bool :=
  if info.and then wanted &&& set = wanted else wanted &&& set ≠ 0

/-- The events that a thread receives when its condition is satisfied. -/
def EventFlags.received (info : EventFlags) (wanted set : BitVec 32) : BitVec 32 :=
  if info.and then wanted else wanted &&& set

namespace State

variable {T : Type*} [DecidableEq T]

/-- Write an event object. -/
def setEvent (k : State T) (id : ℕ) (event : Event) : State T :=
  { k with event := update k.event id event }

/-- The loop of `rt_event_send` over the waiting threads, with `need_clear_set` and
`need_schedule`; it stops with false at a thread that waits for neither `AND` nor `OR`. -/
def eventSendLoop (set : BitVec 32) :
    List T → State T → BitVec 32 → Bool → State T × BitVec 32 × Bool × Bool
  | [], k, needClear, needSchedule => (k, needClear, needSchedule, true)
  | thread :: rest, k, needClear, needSchedule =>
    let info := k.eventInfo thread
    let wanted := k.eventSet thread
    if info.and ∨ info.or then
      let satisfied : Bool := if info.and then wanted &&& set = wanted else wanted &&& set ≠ 0
      if satisfied then
        let received := if info.and then wanted else wanted &&& set
        let k := { k with eventSet := update k.eventSet thread received }
        let needClear := if info.clear then needClear ||| received else needClear
        let k := { k with toSched := (k.rtSchedThreadReady thread).1 }
        eventSendLoop set rest (k.setError thread rtEok) needClear true
      else eventSendLoop set rest k needClear needSchedule
    else (k, needClear, needSchedule, false)

/-- A waiting thread is given its events, as the loop of `rt_event_send` does. -/
def eventGive (k : State T) (thread : T) (received : BitVec 32) : State T :=
  ({ k with
    eventSet := update k.eventSet thread received
    toSched := (k.rtSchedThreadReady thread).1 }).setError thread rtEok

/-- One round of the loop of `rt_event_send`. -/
theorem eventSendLoop_cons (set : BitVec 32) (thread : T) (rest : List T) (k : State T)
    (needClear : BitVec 32) (needSchedule : Bool) :
    eventSendLoop set (thread :: rest) k needClear needSchedule = let info := k.eventInfo thread
      let wanted := k.eventSet thread
      if info.and ∨ info.or then
        if info.satisfiedBy wanted set then
          eventSendLoop set rest (k.eventGive thread (info.received wanted set))
            (if info.clear then needClear ||| info.received wanted set else needClear) true
        else eventSendLoop set rest k needClear needSchedule
      else (k, needClear, needSchedule, false) := rfl

/-- `rt_event_send`. -/
def rtEventSend (k : State T) (id : ℕ) (set : BitVec 32) : State T × ℤ :=
  if set = 0 then (k, -rtError)
  else
    let event := k.event id
    let k := k.setEvent id { event with set := event.set ||| set }
    let (k, needClear, needSchedule, ok) :=
      eventSendLoop (event.set ||| set) (k.lists (.event id)) k 0 false
    if ok then
      let k := k.setEvent id
        { k.event id with set := (k.event id).set &&& ~~~ needClear }
      (if needSchedule then k.onSched (·.rtSchedule) else k, rtEok)
    else (k, -rtEinval)

/-- `_rt_event_recv`, up to its return or its suspension; it asserts one of `AND` and `OR`. -/
def eventRecv (k : State T) (id : ℕ) (set : BitVec 32) (option : EventFlags) (timeout : ℤ)
    (suspendFlag : SuspendFlag) : Option (State T × Option ℤ) :=
  match k.current with
  | none => none
  | some thread =>
    if set = 0 then some (k, some (-rtError))
    else if option.and ∨ option.or then
      let k := k.setError thread (-rtEintr)
      let event := k.event id
      let satisfied : Bool :=
        if option.and then event.set &&& set = set else event.set &&& set ≠ 0
      if satisfied then
        let k := { k.setError thread rtEok with
          recved := update k.recved thread (event.set &&& set)
          eventSet := update k.eventSet thread (event.set &&& set)
          eventInfo := update k.eventInfo thread option }
        some (if option.clear then k.setEvent id { event with set := event.set &&& ~~~ set }
          else k, some rtEok)
      else if timeout = 0 then some (k.setError thread (-rtEtimeout), some (-rtEtimeout))
      else
        let k := { k with
          eventSet := update k.eventSet thread set
          eventInfo := update k.eventInfo thread option }
        k.blockOn thread (.event id) event.flag suspendFlag timeout (.eventWoken id)
    else none

/-- `rt_event_recv`. -/
def rtEventRecv (k : State T) (id : ℕ) (set : BitVec 32) (option : EventFlags) (timeout : ℤ) :
    Option (State T × Option ℤ) :=
  k.eventRecv id set option timeout .uninterruptible

/-- The end of `_rt_event_recv` for a thread that was suspended. -/
def eventRecvWoken (k : State T) (thread : T) : State T × Option ℤ :=
  let error := k.error thread
  let k := k.setPc thread .idle
  if error ≠ rtEok then (k, some error)
  else
    ({ k with recved := update k.recved thread (k.eventSet thread) }, some error)

/-- `rt_event_detach`; there is no `rt_schedule` after it. -/
def rtEventDetach (k : State T) (id : ℕ) : State T × ℤ :=
  (k.rtSuspListResumeAll (.event id) rtError, rtEok)

/-- `rt_event_control` with `RT_IPC_CMD_RESET`. -/
def rtEventReset (k : State T) (id : ℕ) : State T × ℤ :=
  let k := k.rtSuspListResumeAll (.event id) rtError
  ((k.setEvent id { k.event id with set := 0 }).onSched (·.rtSchedule), rtEok)

end State

end RtThread.Kernel
