import RtThread.Kernel.Basic

/-!
# The semaphore

`rt_sem_take`, `rt_sem_release`, `rt_sem_control` and `rt_sem_detach`. The spinlock of a semaphore only disables
interrupts, so every locked section is one step and `rt_schedule` follows it.
-/

namespace RtThread.Kernel

/-- `RT_SEM_VALUE_MAX`. -/
def rtSemValueMax : ℕ := 65535

/-- The commands of `rt_sem_control`, with the argument as a number. -/
inductive SemCommand where
  | reset (value : ℕ)
  | setVlimit (value : ℕ)
  | other

namespace State

variable {T : Type*} [DecidableEq T]

/-- Write a semaphore. -/
def setSem (k : State T) (id : ℕ) (sem : Semaphore) : State T :=
  { k with sem := Function.update k.sem id sem }

/-- `_rt_sem_take`, up to its return or its suspension. -/
def semTake (k : State T) (id : ℕ) (timeout : ℤ) (suspendFlag : SuspendFlag) :
    Option (State T × Option ℤ) :=
  match k.current with
  | none => none
  | some thread =>
    let sem := k.sem id
    if 0 < sem.value then some (k.setSem id { sem with value := sem.value - 1 }, some rtEok)
    else if timeout = 0 then some (k, some (-rtEtimeout))
    else
      (k.setError thread rtEintr).blockOn thread (.sem id) sem.flag suspendFlag timeout
        (.semWoken id)

/-- `rt_sem_take`. -/
def rtSemTake (k : State T) (id : ℕ) (timeout : ℤ) : Option (State T × Option ℤ) :=
  k.semTake id timeout .uninterruptible

/-- The end of `_rt_sem_take` for a thread that was suspended. -/
def semTakeWoken (k : State T) (thread : T) : State T × Option ℤ :=
  let error := k.error thread
  (k.setPc thread .idle,
    some (if error ≠ rtEok then (if 0 < error then -error else error) else rtEok))

/-- `rt_sem_release`: a waiting thread is chosen over the value before it is known whether the
thread can be resumed. -/
def rtSemRelease (k : State T) (id : ℕ) : State T × ℤ :=
  let sem := k.sem id
  if k.lists (.sem id) ≠ [] then (k.wakeFirst (.sem id), rtEok)
  else if sem.value < sem.maxValue then
    (k.setSem id { sem with value := sem.value + 1 }, rtEok)
  else (k, -rtEfull)

/-- `rt_sem_detach`; there is no `rt_schedule` after it. -/
def rtSemDetach (k : State T) (id : ℕ) : State T × ℤ :=
  (k.rtSuspListResumeAll (.sem id) rtError, rtEok)

/-- `rt_sem_control`. -/
def rtSemControl (k : State T) (id : ℕ) : SemCommand → State T × ℤ
  | .reset value =>
    let k := k.rtSuspListResumeAll (.sem id) rtError
    ((k.setSem id { k.sem id with value := value % 2 ^ 16 }).onSched (·.rtSchedule), rtEok)
  | .setVlimit value =>
    let maxValue := value % 2 ^ 16
    if rtSemValueMax < maxValue ∨ maxValue < 1 then (k, -rtEinval)
    else
      let needSchedule : Bool := maxValue < (k.sem id).value ∧ k.lists (.sem id) ≠ []
      let k := if needSchedule then k.rtSuspListResumeAll (.sem id) rtError else k
      let k := k.setSem id { k.sem id with maxValue := maxValue }
      (if needSchedule then k.onSched (·.rtSchedule) else k, rtEok)
  | .other => (k, -rtError)

end State

end RtThread.Kernel
