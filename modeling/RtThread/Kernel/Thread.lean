import RtThread.Kernel.Mutex

/-!
# The end of a thread

`_thread_exit`, when a thread returns from its entry, and `_thread_detach`, which `rt_thread_detach` and
`rt_thread_delete` call. Only the second gives mutexes back, and it does so by `rt_mutex_release`, which
acts for the calling thread.
-/

namespace RtThread.Kernel.State

variable {T : Type*} [DecidableEq T]

/-- The release of the mutexes of a thread, in `_thread_detach_from_mutex`. -/
def releaseTaken : List ℕ → State T → Option (State T)
  | [], k => some k
  | id :: rest, k => (k.mutexReleaseNested id).bind (releaseTaken rest)

/-- `_thread_detach_from_mutex`. -/
def threadDetachFromMutex (fuel : ℕ) (k : State T) (thread : T) : Option (State T) :=
  let dropped : Option (State T) := match k.pendingObject thread with
    | some id => (rtMutexDropThread fuel k id thread).map (·.setPendingObject thread none)
    | none => some k
  dropped.bind fun k => releaseTaken (k.takenObjectList thread) k

/-- `_thread_exit`, by the current thread; it does not return. -/
def threadExit (k : State T) : Option (State T × Option ℤ) :=
  k.current.map fun thread => (k.onSched (·.threadExit thread), none)

/-- `_thread_detach`; a thread that detaches itself does not return. -/
def threadDetach (fuel : ℕ) (k : State T) (thread : T) : Option (State T × Option ℤ) :=
  let r := (k.onSched (·.rtEnterCritical)).threadDetachSched thread
  let k := { k with toSched := r.1 }
  if r.2 then
    (threadDetachFromMutex fuel k thread).map fun k =>
      (k.onSched fun s => (s.rtThreadDefunctEnqueue thread).rtExitCritical,
        if k.current = some thread then none else some rtEok)
  else some (k.onSched (·.rtExitCritical), some rtEok)

end RtThread.Kernel.State
