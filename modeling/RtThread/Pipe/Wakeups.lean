import RtThread.Pipe.Basic
import RtThread.RingBuffer.Refinement
import Mathlib.Data.Fintype.Basic

/-!
# Readers do not sleep on data, writers do not sleep on space

A thread that has moved bytes wakes the wait queue of the other end before it returns or sleeps. The wake-up
sets the flag of the queue, so that a thread at the other end that is about to sleep does not, and resumes
one thread that sleeps. With one reader and one writer at a time that is enough: whenever a thread is about
to sleep or sleeps, its end of the pipe is blocked, or some thread has still to wake its queue, or the flag
is set. With two readers it is not: the one that is woken can leave data behind and return.
-/

namespace RtThread.Pipe

open Lib TransitionSystem Function List State

variable {T : Type*}

namespace Pc

/-- The end of the pipe at which the thread is in a call. -/
def side : Pc T → Option Side
  | idle => none
  | taking c | holding c | releasing c | waking c | waiting c | sleeping c | removing c => some c.side
  | readDone _ | readRelease _ => some .reader
  | writeDone _ | writeWake _ | writeReturn _ => some .writer
  | unlinking _ _ back => back.side

/-- The call that the thread goes on with. -/
def call : Pc T → Option Call
  | taking c | holding c | releasing c | waking c | waiting c | sleeping c | removing c => some c
  | unlinking _ _ back => back.call
  | _ => none

/-- The queue that the thread has still to wake. -/
def toWake : Pc T → Option Side
  | readDone _ => some .writer
  | writeDone _ | writeWake _ => some .reader
  | releasing c | waking c => some c.side.other
  | _ => none

/-- The queue that the thread is about to sleep in. -/
def drowsy : Pc T → Option Side
  | releasing c | waking c | waiting c => some c.side
  | unlinking _ _ back => back.drowsy
  | _ => none

/-- The queue that the node of the thread can be in. -/
def queued : Pc T → Option Side
  | sleeping c | removing c => some c.side
  | _ => none

/-- The thread is in the `rt_schedule` of its wait. -/
def sleeps : Pc T → Bool
  | sleeping _ => true
  | _ => false

/-- The threads whose nodes the thread has still to take out of a queue. -/
def woken : Pc T → List T
  | unlinking _ u back => u :: back.woken
  | _ => []

/-- A thread sleeps at the end of its call. -/
theorem side_of_drowsy {p : Pc T} {σ : Side} (h : p.drowsy = some σ) : p.side = some σ := by
  induction p with
  | unlinking _ _ back ih => exact ih h
  | releasing | waking | waiting => exact h
  | _ => cases h

/-- A node is in the queue of its thread's end. -/
theorem side_of_queued {p : Pc T} {σ : Side} (h : p.queued = some σ) : p.side = some σ := by
  cases p with
  | sleeping | removing => exact h
  | _ => cases h

end Pc

/-- The calls whose counts the code can handle: positive, and within the `int` of the result. -/
def Call.Valid : Call → Prop
  | read count => 0 < count ∧ count < 2 ^ 31
  | write buf ret => ret ≤ buf.length ∧ buf.length < 2 ^ 31

/-- The end has nothing to do: the ring buffer is empty for a reader, and full for a writer. -/
def Side.Blocked (fifo : RingBuffer) : Side → Prop
  | reader => fifo.rtRingbufferStatus = .empty
  | writer => fifo.rtRingbufferStatus = .full

/-- The end is blocked, or some thread has still to wake its queue. -/
def State.Covered (s : State T) (σ : Side) : Prop :=
  σ.Blocked s.fifo ∨ ∃ u, (s.pc u).toWake = some σ

/-- What holds of a thread at a place. -/
structure Fits (s : State T) (t : T) (p : Pc T) : Prop where
  valid : ∀ c, p.call = some c → c.Valid
  listed : ∀ σ, t ∈ (s.queue σ).waitingList → p.queued = some σ
  asleep : s.sleepers.suspended t → p.sleeps ∧ ∃ σ, t ∈ (s.queue σ).waitingList
  woken : ∀ u ∈ p.woken, ¬ s.sleepers.suspended u
  drowsy : ∀ σ, p.drowsy = some σ → s.Covered σ ∨ (s.queue σ).flag
  rests : ∀ σ, p.side = some σ → s.sleepers.suspended t → s.Covered σ

/-- Every thread that sleeps or is about to sleep is attended to. -/
structure Attended (s : State T) : Prop where
  fifo : ∃ count, s.fifo.Holds count
  single : ∀ σ t u, (s.pc t).side = some σ → (s.pc u).side = some σ → t = u
  nodup : ∀ σ, (s.queue σ).waitingList.Nodup
  fits : ∀ t, Fits s t (s.pc t)

/-- A thread that is awake keeps what holds of it when the rest of the state changes. -/
theorem Fits.frame {s s' : State T} {t : T} {p : Pc T} (h : Fits s t p)
    (hlisted : ∀ σ, t ∈ (s'.queue σ).waitingList → t ∈ (s.queue σ).waitingList)
    (hasleep : s'.sleepers.suspended t → s.sleepers.suspended t ∧
      ∀ σ, t ∈ (s.queue σ).waitingList → t ∈ (s'.queue σ).waitingList)
    (hwoken : ∀ u ∈ p.woken, ¬ s'.sleepers.suspended u)
    (hdrowsy : ∀ σ, p.drowsy = some σ → s.Covered σ ∨ (s.queue σ).flag → s'.Covered σ ∨ (s'.queue σ).flag)
    (hrests : ∀ σ, p.side = some σ → s'.sleepers.suspended t → s.Covered σ → s'.Covered σ) :
    Fits s' t p where
  valid := h.valid
  listed σ hσ := h.listed σ (hlisted σ hσ)
  asleep hs := by
    obtain ⟨hold, hkeep⟩ := hasleep hs
    obtain ⟨hsleeps, σ, hσ⟩ := h.asleep hold
    exact ⟨hsleeps, σ, hkeep σ hσ⟩
  woken := hwoken
  drowsy σ hσ := hdrowsy σ hσ (h.drowsy σ hσ)
  rests σ hσ hs := hrests σ hσ hs (h.rests σ hσ (hasleep hs).1)

/-- What is left to show of a thread that is awake. -/
theorem Fits.of_awake {s : State T} {t : T} {p : Pc T} (hawake : ¬ s.sleepers.suspended t)
    (hvalid : ∀ c, p.call = some c → c.Valid)
    (hlisted : ∀ σ, t ∈ (s.queue σ).waitingList → p.queued = some σ) (hwoken : p.woken = [])
    (hdrowsy : ∀ σ, p.drowsy = some σ → s.Covered σ ∨ (s.queue σ).flag) : Fits s t p where
  valid := hvalid
  listed := hlisted
  asleep hs := absurd hs hawake
  woken := by simp [hwoken]
  drowsy := hdrowsy
  rests _ _ hs := absurd hs hawake

/-- Only a thread in its wait is suspended. -/
theorem Fits.awake {s : State T} {t : T} {p : Pc T} (h : Fits s t p) (hp : p.sleeps = false) :
    s.sleepers.suspended t = false := by
  by_contra hs
  have hsleeps := (h.asleep (by simpa using hs)).1
  simp [hp] at hsleeps

/-- Only a thread in its wait has a node in a queue. -/
theorem Fits.unlisted {s : State T} {t : T} {p : Pc T} (h : Fits s t p) (hp : p.queued = none) (σ : Side) :
    t ∉ (s.queue σ).waitingList := by
  intro hmem
  have hqueued := h.listed σ hmem
  rw [hp] at hqueued
  cases hqueued

variable [DecidableEq T] {s s' : State T} {t : T} {p : Pc T}

/-- A thread moves on; what is left to show is about that thread and about the rest of the state. -/
theorem Attended.move (h : Attended s) (hpc : s'.pc = update s.pc t p)
    (hfifo : ∃ count, s'.fifo.Holds count)
    (hside : ∀ σ, p.side = some σ → (s.pc t).side = some σ ∨ ∀ u, (s.pc u).side ≠ some σ)
    (hnodup : ∀ σ, (s'.queue σ).waitingList.Nodup) (ht : Fits s' t p)
    (hothers : ∀ u, u ≠ t → Fits s' u (s.pc u)) : Attended s' := by
  have halone : ∀ σ u, p.side = some σ → (s.pc u).side = some σ → u = t := by
    intro σ u hp hu
    obtain hsame | hnone := hside σ hp
    · exact h.single σ u t hu hsame
    · exact absurd hu (hnone u)
  refine ⟨hfifo, fun σ u v hu hv => ?_, hnodup, ?_⟩
  · rw [hpc] at hu hv
    by_cases hut : u = t <;> by_cases hvt : v = t
    · rw [hut, hvt]
    · subst hut
      simp only [update_self, update_of_ne hvt] at hu hv
      exact absurd (halone σ v hu hv) hvt
    · subst hvt
      simp only [update_self, update_of_ne hut] at hu hv
      exact halone σ u hv hu
    · simp only [update_of_ne hut, update_of_ne hvt] at hu hv
      exact h.single σ u v hu hv
  · rw [hpc]
    exact (forall_update_iff s.pc _).mpr ⟨ht, hothers⟩

/-- A thread that moves on and keeps what it has to wake. -/
theorem State.Covered.move {σ : Side} (h : s.Covered σ) (hpc : s'.pc = update s.pc t p)
    (hfifo : s'.fifo = s.fifo) (hwake : (s.pc t).toWake = some σ → p.toWake = some σ) : s'.Covered σ := by
  obtain hblocked | ⟨u, hu⟩ := h
  · exact .inl (hfifo ▸ hblocked)
  · refine .inr ⟨u, ?_⟩
    rw [hpc]
    by_cases hut : u = t
    · subst hut
      simpa using hwake hu
    · simpa [hut] using hu

/-- A thread moves on, and at most takes or releases the mutex. -/
theorem Attended.plain (h : Attended s) (lock : Option T) {p₀ : Pc T} (hpc : s.pc t = p₀)
    (hvalid : ∀ c, p.call = some c → c.Valid)
    (hside : ∀ σ, p.side = some σ → p₀.side = some σ ∨ ∀ u, (s.pc u).side ≠ some σ)
    (hqueued : p₀.queued = none) (hsleeps : p₀.sleeps = false) (hwoken : p.woken = [])
    (hdrowsy : ∀ σ, p.drowsy = some σ → p₀.drowsy = some σ)
    (hwake : ∀ σ, p₀.toWake = some σ → p.toWake = some σ) : Attended ({ s with lock }.goto t p) := by
  subst hpc
  have hcovered : ∀ σ, s.Covered σ → ({ s with lock }.goto t p).Covered σ := fun σ hσ =>
    hσ.move rfl rfl (hwake σ)
  have hawake := (h.fits t).awake hsleeps
  refine h.move rfl h.fifo hside h.nodup ?_ fun u hu => ?_
  · refine Fits.of_awake (by simp [goto, hawake]) hvalid (fun σ hσ => ?_) hwoken fun σ hσ => ?_
    · exact absurd hσ ((h.fits t).unlisted hqueued σ)
    · exact ((h.fits t).drowsy σ (hdrowsy σ hσ)).imp_left (hcovered σ)
  · exact (h.fits u).frame (fun σ hσ => hσ) (fun hs => ⟨hs, fun σ hσ => hσ⟩) (h.fits u).woken
      (fun σ _ hσ => hσ.imp_left (hcovered σ)) fun σ _ _ hσ => hcovered σ hσ

section Transfer

variable {fifo : RingBuffer} {count : ℕ}

/-- A read that gets nothing leaves the ring buffer empty. -/
theorem status_get (h : fifo.Holds count) {n : ℕ} (hn : 0 < n) (hlen : (fifo.rtRingbufferGet n).2.2 = 0) :
    (fifo.rtRingbufferGet n).1.rtRingbufferStatus = .empty := by
  obtain ⟨hdenotes, -, hmin⟩ := h.denotes.get n
  rw [hdenotes.holds.status_eq, if_pos]
  rw [length_drop]
  omega

/-- A write that is not complete leaves the ring buffer full. -/
theorem status_put (h : fifo.Holds count) {data : List UInt8}
    (hlen : (fifo.rtRingbufferPut data).2 < data.length) :
    (fifo.rtRingbufferPut data).1.rtRingbufferStatus = .full := by
  obtain ⟨hdenotes, hmin⟩ := h.denotes.put data
  have hsize := (h.sameBuffer_put data).size
  have hread := h.read_lt
  have hcontents := h.length_contents
  have hle := h.count_le
  have hlength : (fifo.contents ++ data.take (fifo.bufferSize - fifo.contents.length)).length =
      fifo.bufferSize := by
    rw [length_append, length_take]
    omega
  rw [hdenotes.holds.status_eq, hlength, if_neg (by omega), if_pos hsize.symm]

/-- A thread moves bytes: it then has to wake the other end, and it sleeps only if its own is blocked. -/
theorem Attended.moveBytes (h : Attended s) {c : Call} (hpc : s.pc t = .holding c)
    (hfifo : ∃ count, fifo.Holds count) (hside : p.side = some c.side)
    (hwake : p.toWake = some c.side.other) (hwoken : p.woken = [])
    (hvalid : ∀ c, p.call = some c → c.Valid) (hdrowsy : ∀ σ, p.drowsy = some σ → σ.Blocked fifo) :
    Attended ({ s with fifo }.goto t p) := by
  have hfits := h.fits t
  rw [hpc] at hfits
  have hawake := hfits.awake rfl
  have hown : (s.pc t).side = some c.side := by rw [hpc]; rfl
  -- the other threads are at the other end, which the thread has still to wake
  have hcovered : ∀ u, u ≠ t → ∀ σ, (s.pc u).side = some σ → ({ s with fifo }.goto t p).Covered σ := by
    intro u hu σ hσ
    have hother : σ = c.side.other := by
      cases σ <;> cases hc : c.side <;> first | rfl | exact absurd (h.single _ u t hσ (hc ▸ hown)) hu
    exact .inr ⟨t, by simpa [goto, hother] using hwake⟩
  refine h.move rfl hfifo (fun σ hσ => .inl ?_) h.nodup ?_ fun u hu => ?_
  · rw [hown, ← hside, hσ]
  · refine Fits.of_awake (by simp [goto, hawake]) hvalid (fun σ hσ => ?_) hwoken
      fun σ hσ => .inl (.inl (hdrowsy σ hσ))
    exact absurd hσ (hfits.unlisted rfl σ)
  · exact (h.fits u).frame (fun σ hσ => hσ) (fun hs => ⟨hs, fun σ hσ => hσ⟩)
      (h.fits u).woken (fun σ hσ _ => .inl (hcovered u hu σ (Pc.side_of_drowsy hσ)))
      fun σ hσ _ _ => hcovered u hu σ hσ

/-- A length below the bound of an `rt_uint32_t` is kept. -/
theorem toUint32_of_lt {n : ℕ} (h : n < 2 ^ 31) : RingBuffer.toUint32 n = n :=
  Nat.mod_eq_of_lt (h.trans (by decide))

/-- The step of a thread that holds the mutex. -/
theorem Attended.transfer (h : Attended s) {c : Call} (hpc : s.pc t = .holding c) :
    Attended (s.transfer t c) := by
  obtain ⟨count, hholds⟩ := h.fifo
  have hvalid := (h.fits t).valid c (by rw [hpc]; rfl)
  cases c with
  | read n =>
    obtain ⟨hpos, hlt⟩ := hvalid
    have hfifo : ∃ count, (s.fifo.rtRingbufferGet n).1.Holds count := ⟨_, (hholds.denotes.get n).1.holds⟩
    simp only [State.transfer, toUint32_of_lt hlt]
    split_ifs with hdone
    · exact h.moveBytes hpc hfifo rfl rfl rfl nofun nofun
    · refine h.moveBytes hpc hfifo rfl rfl rfl (fun c hc => ?_) fun σ hσ => ?_
      · cases hc
        exact ⟨hpos, hlt⟩
      · cases hσ
        exact status_get hholds hpos (by omega)
  | write buf ret =>
    obtain ⟨hle, hlt⟩ := hvalid
    have htake : (buf.drop ret).take (RingBuffer.toUint32 (buf.length - ret)) = buf.drop ret := by
      rw [toUint32_of_lt (by omega), take_of_length_le (by rw [length_drop])]
    obtain ⟨hdenotes, hmin⟩ := hholds.denotes.put (buf.drop ret)
    rw [length_drop] at hmin
    have hfifo : ∃ count, (s.fifo.rtRingbufferPut (buf.drop ret)).1.Holds count := ⟨_, hdenotes.holds⟩
    simp only [State.transfer, htake]
    split_ifs with hdone
    · exact h.moveBytes hpc hfifo rfl rfl rfl nofun nofun
    · refine h.moveBytes hpc hfifo rfl rfl rfl (fun c hc => ?_) fun σ hσ => ?_
      · cases hc
        exact ⟨by omega, hlt⟩
      · cases hσ
        exact status_put hholds (by rw [length_drop]; omega)

end Transfer

section Queues

variable {σ σ' : Side} {q : WaitQueue T} {z : Sleepers T}

/-- The queues after a change of one of them. -/
theorem queue_setQueue :
    (State.goto { s.setQueue σ q with sleepers := z } t p).queue σ' = if σ' = σ then q else s.queue σ' :=
  update_apply ..

/-- The wake-up of a queue sets its flag and leaves no thread suspended in it; no thread gets suspended. -/
theorem Attended.suspended_wakeup (h : Attended s) (t : T) (σ : Side) (back : Pc T) :
    (∀ u, (s.rtWqueueWakeup t σ back).sleepers.suspended u → s.sleepers.suspended u ∧
      (s.pc u).side ≠ some σ) ∧ ∃ p, (s.rtWqueueWakeup t σ back).pc = update s.pc t p ∧
      (p = back ∨ ∃ w, p = .unlinking σ w back ∧ ¬ (s.rtWqueueWakeup t σ back).sleepers.suspended w) := by
  have hmem : ∀ u, s.sleepers.suspended u → (s.pc u).side = some σ → u ∈ (s.queue σ).waitingList := by
    intro u hu hσ
    obtain ⟨-, σ', hσ'⟩ := (h.fits u).asleep hu
    have hside := Pc.side_of_queued ((h.fits u).listed σ' hσ')
    rw [hσ] at hside
    cases hside
    exact hσ'
  simp only [rtWqueueWakeup, goto]
  rcases hres : s.sleepers.resumeFirst (s.queue σ).waitingList with ⟨z, _ | w⟩
  · obtain ⟨hsame, hnone⟩ := Sleepers.resumeFirst_none hres
    refine ⟨fun u hu => ?_, back, rfl, .inl rfl⟩
    rw [hsame] at hu
    refine ⟨hu, fun hσ => ?_⟩
    have hawake := hnone u (hmem u hu hσ)
    simp [hawake] at hu
  · obtain ⟨hw, hsuspended, hupdate⟩ := Sleepers.resumeFirst_some hres
    have hwside := Pc.side_of_queued ((h.fits w).listed σ hw)
    refine ⟨fun u hu => ?_, .unlinking σ w back, rfl, .inr ⟨w, rfl, by simp [hupdate]⟩⟩
    rw [hupdate] at hu
    have hne : u ≠ w := by
      rintro rfl
      simp at hu
    rw [update_of_ne hne] at hu
    exact ⟨hu, fun hσ => hne (h.single σ u w hσ hwside)⟩

omit [DecidableEq T] in
/-- No other thread is at the end of the pipe where the thread is. -/
theorem Attended.alone (h : Attended s) (hown : (s.pc t).side = some σ) :
    ¬ ∃ u, u ≠ t ∧ (s.pc u).side = some σ := by
  rintro ⟨u, hu, hσ⟩
  exact hu (h.single σ u t hσ hown)

/-- A signal resumes a suspended thread. -/
theorem Attended.interrupt (h : Attended s) (t : T) :
    Attended { s with sleepers := s.sleepers.resume t .eintr } := by
  have hsuspended : ∀ u, (s.sleepers.resume t .eintr).suspended u → s.sleepers.suspended u := by
    intro u hu
    by_cases hut : u = t
    · simp [Sleepers.resume, hut] at hu
    · simpa [Sleepers.resume, hut] using hu
  refine { h with fits := fun u => ?_ }
  exact (h.fits u).frame (fun σ hσ => hσ) (fun hs => ⟨hsuspended u hs, fun σ hσ => hσ⟩)
    (fun v hv hs => (h.fits u).woken v hv (hsuspended v hs)) (fun σ _ hσ => hσ) fun σ _ _ hσ => hσ

/-- What a call returns plays no part. -/
theorem Attended.returns (h : Attended (s.goto t .idle)) (ret : Ret) : Attended (s.returns t ret) :=
  { h with fits := fun u => { h.fits u with } }

variable {c : Call} (h : Attended s) (hothers : ∀ u, u ≠ t → (s.pc u).woken = [])
include h hothers

/-- `rt_wqueue_wakeup` up to its `rt_thread_resume`. -/
theorem Attended.wakeup {back : Pc T} (hwake : (s.pc t).toWake = some σ)
    (hside : back.side = (s.pc t).side) (hdrowsy : back.drowsy = (s.pc t).drowsy)
    (hcall : back.call = (s.pc t).call)
    (hwoken : back.woken = []) (hqueued : (s.pc t).queued = none) (hsleeps : (s.pc t).sleeps = false) :
    Attended (s.rtWqueueWakeup t σ back) := by
  obtain ⟨hsuspended, p, hpc, hp⟩ := h.suspended_wakeup t σ back
  have hawake := (h.fits t).awake hsleeps
  have hawake' : ¬ (s.rtWqueueWakeup t σ back).sleepers.suspended t := fun hs => by
    have hbefore := (hsuspended t hs).1
    simp [hawake] at hbefore
  have hlist : ∀ σ', ((s.rtWqueueWakeup t σ back).queue σ').waitingList = (s.queue σ').waitingList := by
    intro σ'
    rw [rtWqueueWakeup, queue_setQueue]
    split_ifs with hσ
    exacts [hσ ▸ rfl, rfl]
  have hcovered : ∀ σ', σ' ≠ σ → s.Covered σ' → (s.rtWqueueWakeup t σ back).Covered σ' := by
    intro σ' hne hσ'
    refine hσ'.move hpc rfl fun h' => ?_
    rw [hwake] at h'
    exact absurd (Option.some.inj h').symm hne
  have hflag : ∀ σ', s.Covered σ' ∨ (s.queue σ').flag →
      (s.rtWqueueWakeup t σ back).Covered σ' ∨ ((s.rtWqueueWakeup t σ back).queue σ').flag := by
    intro σ' hσ'
    rw [rtWqueueWakeup, queue_setQueue]
    split_ifs with hσ
    exacts [.inr rfl, hσ'.imp_left (hcovered σ' hσ)]
  -- the place after the wake-up is as the place to go on at, but for the node to take out
  have hplace : p.side = back.side ∧ p.drowsy = back.drowsy ∧ p.call = back.call ∧
      ∀ u ∈ p.woken, ¬ (s.rtWqueueWakeup t σ back).sleepers.suspended u := by
    obtain rfl | ⟨w, rfl, hw⟩ := hp
    · exact ⟨rfl, rfl, rfl, by simp [hwoken]⟩
    · exact ⟨rfl, rfl, rfl, by simpa [Pc.woken, hwoken] using hw⟩
  obtain ⟨hpside, hpdrowsy, hpcall, hpwoken⟩ := hplace
  refine h.move hpc h.fifo (fun σ' hσ' => .inl ?_) (fun σ' => hlist σ' ▸ h.nodup σ') ?_ fun u hu => ?_
  · rw [← hside, ← hpside, hσ']
  · refine ⟨fun c hc => ?_, fun σ' hσ' => ?_, fun hs => absurd hs hawake', hpwoken, fun σ' hσ' => ?_,
      fun σ' _ hs => absurd hs hawake'⟩
    · exact (h.fits t).valid c (by rw [← hcall, ← hpcall, hc])
    · rw [hlist] at hσ'
      exact absurd hσ' ((h.fits t).unlisted hqueued σ')
    · exact hflag σ' ((h.fits t).drowsy σ' (by rw [← hdrowsy, ← hpdrowsy, hσ']))
  · refine (h.fits u).frame (fun σ' hσ' => hlist σ' ▸ hσ')
      (fun hs => ⟨(hsuspended u hs).1, fun σ' hσ' => (hlist σ').symm ▸ hσ'⟩) ?_
      (fun σ' _ hσ' => hflag σ' hσ') fun σ' hσ' hs hc => ?_
    · simp [hothers u hu]
    · refine hcovered σ' (fun hσ => ?_) hc
      exact (hsuspended u hs).2 (hσ ▸ hσ')

/-- A thread that has no queue to wake changes one of them, and its own state of sleep. -/
theorem Attended.requeue (hside : ∀ σ', p.side = some σ' → (s.pc t).side = some σ')
    (hwake : (s.pc t).toWake = none) (hnodup : q.waitingList.Nodup)
    (hlist : ∀ u, u ≠ t → (u ∈ q.waitingList → u ∈ (s.queue σ).waitingList) ∧
      (s.sleepers.suspended u → u ∈ (s.queue σ).waitingList → u ∈ q.waitingList))
    (hflag : (∃ u, u ≠ t ∧ (s.pc u).side = some σ) → (s.queue σ).flag → q.flag)
    (hsleepers : ∀ u, u ≠ t → z.suspended u = s.sleepers.suspended u)
    (ht : Fits ({ s.setQueue σ q with sleepers := z }.goto t p) t p) :
    Attended ({ s.setQueue σ q with sleepers := z }.goto t p) := by
  have hcovered : ∀ σ', s.Covered σ' → ({ s.setQueue σ q with sleepers := z }.goto t p).Covered σ' :=
    fun σ' hσ' => hσ'.move rfl rfl fun h' => by simp [hwake] at h'
  refine h.move rfl h.fifo (fun σ' hσ' => .inl (hside σ' hσ')) (fun σ' => ?_) ht fun u hu => ?_
  · rw [queue_setQueue]
    split_ifs
    exacts [hnodup, h.nodup σ']
  · refine (h.fits u).frame (fun σ' hσ' => ?_) (fun hs => ?_) ?_ (fun σ' hσ' hc => ?_)
      fun σ' _ _ hc => hcovered σ' hc
    · rw [queue_setQueue] at hσ'
      split_ifs at hσ' with hσ
      exacts [hσ ▸ (hlist u hu).1 hσ', hσ']
    · have hs' : s.sleepers.suspended u := by simpa [goto, hsleepers u hu] using hs
      refine ⟨hs', fun σ' hσ' => ?_⟩
      rw [queue_setQueue]
      split_ifs with hσ
      exacts [(hlist u hu).2 hs' (hσ ▸ hσ'), hσ']
    · simp [hothers u hu]
    · refine hc.imp (hcovered σ') fun hf => ?_
      rw [queue_setQueue]
      split_ifs with hσ
      exacts [hflag ⟨u, hu, hσ ▸ Pc.side_of_drowsy hσ'⟩ (hσ ▸ hf), hf]

/-- The first section of `_rt_wqueue_wait`. -/
theorem Attended.wait (hpc : s.pc t = .waiting c) : Attended (s.rtWqueueWait t c) := by
  have hfits := h.fits t
  rw [hpc] at hfits
  have hown : (s.pc t).side = some c.side := by rw [hpc]; rfl
  have hawake := hfits.awake rfl
  have hunlisted := hfits.unlisted rfl
  have hwake : (s.pc t).toWake = none := by rw [hpc]; rfl
  unfold rtWqueueWait
  dsimp only
  split_ifs with hflag
  · -- the flag is set: the thread does not sleep
    refine h.requeue hothers (fun σ' hσ' => hown.trans hσ') hwake (h.nodup _)
      (fun u _ => ⟨fun hu => hu, fun _ hu => hu⟩) (fun hex => absurd hex (h.alone hown))
      (fun _ _ => rfl) ?_
    refine Fits.of_awake (by simp [goto, hawake]) hfits.valid
      (fun σ' hσ' => ?_) rfl nofun
    rw [queue_setQueue] at hσ'
    split_ifs at hσ' <;> exact absurd hσ' (hunlisted _)
  · refine h.requeue hothers (fun σ' hσ' => hown.trans hσ') hwake ?_ (fun u hu => ?_)
      (fun hex => absurd hex (h.alone hown)) (fun u hu => by simp [Sleepers.suspend, hu]) ?_
    · refine nodup_append.mpr ⟨h.nodup _, by simp, fun u hu v hv huv => hunlisted c.side ?_⟩
      rwa [← mem_singleton.mp hv, ← huv]
    · simp [WaitQueue.add, hu]
    · have hcovered : s.Covered c.side := (hfits.drowsy c.side rfl).resolve_right hflag
      refine ⟨hfits.valid, fun σ' hσ' => ?_, fun _ => ⟨rfl, c.side, ?_⟩,
        by simp [Pc.woken], nofun, fun σ' hσ' _ => ?_⟩
      · rw [queue_setQueue] at hσ'
        split_ifs at hσ' with hσ
        exacts [hσ ▸ rfl, absurd hσ' (hunlisted _)]
      · rw [queue_setQueue]
        simp [WaitQueue.add]
      · cases hσ'
        exact hcovered.move rfl rfl fun h' => by simp [hwake] at h'

/-- A thread that was resumed in its wait. -/
theorem Attended.awaken (hpc : s.pc t = .sleeping c) (hawake : ¬ s.sleepers.suspended t) :
    Attended ((s.setQueue c.side { s.queue c.side with flag := false }).goto t (.removing c)) := by
  have hfits := h.fits t
  rw [hpc] at hfits
  have hown : (s.pc t).side = some c.side := by rw [hpc]; rfl
  refine h.requeue hothers (fun σ' hσ' => hown.trans hσ') (by rw [hpc]; rfl) (h.nodup _)
    (fun u _ => ⟨fun hu => hu, fun _ hu => hu⟩) (fun hex => absurd hex (h.alone hown))
    (fun _ _ => rfl) ?_
  refine Fits.of_awake hawake hfits.valid
    (fun σ' hσ' => hfits.listed σ' ?_) rfl nofun
  rw [queue_setQueue] at hσ'
  split_ifs at hσ' with hσ
  exacts [hσ ▸ hσ', hσ']

/-- A thread at the end of its wait takes its node out of the queue. -/
theorem Attended.remove (hpc : s.pc t = .removing c) (hp : p = .taking c ∨ p = .idle) :
    Attended ((s.setQueue c.side ((s.queue c.side).remove t)).goto t p) := by
  have hfits := h.fits t
  rw [hpc] at hfits
  have hown : (s.pc t).side = some c.side := by rw [hpc]; rfl
  have hnodup := h.nodup c.side
  refine h.requeue hothers (fun σ' hσ' => ?_) (by rw [hpc]; rfl) (hnodup.erase t) (fun u hu => ?_)
    (fun _ hf => hf) (fun _ _ => rfl) ?_
  · obtain rfl | rfl := hp
    · exact hown.trans hσ'
    · cases hσ'
  · simp [WaitQueue.remove, mem_erase_of_ne hu]
  · have hgone : ∀ σ', ¬ t ∈
        (((s.setQueue c.side ((s.queue c.side).remove t)).goto t p).queue σ').waitingList := by
      intro σ' hσ'
      rw [queue_setQueue] at hσ'
      split_ifs at hσ' with hσ
      exacts [hnodup.not_mem_erase hσ', hσ (Option.some.inj (hfits.listed _ hσ')).symm]
    have hawake := hfits.awake rfl
    obtain rfl | rfl := hp
    · exact Fits.of_awake (by simp [goto, hawake])
        hfits.valid (fun σ' hσ' => absurd hσ' (hgone σ')) rfl nofun
    · exact Fits.of_awake (by simp [goto, hawake]) nofun
        (fun σ' hσ' => absurd hσ' (hgone σ')) rfl nofun

/-- A thread takes the node of the thread that it has resumed out of the queue. -/
theorem Attended.unlink {w : T} {back : Pc T} (hpc : s.pc t = .unlinking σ w back) :
    Attended ((s.setQueue σ ((s.queue σ).remove w)).goto t back) := by
  have hfits := h.fits t
  rw [hpc] at hfits
  have hw : ¬ s.sleepers.suspended w := hfits.woken w mem_cons_self
  have hawake := hfits.awake rfl
  have hunlisted := hfits.unlisted rfl
  refine h.requeue hothers (fun σ' hσ' => by rw [hpc]; exact hσ') (by rw [hpc]; rfl) ((h.nodup σ).erase w)
    (fun u _ => ⟨mem_of_mem_erase, fun hs hu => ?_⟩) (fun _ hf => hf) (fun _ _ => rfl) ?_
  · have hne : u ≠ w := by
      rintro rfl
      exact hw hs
    exact (mem_erase_of_ne hne).mpr hu
  · have hgone : ∀ σ', t ∉ (((s.setQueue σ ((s.queue σ).remove w)).goto t back).queue σ').waitingList := by
      intro σ' hσ'
      rw [queue_setQueue] at hσ'
      split_ifs at hσ'
      exacts [hunlisted σ (mem_of_mem_erase hσ'), hunlisted _ hσ']
    have hawake' : ¬ ((s.setQueue σ ((s.queue σ).remove w)).goto t back).sleepers.suspended t := by
      simp [goto, setQueue, hawake]
    refine ⟨hfits.valid, fun σ' hσ' => absurd hσ' (hgone σ'), fun hs => absurd hs hawake',
      fun u hu => hfits.woken u (mem_cons_of_mem w hu), fun σ' hσ' => ?_, fun σ' _ hs => absurd hs hawake'⟩
    refine (hfits.drowsy σ' hσ').imp (fun hc => hc.move rfl rfl fun h' => by simp [hpc, Pc.toWake] at h') ?_
    intro hf
    rw [queue_setQueue]
    split_ifs with hσ
    exacts [hσ ▸ hf, hf]

/-- One step of a thread in its call, if no other thread is inside `rt_wqueue_wakeup`. -/
theorem Attended.threadNext (hnext : s.threadNext t = some s') : Attended s' := by
  have hvalid := (h.fits t).valid
  unfold State.threadNext at hnext
  split at hnext
  next => cases hnext
  next c hpc =>
    rw [hpc] at hvalid
    split at hnext
    next =>
      cases hnext
      exact h.plain (some t) hpc hvalid (fun _ hσ => .inl hσ) rfl rfl rfl nofun
        fun _ hσ => hσ
    next => cases hnext
  next c hpc =>
    cases hnext
    exact h.transfer hpc
  next len hpc =>
    cases hnext
    refine h.wakeup hothers ?_ ?_ ?_ ?_ rfl ?_ ?_ <;> rw [hpc] <;> rfl
  next len hpc =>
    cases hnext
    refine Attended.returns (h.plain none hpc ?_ ?_ rfl rfl rfl ?_ ?_) _ <;> exact nofun
  next ret hpc =>
    cases hnext
    exact h.plain none hpc nofun (fun _ hσ => .inl hσ) rfl rfl rfl nofun
      fun _ hσ => hσ
  next ret hpc =>
    cases hnext
    refine h.wakeup hothers ?_ ?_ ?_ ?_ rfl ?_ ?_ <;> rw [hpc] <;> rfl
  next ret hpc =>
    cases hnext
    refine Attended.returns (h.plain s.lock hpc ?_ ?_ rfl rfl rfl ?_ ?_) _ <;> exact nofun
  next c hpc =>
    rw [hpc] at hvalid
    cases hnext
    exact h.plain none hpc hvalid (fun _ hσ => .inl hσ) rfl rfl rfl (fun _ hσ => hσ) fun _ hσ => hσ
  next c hpc =>
    cases hnext
    refine h.wakeup hothers ?_ ?_ ?_ ?_ rfl ?_ ?_ <;> rw [hpc] <;> rfl
  next c hpc =>
    cases hnext
    exact h.wait hothers hpc
  next c hpc =>
    split_ifs at hnext with hawake
    cases hnext
    exact h.awaken hothers hpc hawake
  next c hpc =>
    cases hnext
    split_ifs
    · exact (h.remove hothers hpc (.inr rfl)).returns _
    · exact h.remove hothers hpc (.inl rfl)
  next σ w back hpc =>
    cases hnext
    exact h.unlink hothers hpc

end Queues

/-- Calls for a positive number of bytes. -/
def PositiveCount : Event T → Prop
  | .read _ count => 0 < count
  | .write _ buf => 0 < buf.length
  | _ => True

/-- One reader and one writer at a time, with counts that an `int` can hold, and no thread runs while
another one is between the `rt_thread_resume` and the `rt_list_remove` of `rt_wqueue_wakeup`. -/
def OneAtEachEnd (s : State T) : Event T → Prop
  | .read _ count => count < 2 ^ 31 ∧ ∀ u, (s.pc u).side ≠ some .reader
  | .write _ buf => buf.length < 2 ^ 31 ∧ ∀ u, (s.pc u).side ≠ some .writer
  | .proceed t => ∀ u, u ≠ t → (s.pc u).woken = []
  | .interrupt _ => True

/-- One step. -/
theorem Attended.next {e : Event T} (h : Attended s) (hpos : PositiveCount e) (hone : OneAtEachEnd s e)
    (hnext : Pipe.next s e = some s') : Attended s' := by
  cases e with
  | read t count =>
    simp only [Pipe.next] at hnext
    split_ifs at hnext with hidle
    cases hnext
    refine h.plain s.lock hidle (fun c hc => ?_) (fun σ hσ => .inr ?_) rfl rfl rfl nofun nofun
    · cases hc
      exact ⟨hpos, hone.1⟩
    · cases hσ
      exact hone.2
  | write t buf =>
    simp only [Pipe.next] at hnext
    split_ifs at hnext with hidle hempty
    · exact absurd hempty (Nat.ne_of_gt hpos)
    · cases hnext
      refine h.plain s.lock hidle (fun c hc => ?_) (fun σ hσ => .inr ?_) rfl rfl rfl nofun nofun
      · cases hc
        exact ⟨Nat.zero_le _, hone.1⟩
      · cases hσ
        exact hone.2
  | proceed t => exact h.threadNext hone hnext
  | interrupt t =>
    simp only [Pipe.next] at hnext
    split_ifs at hnext
    cases hnext
    exact h.interrupt t

omit [DecidableEq T] in
/-- Before the first call nobody sleeps. -/
theorem Attended.opened {s : State T} (h : Opened s) : Attended s := by
  obtain ⟨fifo, count, writer, hholds, rfl⟩ := h
  refine ⟨⟨count, hholds⟩, fun σ t u ht => (by cases ht), fun σ => nodup_nil, fun t => ?_⟩
  exact Fits.of_awake Bool.false_ne_true nofun nofun rfl nofun

/-- A thread that has a queue to wake can go on. -/
theorem State.threadNext_of_toWake {σ : Side} (h : (s.pc t).toWake = some σ) : s.threadNext t ≠ none := by
  unfold State.threadNext
  generalize s.pc t = pc at h
  cases pc with
  | readDone | writeDone | writeWake | releasing | waking => simp
  | _ => cases h

/-- A thread that is suspended in a wait while nobody can go on has nothing to do. -/
theorem Attended.blocked (h : Attended s) (hquiet : s.Quiescent) {c : Call} (hpc : s.pc t = .sleeping c)
    (hsuspended : s.sleepers.suspended t) : c.side.Blocked s.fifo := by
  obtain hblocked | ⟨u, hu⟩ := (h.fits t).rests c.side (by rw [hpc]; rfl) hsuspended
  · exact hblocked
  · have hidle : s.pc u ≠ .idle := fun hidle => by
      rw [hidle] at hu
      cases hu
    exact absurd (hquiet u hidle) (State.threadNext_of_toWake hu)

/-- In every run with one reader and one writer at a time, whenever no thread in a call can go on: the
ring buffer is empty if a reader is suspended, and full if a writer is suspended. -/
theorem sleepers_blocked {s : State T}
    (h : ((system T).guarded fun s e => PositiveCount e ∧ OneAtEachEnd s e).Reachable s)
    (hquiet : s.Quiescent) : (∀ t count, s.pc t = .sleeping (.read count) → s.sleepers.suspended t →
      s.fifo.rtRingbufferStatus = .empty) ∧
    ∀ t buf ret, s.pc t = .sleeping (.write buf ret) → s.sleepers.suspended t →
      s.fifo.rtRingbufferStatus = .full := by
  have hattended : Attended s := by
    refine h.invariant (fun _ => Attended.opened) ?_
    rintro s e s' hs ⟨⟨hpos, hone⟩, hnext⟩
    exact hs.next hpos hone hnext
  exact ⟨fun t count => hattended.blocked hquiet, fun t buf ret => hattended.blocked hquiet⟩

instance (e : Event T) : Decidable (PositiveCount e) := by
  cases e <;> unfold PositiveCount <;> infer_instance

instance [Fintype T] (s : State T) (e : Event T) : Decidable (OneAtEachEnd s e) := by
  cases e <;> unfold OneAtEachEnd <;> infer_instance

instance [Fintype T] (s : State T) : Decidable s.Quiescent := by
  unfold State.Quiescent
  infer_instance

/-- An open pipe of four bytes. -/
def ofFour {n : ℕ} : State (Fin n) := State.opened RingBuffer.emptyOfFour 1

/-- The pipe of four bytes is open. -/
theorem opened_ofFour {n : ℕ} : Opened (ofFour (n := n)) :=
  ⟨_, 0, 1, ⟨by decide, by decide, by decide, by decide⟩, rfl⟩

/-- The steps of a call that finds its end blocked, up to its sleep. -/
def untilAsleep {n : ℕ} (t : Fin n) : List (Event (Fin n)) := List.replicate 5 (.proceed t)

/-- A writer of six bytes sleeps, and the four bytes that fit are there. -/
theorem sleepers_blocked_write : ∃ s : State (Fin 2),
    ((system (Fin 2)).guarded fun s e => PositiveCount e ∧ OneAtEachEnd s e).Reachable s ∧ s.Quiescent ∧
      s.fifo.rtRingbufferStatus = .full := by
  obtain ⟨s, hreach, hquiet, hpc, hsuspended⟩ : ∃ s : State (Fin 2),
      ((system (Fin 2)).guarded fun s e => PositiveCount e ∧ OneAtEachEnd s e).Reachable s ∧
        s.Quiescent ∧ s.pc 1 = .sleeping (.write [1, 2, 3, 4, 5, 6] 4) ∧ s.sleepers.suspended 1 :=
    exists_runGuarded ([.write 1 [1, 2, 3, 4, 5, 6]] ++ untilAsleep 1) opened_ofFour
  exact ⟨s, hreach, hquiet, (sleepers_blocked hreach hquiet).2 1 _ _ hpc hsuspended⟩

/-- A reader that sleeps on data, in two runs. In the first, two readers sleep, a writer brings three
bytes and wakes the reader `0`, which reads one byte and returns. In the second, the reader `0` runs as
soon as the writer resumes it, reads and sleeps again; then the writer takes its node out of the queue
and the next write resumes nobody. -/
theorem reader_sleeps_on_data :
    (∃ s : State (Fin 3), ((system (Fin 3)).guarded fun _ e => PositiveCount e).Reachable s ∧
      s.Quiescent ∧ s.pc 1 = .sleeping (.read 1) ∧ s.sleepers.suspended 1 ∧
      s.fifo.rtRingbufferStatus ≠ .empty) ∧
    ∃ s : State (Fin 2), ((system (Fin 2)).guarded fun _ e => PositiveCount e).Reachable s ∧
      s.Quiescent ∧ s.pc 0 = .sleeping (.read 1) ∧ s.sleepers.suspended 0 ∧
      s.fifo.rtRingbufferStatus ≠ .empty := by
  constructor
  · exact exists_runGuarded ([.read 0 1] ++ untilAsleep 0 ++ [.read 1 1] ++ untilAsleep 1 ++
      [.write 2 [1, 2, 3]] ++ List.replicate 6 (.proceed 2) ++ List.replicate 6 (.proceed 0))
      opened_ofFour
  · exact exists_runGuarded ([.read 0 1] ++ untilAsleep 0 ++ [.write 1 [1]] ++
      List.replicate 4 (.proceed 1) ++ List.replicate 6 (.proceed 0) ++ [.read 0 1] ++ untilAsleep 0 ++
      List.replicate 2 (.proceed 1) ++ [.write 1 [2]] ++ List.replicate 5 (.proceed 1))
      opened_ofFour

end RtThread.Pipe
