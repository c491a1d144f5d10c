import RtThread.Kernel.Bitmap
import RtThread.Lib.Transition

/-!
# The ready queue

In every reachable state of the scheduler the ready lists hold exactly the `READY` threads, each in
the list of its current priority, and the bitmap names the lists that are not empty.

Most functions take a thread out of the queue, change it and put it back. The invariant is
therefore stated with one thread left out: that thread is linked nowhere, whatever its status.
-/

namespace RtThread.Kernel

open Function List

/-- The list heads of the IPC objects, where a suspended thread waits. -/
def ListHead.isWait : ListHead → Bool
  | .ready _ => false
  | .defunct => false
  | _ => true

namespace Sched

variable {T : Type*} {s : Sched T} {thread : T} {out : Option T}
variable {head : ListHead}

/-- The lists, with the thread `out` taken out: who is linked where. -/
structure LinksWithout (s : Sched T) (out : Option T) : Prop where
  size : s.priorityMax ≤ 256
  priority : ∀ t, s.currentPriority t < s.priorityMax
  masks : ∀ t, out ≠ some t → (s.stat t).code ≠ .init → (s.stat t).code ≠ .close →
    s.MasksFor t (s.currentPriority t)
  nodup : ∀ head, (s.lists head).Nodup
  ready : ∀ t p, t ∈ s.lists (.ready p) ↔
    out ≠ some t ∧ (s.stat t).code = .ready ∧ s.currentPriority t = p
  wait : ∀ t head, head.isWait → t ∈ s.lists head → out ≠ some t ∧ s.isSuspended t
  defunct : ∀ t, t ∈ s.lists .defunct → out ≠ some t ∧ (s.stat t).code = .close
  unique : ∀ t head head', t ∈ s.lists head → t ∈ s.lists head' → head = head'

/-- The lists and the bitmap, with the thread `out` taken out. -/
structure QueueWithout (s : Sched T) (out : Option T) : Prop extends s.LinksWithout out where
  bitmap : s.Represents (fun p => s.lists (.ready p) ≠ [])

/-- The queue invariant, and the current thread is in no ready list. -/
structure ReadyQueue (s : Sched T) : Prop where
  queue : s.QueueWithout none
  current : ∀ t, s.current = some t → (s.stat t).code ≠ .ready

/-- A thread is suspended when its code is one of the suspend codes. -/
theorem isSuspended_iff : s.isSuspended thread = true ↔ ∃ flag, (s.stat thread).code = .suspend flag := by
  unfold isSuspended
  cases (s.stat thread).code <;> simp

/-- What the invariant reads: the codes, the priorities with their masks, the lists and the bitmap. -/
def queueView (s : Sched T) :=
  (s.priorityMax, fun t => (s.stat t).code, s.currentPriority, s.number, s.numberMask, s.highMask, s.lists,
    s.readyPriorityGroup, s.readyTable)

/-- It reads nothing else. -/
theorem QueueWithout.congr {s' : Sched T} (h : s.QueueWithout out) (hview : s'.queueView = s.queueView) :
    s'.QueueWithout out := by
  simp only [queueView, Prod.mk.injEq] at hview
  obtain ⟨hmax, hcodes, hprio, hnumber, hnumberMask, hhighMask, hlists, hgroup, htable⟩ := hview
  have hcode : ∀ t, (s'.stat t).code = (s.stat t).code := congrFun hcodes
  refine ⟨⟨by rw [hmax]; exact h.size, by rw [hmax, hprio]; exact h.priority, ?_,
    by rw [hlists]; exact h.nodup, ?_, ?_, ?_, by rw [hlists]; exact h.unique⟩, ?_⟩
  · intro t ht hinit hclose
    rw [hcode] at hinit hclose
    rw [hprio]
    exact (h.masks t ht hinit hclose).congr hmax (by rw [hnumber]) (by rw [hnumberMask])
      (by rw [hhighMask])
  · intro t p
    rw [hlists, hcode, hprio]
    exact h.ready t p
  · intro t head hwait hmem
    rw [hlists] at hmem
    rw [isSuspended_iff, hcode, ← isSuspended_iff]
    exact h.wait t head hwait hmem
  · intro t hmem
    rw [hlists] at hmem
    rw [hcode]
    exact h.defunct t hmem
  · rw [hlists]
    exact h.bitmap.congr hmax hgroup htable (fun _ => Iff.rfl)

/-- A thread that is linked nowhere is out of the queue. -/
theorem QueueWithout.takeOut (h : s.QueueWithout none) (hlink : ∀ head, thread ∉ s.lists head) :
    s.QueueWithout (some thread) := by
  have hne : ∀ {t head}, t ∈ s.lists head → some thread ≠ some t := by
    rintro t head hmem ⟨rfl⟩
    exact hlink head hmem
  refine ⟨⟨h.size, h.priority, fun t _ => h.masks t (by simp), h.nodup, ?_, ?_, ?_, h.unique⟩, h.bitmap⟩
  · intro t p
    constructor
    · intro hmem
      exact ⟨hne hmem, ((h.ready t p).mp hmem).2⟩
    · intro hready
      exact (h.ready t p).mpr ⟨by simp, hready.2⟩
  · intro t head hwait hmem
    exact ⟨hne hmem, (h.wait t head hwait hmem).2⟩
  · intro t hmem
    exact ⟨hne hmem, (h.defunct t hmem).2⟩

/-- Only ready, suspended and closed threads are linked. -/
theorem LinksWithout.not_linked (h : s.LinksWithout none)
    (hcode : (s.stat thread).code = .running ∨ (s.stat thread).code = .init) (head : ListHead) :
    thread ∉ s.lists head := by
  intro hmem
  cases head with
  | ready p =>
    have hready := ((h.ready thread p).mp hmem).2.1
    rw [hready] at hcode
    simp at hcode
  | defunct =>
    have hclose := (h.defunct thread hmem).2
    rw [hclose] at hcode
    simp at hcode
  | _ =>
    obtain ⟨flag, hflag⟩ := isSuspended_iff.mp (h.wait thread _ rfl hmem).2
    rw [hflag] at hcode
    simp at hcode

/-- A list head fits a thread when the thread's status allows it to be linked there. -/
def Fits (s : Sched T) (thread : T) : ListHead → Prop
  | .ready p => (s.stat thread).code = .ready ∧ s.currentPriority thread = p
  | .defunct => (s.stat thread).code = .close
  | _ => s.isSuspended thread

/-- A ready thread fits the list of its priority only. -/
theorem Fits.ready_iff (h : s.Fits thread head) (p : ℕ) :
    (s.stat thread).code = .ready ∧ s.currentPriority thread = p ↔ head = .ready p := by
  cases head with
  | ready q =>
    obtain ⟨hcode, hprio⟩ := h
    simp [hcode, hprio]
  | defunct => simp [show (s.stat thread).code = .close from h]
  | _ =>
    obtain ⟨flag, hflag⟩ := isSuspended_iff.mp h
    simp [hflag]

/-- Every priority has a bit. -/
theorem LinksWithout.lt_bitmapSize (h : s.LinksWithout out) (t : T) :
    s.currentPriority t < s.bitmapSize := by
  have hprio := h.priority t
  have hsize := h.size
  unfold bitmapSize
  split <;> omega

/-- Clearing the bits of a thread changes the bitmap only. -/
theorem clearReadyBits_eq (s : Sched T) (thread : T) : s.clearReadyBits thread = { s with
      readyPriorityGroup := (s.clearReadyBits thread).readyPriorityGroup
      readyTable := (s.clearReadyBits thread).readyTable } := by
  unfold clearReadyBits
  split
  · dsimp only
    split <;> rfl
  · rfl

/-- Setting the bits of a thread changes the bitmap only. -/
theorem setReadyBits_eq (s : Sched T) (thread : T) : s.setReadyBits thread = { s with
      readyPriorityGroup := (s.setReadyBits thread).readyPriorityGroup
      readyTable := (s.setReadyBits thread).readyTable } := by
  unfold setReadyBits
  split <;> rfl

variable [DecidableEq T]

/-- What `rt_sched_remove_thread` changes. -/
theorem rtSchedRemoveThread_eq (s : Sched T) (thread : T) : s.rtSchedRemoveThread thread =
    { s.listRemove thread with
      readyPriorityGroup := (s.rtSchedRemoveThread thread).readyPriorityGroup
      readyTable := (s.rtSchedRemoveThread thread).readyTable } := by
  unfold rtSchedRemoveThread
  dsimp only
  split
  · exact clearReadyBits_eq (s.listRemove thread) thread
  · rfl

/-- The lists after an unlink. -/
theorem mem_listRemove {t : T} : t ∈ (s.listRemove thread).lists head ↔ t ∈ s.lists head ∧ t ≠ thread := by
  rw [listRemove, mem_filter, decide_eq_true_eq]

/-- Unlinking a thread takes it out of the lists. -/
theorem LinksWithout.listRemove (h : s.LinksWithout none) (thread : T) :
    (s.listRemove thread).LinksWithout (some thread) where
  size := h.size
  priority := h.priority
  masks := by
    intro t _ hinit hclose
    exact (h.masks t (by simp) hinit hclose).congr rfl rfl rfl rfl
  nodup := fun head => (h.nodup head).filter _
  ready := by
    intro t p
    rw [mem_listRemove, h.ready]
    constructor
    · rintro ⟨⟨-, hready⟩, hne⟩
      exact ⟨by simpa using Ne.symm hne, hready⟩
    · rintro ⟨hne, hready⟩
      exact ⟨⟨by simp, hready⟩, fun heq => hne (by rw [heq])⟩
  wait := by
    intro t head hwait ht
    obtain ⟨hmem, hne⟩ := mem_listRemove.mp ht
    exact ⟨by simpa using Ne.symm hne, (h.wait t head hwait hmem).2⟩
  defunct := by
    intro t ht
    obtain ⟨hmem, hne⟩ := mem_listRemove.mp ht
    exact ⟨by simpa using Ne.symm hne, (h.defunct t hmem).2⟩
  unique := by
    intro t head head' ht ht'
    exact h.unique t head head' (mem_listRemove.mp ht).1 (mem_listRemove.mp ht').1

/-- Unlinking a thread leaves a list that it is not in. -/
theorem listRemove_lists_of_not_mem (h : thread ∉ s.lists head) :
    (s.listRemove thread).lists head = s.lists head := by
  apply filter_eq_self.mpr
  intro t ht
  apply decide_eq_true
  rintro rfl
  exact h ht

/-- Unlinking a thread that is linked nowhere. -/
theorem listRemove_of_not_linked (h : ∀ head, thread ∉ s.lists head) : s.listRemove thread = s := by
  have hlists : (s.listRemove thread).lists = s.lists := by
    funext head
    exact listRemove_lists_of_not_mem (h head)
  rw [show s.listRemove thread = { s with lists := (s.listRemove thread).lists } from rfl, hlists]

/-- Unlinking a thread that is not ready takes it out of the queue. -/
theorem QueueWithout.listRemove (h : s.QueueWithout none) (hready : (s.stat thread).code ≠ .ready) :
    (s.listRemove thread).QueueWithout (some thread) where
  toLinksWithout := h.toLinksWithout.listRemove thread
  bitmap := by
    refine h.bitmap.congr rfl rfl rfl ?_
    intro p
    rw [listRemove_lists_of_not_mem]
    intro hmem
    exact hready ((h.ready thread p).mp hmem).2.1

/-- `rt_sched_remove_thread` takes a thread out of the queue. -/
theorem QueueWithout.rtSchedRemoveThread (h : s.QueueWithout none)
    (hmasks : s.MasksFor thread (s.currentPriority thread)) :
    (s.rtSchedRemoveThread thread).QueueWithout (some thread) := by
  have hother : ∀ p, p ≠ s.currentPriority thread →
      (s.listRemove thread).lists (.ready p) = s.lists (.ready p) := by
    intro p hp
    apply listRemove_lists_of_not_mem
    intro hmem
    exact hp ((h.ready thread p).mp hmem).2.2.symm
  have hlinks := h.toLinksWithout.listRemove thread
  constructor
  · rw [rtSchedRemoveThread_eq]
    exact { hlinks with masks := fun t ht hinit hclose =>
        (hlinks.masks t ht hinit hclose).congr rfl rfl rfl rfl }
  · by_cases hempty : (s.listRemove thread).lists (.ready (s.currentPriority thread)) = []
    · have heq : s.rtSchedRemoveThread thread = (s.listRemove thread).clearReadyBits thread := by
        exact if_pos hempty
      have hrep : (s.listRemove thread).Represents (fun p => s.lists (.ready p) ≠ []) :=
        h.bitmap.congr rfl rfl rfl (fun _ => Iff.rfl)
      have hclear := hrep.clearReadyBits (hmasks.congr rfl rfl rfl rfl) (h.lt_bitmapSize thread)
      rw [heq]
      refine hclear.congr rfl rfl rfl ?_
      intro p
      rw [clearReadyBits_eq]
      by_cases hp : p = s.currentPriority thread
      · subst hp
        simp [hempty]
      · simp [hp, hother p hp]
    · have heq : s.rtSchedRemoveThread thread = s.listRemove thread := by
        exact if_neg hempty
      rw [heq]
      refine h.bitmap.congr rfl rfl rfl ?_
      intro p
      by_cases hp : p = s.currentPriority thread
      · subst hp
        simp only [hempty, ne_eq, not_false_eq_true, true_iff]
        intro hnil
        apply hempty
        simp [Sched.listRemove, hnil]
      · rw [hother p hp]

/-- Removing a thread that is linked nowhere. -/
theorem QueueWithout.rtSchedRemoveThread_of_not_linked (h : s.QueueWithout out)
    (hmasks : s.MasksFor thread (s.currentPriority thread))
    (hlink : ∀ head, thread ∉ s.lists head) : s.rtSchedRemoveThread thread = s := by
  rw [Sched.rtSchedRemoveThread, listRemove_of_not_linked hlink]
  split
  next hempty =>
    exact h.bitmap.clearReadyBits_of_not hmasks (h.lt_bitmapSize thread) (by simpa using hempty)
  · rfl

theorem setStat_of_ne {t : T} (stat : Stat) (h : t ≠ thread) : (s.setStat thread stat).stat t = s.stat t :=
  update_of_ne h ..

@[simp] theorem setStat_self (stat : Stat) : (s.setStat thread stat).stat thread = stat :=
  update_self ..

/-- The status of a thread that is out of the queue may change. -/
theorem QueueWithout.setStat (h : s.QueueWithout (some thread)) (stat : Stat) :
    (s.setStat thread stat).QueueWithout (some thread) := by
  have hstat : ∀ {t}, some thread ≠ some t → (s.setStat thread stat).stat t = s.stat t :=
    fun ht => setStat_of_ne stat fun heq => ht (congrArg some heq.symm)
  refine ⟨⟨h.size, h.priority, ?_, h.nodup, ?_, ?_, ?_, h.unique⟩,
    h.bitmap.congr rfl rfl rfl (fun _ => Iff.rfl)⟩
  · intro t ht hinit hclose
    rw [hstat ht] at hinit hclose
    exact (h.masks t ht hinit hclose).congr rfl rfl rfl rfl
  · intro t p
    refine (h.ready t p).trans (and_congr_right fun ht => ?_)
    rw [hstat ht]
    exact Iff.rfl
  · intro t head hwait hmem
    obtain ⟨ht, hsusp⟩ := h.wait t head hwait hmem
    exact ⟨ht, by rwa [isSuspended, hstat ht]⟩
  · intro t hmem
    obtain ⟨ht, hclose⟩ := h.defunct t hmem
    exact ⟨ht, by rwa [hstat ht]⟩

/-- A thread that is out of the queue and not ready belongs nowhere. -/
theorem QueueWithout.rejoin (h : s.QueueWithout (some thread)) (hready : (s.stat thread).code ≠ .ready)
    (hmasks : (s.stat thread).code ≠ .init → (s.stat thread).code ≠ .close →
      s.MasksFor thread (s.currentPriority thread)) : s.QueueWithout none := by
  refine ⟨⟨h.size, h.priority, ?_, h.nodup, ?_, ?_, ?_, h.unique⟩, h.bitmap⟩
  · intro t _ hinit hclose
    by_cases ht : t = thread
    · rw [ht] at hinit hclose ⊢
      exact hmasks hinit hclose
    · exact h.masks t (by simpa using Ne.symm ht) hinit hclose
  · intro t p
    rw [h.ready]
    refine ⟨fun hmem => ⟨nofun, hmem.2⟩, fun hmem => ⟨?_, hmem.2⟩⟩
    rintro ⟨rfl⟩
    exact hready hmem.2.1
  · intro t head hwait hmem
    exact ⟨by simp, (h.wait t head hwait hmem).2⟩
  · intro t hmem
    exact ⟨by simp, (h.defunct t hmem).2⟩

/-- Linking a thread in a list of the right kind, wherever in the list. -/
theorem LinksWithout.link {list : List T} (h : s.LinksWithout (some thread)) (hfits : s.Fits thread head)
    (hmasks : (s.stat thread).code ≠ .init → (s.stat thread).code ≠ .close →
      s.MasksFor thread (s.currentPriority thread)) (hlist : list.Perm (thread :: s.lists head)) :
    { s with lists := update s.lists head list }.LinksWithout none := by
  have hout : ∀ other, thread ∉ s.lists other := by
    intro other hmem
    cases other with
    | ready p => exact ((h.ready thread p).mp hmem).1 rfl
    | defunct => exact (h.defunct thread hmem).1 rfl
    | _ =>
      exact (h.wait thread _ rfl hmem).1 rfl
  have hmem : ∀ t other, t ∈ update s.lists head list other ↔
      (t = thread ∧ other = head) ∨ t ∈ s.lists other := by
    intro t other
    rw [update_apply]
    split_ifs with hsame <;> simp [hsame, hlist.mem_iff]
  refine ⟨h.size, h.priority, ?_, ?_, ?_, ?_, ?_, ?_⟩
  · intro t _ hinit hclose
    by_cases ht : t = thread
    · rw [ht] at hinit hclose ⊢
      exact (hmasks hinit hclose).congr rfl rfl rfl rfl
    · exact (h.masks t (by simpa using Ne.symm ht) hinit hclose).congr rfl rfl rfl rfl
  · refine (forall_update_iff s.lists fun _ l => l.Nodup).mpr ⟨?_, fun _ _ => h.nodup _⟩
    exact hlist.nodup_iff.mpr (nodup_cons.mpr ⟨hout head, h.nodup head⟩)
  · intro t p
    rw [hmem, h.ready]
    by_cases ht : t = thread
    · subst ht
      simp only [true_and, ne_eq, not_true_eq_false, false_and, or_false, reduceCtorEq, not_false_eq_true]
      rw [eq_comm]
      exact (hfits.ready_iff p).symm
    · simp [ht, Ne.symm ht]
  · intro t other hwait hlink
    refine ⟨by simp, ?_⟩
    obtain ⟨rfl, rfl⟩ | hlink := (hmem t other).mp hlink
    · cases other with
      | ready | defunct => simp [ListHead.isWait] at hwait
      | _ => exact hfits
    · exact (h.wait t other hwait hlink).2
  · intro t hlink
    refine ⟨by simp, ?_⟩
    obtain ⟨rfl, rfl⟩ | hlink := (hmem t _).mp hlink
    · exact hfits
    · exact (h.defunct t hlink).2
  · intro t other other' hlink hlink'
    obtain ⟨rfl, rfl⟩ | hold := (hmem t other).mp hlink
    · obtain ⟨-, rfl⟩ | hold' := (hmem t other').mp hlink'
      · rfl
      · exact absurd hold' (hout other')
    · obtain ⟨rfl, rfl⟩ | hold' := (hmem t other').mp hlink'
      · exact absurd hold (hout other)
      · exact h.unique t other other' hold hold'

/-- Linking a thread in the list of an object, or in the list of closed threads. -/
theorem QueueWithout.link {list : List T} (h : s.QueueWithout (some thread))
    (hhead : ∀ p, head ≠ .ready p) (hfits : s.Fits thread head)
    (hmasks : (s.stat thread).code ≠ .init → (s.stat thread).code ≠ .close →
      s.MasksFor thread (s.currentPriority thread)) (hlist : list.Perm (thread :: s.lists head)) :
    { s with lists := update s.lists head list }.QueueWithout none where
  toLinksWithout := h.toLinksWithout.link hfits hmasks hlist
  bitmap := by
    refine h.bitmap.congr rfl rfl rfl ?_
    intro p
    dsimp only
    rw [update_of_ne (hhead p).symm]

/-- What `rt_sched_insert_thread` does to a thread that is not the current one: it is linked at
one end of the list of its priority, and its bits are set. -/
theorem rtSchedInsertThread_of_ne (h : s.current ≠ some thread) : ∃ list : List T,
    list.Perm (thread :: s.lists (.ready (s.currentPriority thread))) ∧
    s.rtSchedInsertThread thread = ({ s.setCode thread .ready with
      lists := update s.lists (.ready (s.currentPriority thread)) list }).setReadyBits thread := by
  rw [rtSchedInsertThread, if_neg h]
  dsimp only
  split
  · exact ⟨_, (perm_append_singleton _ _), rfl⟩
  · exact ⟨_, List.Perm.refl _, rfl⟩

/-- `rt_sched_insert_thread` puts a thread back into the queue. -/
theorem QueueWithout.rtSchedInsertThread (h : s.QueueWithout (some thread))
    (hmasks : s.MasksFor thread (s.currentPriority thread)) :
    (s.rtSchedInsertThread thread).QueueWithout none := by
  by_cases hcur : s.current = some thread
  · rw [Sched.rtSchedInsertThread, if_pos hcur]
    apply (h.setStat _).rejoin
    · simp
    · intro _ _
      exact hmasks.congr rfl rfl rfl rfl
  · obtain ⟨list, hlist, heq⟩ := rtSchedInsertThread_of_ne hcur
    have hcode : (s.setCode thread .ready).QueueWithout (some thread) := h.setStat _
    have hfits : (s.setCode thread .ready).Fits thread (.ready (s.currentPriority thread)) :=
      ⟨by simp [setCode], rfl⟩
    have hlinks := hcode.toLinksWithout.link hfits (fun _ _ => hmasks.congr rfl rfl rfl rfl) hlist
    have hrep : ({ s.setCode thread .ready with
        lists := update s.lists (.ready (s.currentPriority thread)) list }).Represents
          (fun p => s.lists (.ready p) ≠ []) := h.bitmap.congr rfl rfl rfl (fun _ => Iff.rfl)
    have hset := hrep.setReadyBits (hmasks.congr rfl rfl rfl rfl) (h.lt_bitmapSize thread)
    rw [heq]
    constructor
    · rw [setReadyBits_eq]
      exact { hlinks with masks := fun t ht hinit hclose =>
        (hlinks.masks t ht hinit hclose).congr rfl rfl rfl rfl }
    · refine hset.congr rfl rfl rfl ?_
      intro p
      rw [setReadyBits_eq]
      dsimp only
      by_cases hp : p = s.currentPriority thread
      · subst hp
        rw [update_self]
        simp only [true_or, iff_true]
        rintro rfl
        exact absurd hlist.length_eq (by simp)
      · simp [hp]

end Sched

end RtThread.Kernel
