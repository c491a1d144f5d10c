import Mathlib.Data.Nat.Notation
import Mathlib.Data.List.Basic
import RtThread.Lib.Transition

/-!
# The signal queues of processes and threads

`sigqueue_dequeue` stops at the first entry with a greater number, so the list has to be in order of the
signal numbers. `sigqueue_enqueue` puts an entry behind the first one whose number is not smaller. This is
the right place when that entry is the only one of the same number, or when there is none and the new entry
goes to the end; otherwise a greater number comes to stand before it, or an older entry of the same number
behind it.
-/

namespace RtThread.Lwp

open List Option
open Lib.TransitionSystem (exists_runGuarded)

variable {nsig : ℕ} {signo sig : ℕ}
variable {list : List Siginfo}

/-- `struct lwp_siginfo`, with its address. -/
structure Siginfo where
  signo : ℕ
  address : ℕ
deriving DecidableEq

/-- `struct lwp_sigqueue`; the words of the set stand side by side. -/
structure Sigqueue (nsig : ℕ) where
  sigsetPending : BitVec nsig
  siginfoList : List Siginfo

/-- `_sigaddset`. -/
def sigaddset (set : BitVec nsig) (sig : ℕ) : BitVec nsig := set ||| BitVec.twoPow nsig (sig - 1)

/-- `_sigdelset`. -/
def sigdelset (set : BitVec nsig) (sig : ℕ) : BitVec nsig := set &&& ~~~(BitVec.twoPow nsig (sig - 1))

/-- `_sigismember`. -/
def sigismember (set : BitVec nsig) (sig : ℕ) : Bool := set.getLsbD (sig - 1)

/-- `_next_signal`. -/
def nextSignal (pending mask : BitVec nsig) : ℕ :=
  match (List.range nsig).find? fun i => (pending &&& ~~~mask).getLsbD i with
  | some i => i + 1
  | none => 0

/-- The loop of `sigqueue_enqueue`. -/
def enqueueLoop (siginfo : Siginfo) : List Siginfo → List Siginfo
  | [] => [siginfo]
  | idx :: rest =>
    if siginfo.signo ≤ idx.signo then idx :: siginfo :: rest else idx :: enqueueLoop siginfo rest

/-- The loop of `sigqueue_dequeue`: the list that remains, the entry that was found, and `is_empty`. -/
def dequeueLoop (signo : ℕ) : Option Siginfo → List Siginfo → List Siginfo × Option Siginfo × Bool
  | found, [] => ([], found, true)
  | found, candidate :: rest =>
    if candidate.signo = signo then
      match found with
      | some found => (candidate :: rest, some found, false)
      | none => dequeueLoop signo (some candidate) rest
    else if signo < candidate.signo then (candidate :: rest, found, true)
    else
      let r := dequeueLoop signo found rest
      (candidate :: r.1, r.2)

/-- Nothing is removed once an entry is found. -/
theorem dequeueLoop_some (found : Siginfo) (list : List Siginfo) :
    ∃ isEmpty, dequeueLoop signo (some found) list = (list, some found, isEmpty) := by
  induction list with
  | nil => exact ⟨true, rfl⟩
  | cons candidate rest ih =>
    obtain ⟨isEmpty, hrest⟩ := ih
    simp only [dequeueLoop, hrest]
    split_ifs <;> exact ⟨_, rfl⟩

/-- The entry that is found leaves the list. -/
theorem dequeueLoop_length {rest : List Siginfo} {found : Siginfo} {isEmpty : Bool}
    (h : dequeueLoop signo none list = (rest, some found, isEmpty)) : rest.length < list.length := by
  induction list generalizing rest with
  | nil => simp [dequeueLoop] at h
  | cons candidate tail ih =>
    unfold dequeueLoop at h
    split_ifs at h
    · obtain ⟨isEmpty', htail⟩ : ∃ isEmpty', dequeueLoop signo (some candidate) tail =
          (tail, some candidate, isEmpty') := dequeueLoop_some candidate tail
      rw [htail] at h
      cases h
      exact Nat.lt_succ_self _
    · cases h
    · cases hr : dequeueLoop signo none tail with
      | mk list' r =>
        simp only [hr] at h
        obtain ⟨rfl, rfl⟩ := h
        exact Nat.succ_lt_succ (ih hr)

namespace Sigqueue

variable {q q' : Sigqueue nsig}

/-- `sigqueue_enqueue`. -/
def enqueue (q : Sigqueue nsig) (siginfo : Siginfo) : Sigqueue nsig :=
  ⟨sigaddset q.sigsetPending siginfo.signo, enqueueLoop siginfo q.siginfoList⟩

/-- `sigqueue_dequeue`. -/
def dequeue (q : Sigqueue nsig) (signo : ℕ) : Option Siginfo × Sigqueue nsig :=
  let r := dequeueLoop signo none q.siginfoList
  (r.2.1, ⟨if r.2.1.isSome && r.2.2 then sigdelset q.sigsetPending signo else q.sigsetPending, r.1⟩)

/-- A call that finds an entry makes the list shorter. -/
theorem dequeue_length {found : Siginfo} (h : q.dequeue signo = (some found, q')) :
    q'.siginfoList.length < q.siginfoList.length := by
  cases hr : dequeueLoop signo none q.siginfoList with
  | mk rest r =>
    obtain ⟨found', isEmpty⟩ := r
    simp only [dequeue, hr] at h
    obtain ⟨rfl, rfl⟩ := h
    exact dequeueLoop_length hr

/-- `sigqueue_discard`; `none` is the read of an entry through a null pointer. -/
def discard (q : Sigqueue nsig) (signo : ℕ) : Option (Sigqueue nsig) :=
  if sigismember q.sigsetPending signo then
    match _h : q.dequeue signo with
    | (none, _) => none
    | (some _, q') => discard q' signo
  else some q
termination_by q.siginfoList.length
decreasing_by exact dequeue_length ‹_›

/-- `sigqueue_discard_sigset`. -/
def discardSigset (q : Sigqueue nsig) (sigset : BitVec nsig) : Option (Sigqueue nsig) :=
  if nextSignal q.sigsetPending (~~~sigset) ≠ 0 then
    match _h : q.dequeue (nextSignal q.sigsetPending (~~~sigset)) with
    | (none, _) => none
    | (some _, q') => discardSigset q' sigset
  else some q
termination_by q.siginfoList.length
decreasing_by exact dequeue_length ‹_›

end Sigqueue

/-- The numbers of signals. -/
def IsSignal (nsig signo : ℕ) : Prop := 1 ≤ signo ∧ signo ≤ nsig

instance (nsig signo : ℕ) : Decidable (IsSignal nsig signo) := inferInstanceAs (Decidable (_ ∧ _))

/-- The calls on a queue. -/
inductive SigCall (nsig : ℕ) where
  | enqueue (siginfo : Siginfo)
  | dequeue (signo : ℕ)
  | discard (signo : ℕ)
  | discardSigset (sigset : BitVec nsig)

/-- The entry that a call brings. -/
def SigCall.arriving : SigCall nsig → List Siginfo
  | .enqueue siginfo => [siginfo]
  | _ => []

/-- A call; `none` is a call that cannot be made or does not return. -/
def Sigqueue.call (q : Sigqueue nsig) : SigCall nsig → Option (Sigqueue nsig)
  | .enqueue siginfo =>
    if siginfo ∉ q.siginfoList ∧ IsSignal nsig siginfo.signo then some (q.enqueue siginfo) else none
  | .dequeue signo => if IsSignal nsig signo then some (q.dequeue signo).2 else none
  | .discard signo => if IsSignal nsig signo then q.discard signo else none
  | .discardSigset sigset => q.discardSigset sigset

/-- A call on a queue with its entries in the order in which they were queued. -/
def sigNext (s : Sigqueue nsig × List Siginfo) (c : SigCall nsig) :
    Option (Sigqueue nsig × List Siginfo) :=
  (s.1.call c).map fun q => (q, (s.2 ++ c.arriving).filter (· ∈ q.siginfoList))

/-- The runs of a queue that is empty at first. -/
def sigRuns (nsig : ℕ) : Lib.TransitionSystem (Sigqueue nsig × List Siginfo) (SigCall nsig) :=
  .ofNext (· = (⟨0, []⟩, [])) sigNext

/-! ## The sets -/

/-- A signal is added. -/
theorem sigismember_sigaddset {set : BitVec nsig} (hsignal : IsSignal nsig signo)
    (hsig : IsSignal nsig sig) :
    sigismember (sigaddset set sig) signo = (sigismember set signo || decide (signo = sig)) := by
  obtain ⟨hpos, hle⟩ := hsignal
  obtain ⟨hpos', hle'⟩ := hsig
  have hbit : (sig - 1 = signo - 1) ↔ signo = sig := by omega
  simp only [sigismember, sigaddset, BitVec.getLsbD_or, BitVec.getLsbD_twoPow, hbit,
    show sig - 1 < nsig by omega, decide_true, Bool.true_and]

/-- A signal is removed. -/
theorem sigismember_sigdelset {set : BitVec nsig} (hsignal : IsSignal nsig signo)
    (hsig : IsSignal nsig sig) :
    sigismember (sigdelset set sig) signo = (sigismember set signo && !decide (signo = sig)) := by
  obtain ⟨hpos, hle⟩ := hsignal
  obtain ⟨hpos', hle'⟩ := hsig
  have hbit : (sig - 1 = signo - 1) ↔ signo = sig := by omega
  simp only [sigismember, sigdelset, BitVec.getLsbD_and, BitVec.getLsbD_not, BitVec.getLsbD_twoPow, hbit,
    show sig - 1 < nsig by omega, show signo - 1 < nsig by omega, decide_true, Bool.true_and]

/-- `_next_signal` gives a signal of the set, if there is one. -/
theorem nextSignal_spec (pending sigset : BitVec nsig) :
    (nextSignal pending (~~~sigset) ≠ 0 → IsSignal nsig (nextSignal pending (~~~sigset)) ∧
      sigismember pending (nextSignal pending (~~~sigset)) = true) ∧
    (nextSignal pending (~~~sigset) = 0 → ∀ signo, IsSignal nsig signo →
      sigismember pending signo = true → sigismember sigset signo = false) := by
  unfold nextSignal
  cases hfind : (List.range nsig).find? fun i => (pending &&& ~~~(~~~sigset)).getLsbD i with
  | some i =>
    have hi : i < nsig := mem_range.mp (mem_of_find?_eq_some hfind)
    have hbit := find?_some hfind
    simp only [BitVec.getLsbD_and, Bool.and_eq_true] at hbit
    exact ⟨fun _ => ⟨⟨Nat.succ_pos i, hi⟩, by simpa [sigismember] using hbit.1⟩, by simp⟩
  | none =>
    refine ⟨by simp, fun _ signo hsignal hpending => ?_⟩
    have hnone := find?_eq_none.mp hfind (signo - 1) (mem_range.mpr (by
      have := hsignal.1
      have := hsignal.2
      omega))
    simp only [BitVec.not_not, BitVec.getLsbD_and, Bool.and_eq_true, not_and, Bool.not_eq_true] at hnone
    exact hnone hpending

/-! ## The list -/

/-- In order of the signal numbers. -/
def Ordered (list : List Siginfo) : Prop := list.Pairwise (·.signo ≤ ·.signo)

/-- Behind an entry of the number, an ordered list tells whether there is another. -/
theorem Ordered.dequeueLoop_some (h : Ordered list) (found : Siginfo) :
    dequeueLoop signo (some found) list = (list, some found, decide (∀ si ∈ list, si.signo ≠ signo)) := by
  induction list with
  | nil => simp [dequeueLoop]
  | cons candidate rest ih =>
    obtain ⟨hfirst, hrest⟩ := pairwise_cons.mp h
    simp only [dequeueLoop, ih hrest]
    split_ifs with heq hlt
    · simp [heq]
    · have hnone : ∀ si ∈ rest, si.signo ≠ signo := fun si hsi => by
        have := hfirst si hsi
        omega
      simpa [heq] using hnone
    · simp [heq]

/-- In an ordered list the first entry of the number is found and leaves it. -/
theorem Ordered.dequeueLoop_none (h : Ordered list) (signo : ℕ) : ∃ isEmpty, dequeueLoop signo none list =
      (list.eraseP (·.signo = signo), list.find? (·.signo = signo), isEmpty) ∧
      ((∃ si ∈ list, si.signo = signo) →
        (isEmpty = true ↔ ∀ si ∈ list.eraseP (·.signo = signo), si.signo ≠ signo)) := by
  induction list with
  | nil => exact ⟨true, rfl, by simp⟩
  | cons candidate rest ih =>
    obtain ⟨hfirst, hrest⟩ := pairwise_cons.mp h
    unfold dequeueLoop
    split_ifs with heq hlt
    · refine ⟨decide (∀ si ∈ rest, si.signo ≠ signo), ?_, fun _ => by simp [heq]⟩
      have hloop : dequeueLoop signo (some candidate) rest = _ := Ordered.dequeueLoop_some hrest candidate
      simpa [heq] using hloop
    · have hnone : ∀ si ∈ candidate :: rest, ¬ si.signo = signo := by
        intro si hsi
        rcases mem_cons.mp hsi with rfl | hsi
        · exact heq
        · have := hfirst si hsi
          omega
      refine ⟨true, ?_, fun ⟨si, hsi, hsigno⟩ => absurd hsigno (hnone si hsi)⟩
      rw [eraseP_of_forall_not (by simpa using hnone), find?_eq_none.mpr (by simpa using hnone)]
    · obtain ⟨isEmpty, hloop, hempty⟩ := ih hrest
      refine ⟨isEmpty, by simp [hloop, heq], fun hex => ?_⟩
      rw [hempty (by simpa [heq] using hex)]
      simp [heq]

/-- The entries of the list and the new one. -/
theorem enqueueLoop_perm (siginfo : Siginfo) (list : List Siginfo) :
    (enqueueLoop siginfo list).Perm (siginfo :: list) := by
  induction list with
  | nil => exact .refl _
  | cons idx rest ih =>
    unfold enqueueLoop
    split_ifs
    · exact .swap siginfo idx rest
    · exact (ih.cons idx).trans (.swap siginfo idx rest)

/-- The entries of the list and the new one. -/
theorem mem_enqueueLoop {si siginfo : Siginfo} :
    si ∈ enqueueLoop siginfo list ↔ si = siginfo ∨ si ∈ list :=
  (enqueueLoop_perm siginfo list).mem_iff.trans mem_cons

/-- The right place: behind a single older entry of the number, or at the end. -/
def RightPlace (siginfo : Siginfo) (list : List Siginfo) : Prop :=
  (list.filter (·.signo = siginfo.signo)).length = 1 ∨ ∀ si ∈ list, si.signo < siginfo.signo

instance (siginfo : Siginfo) (list : List Siginfo) : Decidable (RightPlace siginfo list) :=
  inferInstanceAs (Decidable (_ ∨ _))

/-- An entry that comes to the right place keeps the order and is the last of its number. -/
theorem Ordered.enqueueLoop {siginfo : Siginfo} (h : Ordered list)
    (hplace : RightPlace siginfo list) : Ordered (enqueueLoop siginfo list) ∧
    ∀ signo, (Lwp.enqueueLoop siginfo list).filter (·.signo = signo) =
      list.filter (·.signo = signo) ++ [siginfo].filter (·.signo = signo) := by
  induction list with
  | nil => exact ⟨pairwise_singleton .., fun signo => by simp [Lwp.enqueueLoop]⟩
  | cons idx rest ih =>
    obtain ⟨hfirst, hrest⟩ := pairwise_cons.mp h
    unfold Lwp.enqueueLoop
    split_ifs with hle
    · have hnone : idx.signo = siginfo.signo ∧ ∀ si ∈ rest, si.signo ≠ siginfo.signo := by
        rcases hplace with hone | hless
        · by_cases heq : idx.signo = siginfo.signo
          · simpa [heq] using hone
          · have hempty : rest.filter (·.signo = siginfo.signo) = [] := by
              refine filter_eq_nil_iff.mpr fun si hsi => ?_
              have := hfirst si hsi
              simp only [decide_eq_true_eq]
              omega
            simp [heq, hempty] at hone
        · have := hless idx mem_cons_self
          omega
      obtain ⟨heq, hnone⟩ := hnone
      refine ⟨pairwise_cons.mpr ⟨forall_mem_cons.mpr ⟨Nat.le_of_eq heq, hfirst⟩,
        pairwise_cons.mpr ⟨fun si hsi => ?_, hrest⟩⟩, fun signo => ?_⟩
      · exact heq ▸ hfirst si hsi
      · by_cases hsigno : siginfo.signo = signo
        · have hempty : rest.filter (·.signo = signo) = [] :=
            filter_eq_nil_iff.mpr fun si hsi => by simpa [hsigno] using hnone si hsi
          simp [heq, hsigno, hempty]
        · simp [heq, hsigno]
    · have hrest' : RightPlace siginfo rest := by
        rcases hplace with hone | hless
        · exact .inl (by simpa [show idx.signo ≠ siginfo.signo by omega] using hone)
        · exact .inr fun si hsi => hless si (mem_cons_of_mem _ hsi)
      obtain ⟨hordered, hfilter⟩ := ih hrest hrest'
      refine ⟨pairwise_cons.mpr ⟨fun si hsi => ?_, hordered⟩, fun signo => ?_⟩
      · rcases mem_enqueueLoop.mp hsi with rfl | hsi
        · omega
        · exact hfirst si hsi
      · by_cases hidx : idx.signo = signo <;> simp [hidx, hfilter]

/-! ## Runs -/

namespace Sigqueue

variable {q q' : Sigqueue nsig}

/-- The list is in order and without repetition, and the set holds the numbers of its entries. -/
structure Sound (q : Sigqueue nsig) : Prop where
  ordered : Ordered q.siginfoList
  nodup : q.siginfoList.Nodup
  signals : ∀ si ∈ q.siginfoList, IsSignal nsig si.signo
  pending : ∀ signo, IsSignal nsig signo →
    (sigismember q.sigsetPending signo = true ↔ ∃ si ∈ q.siginfoList, si.signo = signo)

/-- `sigqueue_dequeue` takes out the first entry of the number. -/
theorem Sound.dequeue (h : q.Sound) (hsignal : IsSignal nsig signo) :
    (q.dequeue signo).1 = q.siginfoList.find? (·.signo = signo) ∧
    (q.dequeue signo).2.siginfoList = q.siginfoList.eraseP (·.signo = signo) ∧
    (q.dequeue signo).2.Sound := by
  obtain ⟨isEmpty, hloop, hempty⟩ := h.ordered.dequeueLoop_none signo
  have hsub : (q.siginfoList.eraseP (·.signo = signo)).Sublist q.siginfoList := eraseP_sublist
  have hkeep : ∀ si, si.signo ≠ signo →
      (si ∈ q.siginfoList.eraseP (·.signo = signo) ↔ si ∈ q.siginfoList) :=
    fun si hne => mem_eraseP_of_neg (by simpa using hne)
  unfold Sigqueue.dequeue
  rw [hloop]
  refine ⟨rfl, rfl, h.ordered.sublist hsub, h.nodup.sublist hsub,
    fun si hsi => h.signals si (hsub.subset hsi), fun other hother => ?_⟩
  have hbits := h.pending other hother
  dsimp only
  by_cases hsame : other = signo
  · subst hsame
    cases hfind : q.siginfoList.find? (·.signo = other) with
    | none =>
      have hnone : ∀ si ∈ q.siginfoList, ¬ si.signo = other := by
        simpa using find?_eq_none.mp hfind
      rw [eraseP_of_forall_not (by simpa using hnone)]
      exact hbits
    | some found =>
      have hex : ∃ si ∈ q.siginfoList, si.signo = other :=
        ⟨found, mem_of_find?_eq_some hfind, by simpa using find?_some hfind⟩
      cases hlast : isEmpty with
      | true =>
        have hnone := (hempty hex).mp hlast
        simp only [isSome_some, Bool.and_self, if_true, sigismember_sigdelset hother hother]
        simpa using hnone
      | false =>
        have hmore : ∃ si ∈ q.siginfoList.eraseP (·.signo = other), si.signo = other := by
          by_contra hno
          push Not at hno
          rw [(hempty hex).mpr hno] at hlast
          cases hlast
        simpa [hmore] using hbits.mpr hex
  · have hiff : (∃ si ∈ q.siginfoList.eraseP (·.signo = signo), si.signo = other) ↔
        ∃ si ∈ q.siginfoList, si.signo = other := by
      refine exists_congr fun si => and_congr_left fun heq => hkeep si ?_
      rwa [heq]
    rw [hiff, ← hbits]
    split_ifs
    · rw [sigismember_sigdelset hother hsignal]
      simp [hsame]
    · rfl

/-- An entry at the right place. -/
theorem Sound.enqueue {siginfo : Siginfo} (h : q.Sound) (hnew : siginfo ∉ q.siginfoList)
    (hsignal : IsSignal nsig siginfo.signo) (hplace : RightPlace siginfo q.siginfoList) :
    (q.enqueue siginfo).Sound := by
  refine ⟨(h.ordered.enqueueLoop hplace).1, ?_, fun si hsi => ?_, fun signo hsigno => ?_⟩
  · exact (enqueueLoop_perm siginfo q.siginfoList).nodup_iff.mpr (nodup_cons.mpr ⟨hnew, h.nodup⟩)
  · rcases mem_enqueueLoop.mp hsi with rfl | hsi
    · exact hsignal
    · exact h.signals si hsi
  · unfold Sigqueue.enqueue
    rw [sigismember_sigaddset hsigno hsignal, Bool.or_eq_true, h.pending signo hsigno]
    simp [mem_enqueueLoop, or_comm, eq_comm]

/-- A pending signal has an entry to take out. -/
theorem Sound.dequeue_pending (h : q.Sound) (hsignal : IsSignal nsig signo)
    (hpending : sigismember q.sigsetPending signo = true) :
    ∃ found q', q.dequeue signo = (some found, q') ∧ q'.Sound ∧ q'.siginfoList.Sublist q.siginfoList := by
  obtain ⟨hfound, hlist, hsound⟩ := h.dequeue hsignal
  obtain ⟨si, hsi, hsigno⟩ := (h.pending signo hsignal).mp hpending
  have hsome : (q.siginfoList.find? (·.signo = signo)).isSome = true :=
    find?_isSome.mpr ⟨si, hsi, by simpa using hsigno⟩
  obtain ⟨found, hfind⟩ := isSome_iff_exists.mp hsome
  exact ⟨found, (q.dequeue signo).2, Prod.ext (hfound.trans hfind) rfl, hsound, hlist ▸ eraseP_sublist⟩

/-- The calls that discard signals return a queue without entries of these signals. -/
structure Discarded (q : Sigqueue nsig) (given : ℕ → Prop) (q' : Sigqueue nsig) : Prop where
  sound : q'.Sound
  sublist : q'.siginfoList.Sublist q.siginfoList
  gone : ∀ si ∈ q'.siginfoList, ¬ given si.signo

/-- `sigqueue_discard` returns. -/
theorem Sound.discard (h : q.Sound) (hsignal : IsSignal nsig signo) :
    ∃ q', q.discard signo = some q' ∧ q.Discarded (· = signo) q' := by
  induction hlen : q.siginfoList.length using Nat.strongRecOn generalizing q with
  | _ len ih =>
    rw [Sigqueue.discard]
    split_ifs with hpending
    · obtain ⟨found, q₁, hcall, hsound, hsub⟩ := h.dequeue_pending hsignal hpending
      obtain ⟨q', hq', hdone⟩ := ih _ (hlen ▸ dequeue_length hcall) hsound rfl
      refine ⟨q', ?_, hdone.sound, hdone.sublist.trans hsub, hdone.gone⟩
      split <;> simp_all
    · refine ⟨q, rfl, h, List.Sublist.refl _, fun si hsi hsigno => hpending ?_⟩
      exact (h.pending signo hsignal).mpr ⟨si, hsi, hsigno⟩

/-- `sigqueue_discard_sigset` returns. -/
theorem Sound.discardSigset (h : q.Sound) (sigset : BitVec nsig) :
    ∃ q', q.discardSigset sigset = some q' ∧ q.Discarded (sigismember sigset · = true) q' := by
  induction hlen : q.siginfoList.length using Nat.strongRecOn generalizing q with
  | _ len ih =>
    obtain ⟨hnext, hnone⟩ := nextSignal_spec q.sigsetPending sigset
    rw [Sigqueue.discardSigset]
    split_ifs with hne
    · obtain ⟨hsignal, hpending⟩ := hnext hne
      obtain ⟨found, q₁, hcall, hsound, hsub⟩ := h.dequeue_pending hsignal hpending
      obtain ⟨q', hq', hdone⟩ := ih _ (hlen ▸ dequeue_length hcall) hsound rfl
      refine ⟨q', ?_, hdone.sound, hdone.sublist.trans hsub, hdone.gone⟩
      split <;> simp_all
    · refine ⟨q, rfl, h, List.Sublist.refl _, fun si hsi hsigno => ?_⟩
      have hpending := (h.pending _ (h.signals si hsi)).mpr ⟨si, hsi, rfl⟩
      rw [hnone (not_not.mp hne) _ (h.signals si hsi) hpending] at hsigno
      cases hsigno

end Sigqueue

/-- A sound queue whose entries of each number stand in the order in which they were queued. -/
def SigInv (s : Sigqueue nsig × List Siginfo) : Prop :=
  s.1.Sound ∧ ∀ signo, s.1.siginfoList.filter (·.signo = signo) = s.2.filter (·.signo = signo)

/-- Every entry comes to the right place. -/
def SigCall.RightPlace (s : Sigqueue nsig × List Siginfo) : SigCall nsig → Prop
  | .enqueue siginfo => Lwp.RightPlace siginfo s.1.siginfoList
  | _ => True

instance (s : Sigqueue nsig × List Siginfo) : (c : SigCall nsig) → Decidable (c.RightPlace s)
  | .enqueue siginfo => inferInstanceAs (Decidable (Lwp.RightPlace siginfo s.1.siginfoList))
  | .dequeue _ | .discard _ | .discardSigset _ => .isTrue trivial

variable {s s' : Sigqueue nsig × List Siginfo}

/-- A part of a list without repetition is what the list holds of it. -/
theorem filter_mem_of_sublist {list' : List Siginfo} (h : list'.Sublist list) (hnodup : list.Nodup) :
    list.filter (· ∈ list') = list' := by
  induction h with
  | slnil => rfl
  | cons si hsub ih =>
    obtain ⟨hnew, hrest⟩ := nodup_cons.mp hnodup
    rw [filter_cons_of_neg (by simpa using fun hin => hnew (hsub.subset hin)), ih hrest]
  | cons_cons si hsub ih =>
    obtain ⟨hnew, hrest⟩ := nodup_cons.mp hnodup
    rw [filter_cons_of_pos (by simp)]
    refine congrArg (si :: ·) (Eq.trans (filter_congr fun other hother => ?_) (ih hrest))
    have hne : other ≠ si := fun heq => hnew (heq ▸ hother)
    simp [hne]

/-- A call that only removes entries. -/
theorem SigInv.shrink {q' : Sigqueue nsig} (h : SigInv s) (hsound : q'.Sound)
    (hsub : q'.siginfoList.Sublist s.1.siginfoList) :
    SigInv (q', (s.2 ++ []).filter (· ∈ q'.siginfoList)) := by
  refine ⟨hsound, fun signo => ?_⟩
  have hkeep := filter_mem_of_sublist hsub h.1.nodup
  calc q'.siginfoList.filter (·.signo = signo)
      = (s.1.siginfoList.filter (· ∈ q'.siginfoList)).filter (·.signo = signo) := by rw [hkeep]
    _ = (s.1.siginfoList.filter (·.signo = signo)).filter (· ∈ q'.siginfoList) := filter_comm ..
    _ = (s.2.filter (·.signo = signo)).filter (· ∈ q'.siginfoList) := by rw [h.2]
    _ = (s.2.filter (· ∈ q'.siginfoList)).filter (·.signo = signo) := filter_comm ..
    _ = _ := by rw [append_nil]

/-- A call that puts every entry at the right place keeps the invariant. -/
theorem SigInv.step {c : SigCall nsig} (h : SigInv s) (hplace : c.RightPlace s)
    (hs : sigNext s c = some s') : SigInv s' := by
  obtain ⟨q', hcall, rfl⟩ := map_eq_some_iff.mp hs
  cases c with
  | enqueue siginfo =>
    simp only [Sigqueue.call] at hcall
    split_ifs at hcall with hok
    cases hcall
    refine ⟨h.1.enqueue hok.1 hok.2 hplace, fun signo => ?_⟩
    have hall : ∀ si ∈ s.2 ++ [siginfo], si ∈ (s.1.enqueue siginfo).siginfoList := by
      intro si hsi
      refine mem_enqueueLoop.mpr ((mem_append.mp hsi).symm.imp mem_singleton.mp fun hold => ?_)
      have hin : si ∈ s.1.siginfoList.filter (·.signo = si.signo) :=
        h.2 si.signo ▸ mem_filter.mpr ⟨hold, by simp⟩
      exact (mem_filter.mp hin).1
    have hsame : (s.2 ++ [siginfo]).filter (· ∈ (s.1.enqueue siginfo).siginfoList) = s.2 ++ [siginfo] :=
      filter_eq_self.mpr fun si hsi => by simpa using hall si hsi
    refine Eq.trans ?_ (congrArg (List.filter _) hsame.symm)
    refine ((h.1.ordered.enqueueLoop hplace).2 signo).trans ?_
    rw [h.2, ← filter_append]
  | dequeue signo =>
    simp only [Sigqueue.call] at hcall
    split_ifs at hcall with hsignal
    cases hcall
    obtain ⟨-, hlist, hsound⟩ := h.1.dequeue hsignal
    exact h.shrink hsound (hlist ▸ eraseP_sublist)
  | discard signo =>
    simp only [Sigqueue.call] at hcall
    split_ifs at hcall with hsignal
    obtain ⟨q₁, hq₁, hdone⟩ := h.1.discard hsignal
    cases hcall.symm.trans hq₁
    exact h.shrink hdone.sound hdone.sublist
  | discardSigset sigset =>
    obtain ⟨q₁, hq₁, hdone⟩ := h.1.discardSigset sigset
    cases hcall.symm.trans hq₁
    exact h.shrink hdone.sound hdone.sublist

/-- In every run that puts each entry at the right place, the set tells which signals have an entry,
`sigqueue_dequeue` of a pending signal returns the entry that was queued first, and the two discard calls
return without an entry of the given signals. -/
theorem sigqueue_consistent (nsig : ℕ) {s : Sigqueue nsig × List Siginfo}
    (hreach : ((sigRuns nsig).guarded fun s c => c.RightPlace s).Reachable s) :
    (∀ signo, IsSignal nsig signo →
      (sigismember s.1.sigsetPending signo = true ↔ ∃ si ∈ s.1.siginfoList, si.signo = signo)) ∧
    (∀ signo, IsSignal nsig signo → sigismember s.1.sigsetPending signo = true →
      ∃ si, (s.1.dequeue signo).1 = some si ∧ s.2.find? (·.signo = signo) = some si) ∧
    (∀ signo, IsSignal nsig signo → ∃ q', s.1.discard signo = some q' ∧
      ∀ si ∈ q'.siginfoList, si.signo ≠ signo) ∧ ∀ sigset, ∃ q', s.1.discardSigset sigset = some q' ∧
      ∀ si ∈ q'.siginfoList, sigismember sigset si.signo = false := by
  have hinv : SigInv s := by
    refine Lib.TransitionSystem.Reachable.invariant ?_ ?_ hreach
    · rintro s rfl
      refine ⟨⟨.nil, .nil, by simp, fun signo _ => by simp [sigismember]⟩, fun _ => rfl⟩
    · exact fun s c s' hs hstep => hs.step hstep.1 hstep.2
  obtain ⟨hsound, hfifo⟩ := hinv
  refine ⟨hsound.pending, fun signo hsignal hpending => ?_, fun signo hsignal => ?_, fun sigset => ?_⟩
  · obtain ⟨found, q', hcall, -, -⟩ := hsound.dequeue_pending hsignal hpending
    refine ⟨found, congrArg Prod.fst hcall, ?_⟩
    rw [← head?_filter, ← hfifo, head?_filter, ← (hsound.dequeue hsignal).1, hcall]
  · obtain ⟨q', hcall, hdone⟩ := hsound.discard hsignal
    exact ⟨q', hcall, hdone.gone⟩
  · obtain ⟨q', hcall, hdone⟩ := hsound.discardSigset sigset
    exact ⟨q', hcall, fun si hsi => Bool.not_eq_true _ ▸ hdone.gone si hsi⟩

/-- Two entries of one number behind a smaller one, the first of which was queued first. -/
theorem sigqueue_consistent_two : ∃ s : Sigqueue 64 × List Siginfo, (s.1.dequeue 10).1 = some ⟨10, 2⟩ ∧
      ∃ si, (s.1.dequeue 10).1 = some si ∧ s.2.find? (·.signo = 10) = some si := by
  obtain ⟨s, hreach, hfirst, hpending⟩ : ∃ s, ((sigRuns 64).guarded fun s c => c.RightPlace s).Reachable s ∧
      (s.1.dequeue 10).1 = some ⟨10, 2⟩ ∧ sigismember s.1.sigsetPending 10 = true :=
    exists_runGuarded [.enqueue ⟨2, 1⟩, .enqueue ⟨10, 2⟩, .enqueue ⟨10, 3⟩, .dequeue 2] rfl
  exact ⟨s, hfirst, (sigqueue_consistent 64 hreach).2.1 10 (by decide) hpending⟩

/-- With a greater number in the queue, a pending signal is not found and `sigqueue_discard` reads through a
null pointer; with three entries of one number, the one queued last comes out second. -/
theorem sigqueue_inconsistent : (∃ s, (sigRuns 64).Reachable s ∧ sigismember s.1.sigsetPending 1 = true ∧
      (s.1.dequeue 1).1 = none ∧ s.1.discard 1 = none) ∧
    ∃ s, (sigRuns 64).Reachable s ∧ sigismember s.1.sigsetPending 1 = true ∧
      (s.1.dequeue 1).1 = some ⟨1, 3⟩ ∧ s.2.find? (·.signo = 1) = some ⟨1, 2⟩ :=
  ⟨Lib.TransitionSystem.Reachable.exists_run sigNext [.enqueue ⟨2, 1⟩, .enqueue ⟨1, 2⟩] (.init rfl)
      (fun _ _ _ _ _ h => h), Lib.TransitionSystem.Reachable.exists_run sigNext
      [.enqueue ⟨1, 1⟩, .enqueue ⟨1, 2⟩, .enqueue ⟨1, 3⟩, .dequeue 1] (.init rfl) (fun _ _ _ _ _ h => h)⟩

end RtThread.Lwp
