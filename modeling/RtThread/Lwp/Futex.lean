import RtThread.Aspace.Layout
import RtThread.Lib.Transition

/-!
# Shared futexes

`_sftx_get` looks a shared futex up by the memory object of the varea and by an offset there. The offset is
made of the first page of the varea and of the place in the page; how many pages lie between the start of
the varea and the address does not enter it. Two addresses are told apart exactly when this does not
matter: their objects or their places in the page differ, or the first pages are equal exactly when the
pages are.
-/

namespace RtThread.Lwp

open RtThread.Aspace List
open Lib.TransitionSystem (exists_runGuarded)

/-- A user address in a mapped varea of an address space; `rt_aspace_map` asserts that vareas start at a
page. -/
structure UserAddr where
  aspace : Space
  laid : Laid aspace
  aligned : ∀ v ∈ aspace.vareas, v.start % archPageSize = 0
  uaddr : ℕ
  varea : Varea
  query : aspace.bstSearch uaddr = some varea

/-- `struct shared_futex_key`. -/
structure SharedFutexKey where
  mobj : Option ℕ
  offset : ℕ
deriving DecidableEq

/-- The key that `_sftx_get` computes. -/
def UserAddr.key (a : UserAddr) : SharedFutexKey where
  mobj := a.varea.memObj
  offset := (a.varea.offset <<< 12) % wordLimit ||| (a.uaddr &&& (1 <<< 12 - 1))

/-- A shared `struct rt_futex`; a thread of its list is given by the address it waits at. -/
structure Futex where
  key : SharedFutexKey
  waitingThread : List UserAddr

/-- A call of `_futex_wake` that is in its loop. -/
structure WakeCall where
  uaddr : UserAddr
  number : ℤ

/-- The global table, the calls of `_futex_wake` in progress, and who woke whom. -/
structure Futexes where
  table : List Futex
  calls : List WakeCall
  woken : List (UserAddr × UserAddr)

/-- The lookup of `_sftx_get`: a futex is created if there is none and memory suffices. -/
def sftxGet (table : List Futex) (key : SharedFutexKey) (memory : Bool) : Option (List Futex) :=
  if table.any (·.key = key) then some table
  else if memory then some (table ++ [⟨key, []⟩])
  else none

/-- Write the waiting threads of a futex. -/
def setWaiting (table : List Futex) (key : SharedFutexKey) (waiting : List UserAddr → List UserAddr) :
    List Futex :=
  table.map fun f => if f.key = key then { f with waitingThread := waiting f.waitingThread } else f

/-- The threads that wait at a futex. -/
def waitingAt (table : List Futex) (key : SharedFutexKey) : List UserAddr :=
  (table.find? (·.key = key)).elim [] Futex.waitingThread

/-- The steps: `FUTEX_WAIT`, with whether the word has the expected value; the start of `FUTEX_WAKE`; a turn
of the loop of `_futex_wake`; a thread that stops waiting by its timer or a signal. -/
inductive FutexEvent where
  | wait (a : UserAddr) (equal memory : Bool)
  | wake (a : UserAddr) (number : ℤ) (memory : Bool)
  | turn (i : ℕ)
  | leave (key : SharedFutexKey) (i : ℕ)

/-- A turn of the loop of `_futex_wake`. -/
def Futexes.turn (s : Futexes) (i : ℕ) (c : WakeCall) : Futexes :=
  if c.number = 0 then { s with calls := s.calls.eraseIdx i }
  else
    match waitingAt s.table c.uaddr.key with
    | [] => { s with calls := s.calls.eraseIdx i }
    | thread :: _ => { s with
        table := setWaiting s.table c.uaddr.key List.tail
        calls := s.calls.set i { c with number := c.number - 1 }
        woken := s.woken ++ [(c.uaddr, thread)] }

/-- A step. -/
def Futexes.next (s : Futexes) : FutexEvent → Option Futexes
  | .wait a equal memory =>
    match sftxGet s.table a.key memory with
    | none => some s
    | some table =>
      some { s with table := if equal then setWaiting table a.key (· ++ [a]) else table }
  | .wake a number memory =>
    match sftxGet s.table a.key memory with
    | none => some s
    | some table => some { s with table := table, calls := s.calls ++ [⟨a, number⟩] }
  | .turn i => s.calls[i]?.map (s.turn i)
  | .leave key i => some { s with table := setWaiting s.table key (·.eraseIdx i) }

/-- The runs from an empty table. -/
def futexRuns : Lib.TransitionSystem Futexes FutexEvent := .ofNext (· = ⟨[], [], []⟩) Futexes.next

/-! ## Words of memory -/

/-- The byte of a memory object that an address denotes. -/
def UserAddr.word (a : UserAddr) : Option ℕ × ℕ :=
  (a.varea.memObj, a.varea.offset * archPageSize + (a.uaddr - a.varea.start))

/-- The page of the memory object that an address denotes. -/
def UserAddr.page (a : UserAddr) : ℕ := a.varea.offset + (a.uaddr - a.varea.start) / archPageSize

/-- The objects or the places in the page differ, or the offsets of the vareas, as far as the key keeps
them, are equal exactly when the pages are. -/
def ToldApart (a b : UserAddr) : Prop :=
  a.varea.memObj ≠ b.varea.memObj ∨ a.uaddr % archPageSize ≠ b.uaddr % archPageSize ∨
    (a.varea.offset % 2 ^ 52 = b.varea.offset % 2 ^ 52 ↔ a.page = b.page)

instance (a b : UserAddr) : Decidable (ToldApart a b) := inferInstanceAs (Decidable (_ ∨ _ ∨ (_ ↔ _)))

variable {a b : UserAddr}

/-- The offset of a key holds the offset of the varea and the place in the page. -/
theorem UserAddr.key_offset (a : UserAddr) :
    a.key.offset = a.varea.offset % 2 ^ 52 * archPageSize + a.uaddr % archPageSize := by
  have hlow : a.uaddr &&& (1 <<< 12 - 1) = a.uaddr % 2 ^ 12 := Nat.and_two_pow_sub_one_eq_mod a.uaddr 12
  have hhigh : (a.varea.offset <<< 12) % wordLimit = (a.varea.offset % 2 ^ 52) <<< 12 := by
    simp only [wordLimit]
    omega
  unfold UserAddr.key
  rw [hlow, hhigh, ← Nat.shiftLeft_add_eq_or_of_lt (Nat.mod_lt _ (by decide)), Nat.shiftLeft_eq]

/-- Equal keys. -/
theorem UserAddr.key_eq_iff : a.key = b.key ↔ a.varea.memObj = b.varea.memObj ∧
    a.varea.offset % 2 ^ 52 = b.varea.offset % 2 ^ 52 ∧ a.uaddr % archPageSize = b.uaddr % archPageSize := by
  have hsplit : a.key = b.key ↔ a.varea.memObj = b.varea.memObj ∧ a.key.offset = b.key.offset := by
    rw [SharedFutexKey.mk.injEq]
    rfl
  rw [hsplit, a.key_offset, b.key_offset]
  refine and_congr_right fun _ => ?_
  unfold archPageSize
  omega

/-- An address in an aligned varea, by its page and its place in the page. -/
theorem UserAddr.word_eq_iff : a.word = b.word ↔ a.varea.memObj = b.varea.memObj ∧
    a.page = b.page ∧ a.uaddr % archPageSize = b.uaddr % archPageSize := by
  have hsplit : ∀ c : UserAddr, (c.uaddr - c.varea.start) % archPageSize = c.uaddr % archPageSize := by
    intro c
    obtain ⟨hmem, hlow, -⟩ := c.laid.search_some c.query
    have halign := c.aligned c.varea hmem
    unfold archPageSize at halign ⊢
    omega
  have ha := hsplit a
  have hb := hsplit b
  simp only [UserAddr.word, UserAddr.page, Prod.mk.injEq]
  refine and_congr_right fun _ => ?_
  unfold archPageSize at *
  omega

/-- Addresses that are told apart have the same key exactly when they denote the same byte. -/
theorem toldApart_iff : (a.key = b.key ↔ a.word = b.word) ↔ ToldApart a b := by
  rw [UserAddr.key_eq_iff, UserAddr.word_eq_iff, ToldApart]
  tauto

/-! ## Waiting threads -/

/-- A turn of a call whose address is told apart from those of the waiting threads. -/
def FutexEvent.Told (s : Futexes) : FutexEvent → Prop
  | .turn i => ∀ c ∈ s.calls[i]?, ∀ f ∈ s.table, ∀ x ∈ f.waitingThread, ToldApart c.uaddr x
  | _ => True

instance (s : Futexes) : (e : FutexEvent) → Decidable (e.Told s)
  | .turn i => match h : s.calls[i]? with
    | none => .isTrue fun c hc => by simp [h] at hc
    | some c => decidable_of_iff (∀ f ∈ s.table, ∀ x ∈ f.waitingThread, ToldApart c.uaddr x)
        ⟨fun hall c' hc' => by cases h.symm.trans hc'; exact hall, fun hall => hall c h⟩
  | .wait .. | .wake .. | .leave .. => .isTrue trivial

/-- Threads wait at the futex of their key. -/
def Sorted (table : List Futex) : Prop := ∀ f ∈ table, ∀ x ∈ f.waitingThread, x.key = f.key

variable {table table' : List Futex} {key : SharedFutexKey} {s s' : Futexes}

/-- A new futex has no threads. -/
theorem Sorted.sftxGet {memory : Bool} (h : Sorted table) (hget : sftxGet table key memory = some table') :
    Sorted table' := by
  unfold Lwp.sftxGet at hget
  split_ifs at hget <;> cases hget
  · exact h
  · intro f hf x hx
    rcases mem_append.mp hf with hf | hf
    · exact h f hf x hx
    · cases mem_singleton.mp hf
      cases hx

/-- Only threads of the key come to a futex. -/
theorem Sorted.setWaiting {waiting : List UserAddr → List UserAddr} (h : Sorted table)
    (hsub : ∀ list, ∀ x ∈ waiting list, x ∈ list ∨ x.key = key) :
    Sorted (setWaiting table key waiting) := by
  intro f hf x hx
  obtain ⟨old, hold, rfl⟩ := mem_map.mp hf
  split_ifs at hx ⊢ with hkey
  · rcases hsub _ x hx with hin | hnew
    · exact h old hold x hin
    · exact hnew.trans hkey.symm
  · exact h old hold x hx

/-- A step wakes a thread only at the word of the call. -/
theorem futex_step {e : FutexEvent} (h : Sorted s.table ∧ ∀ p ∈ s.woken, p.1.word = p.2.word)
    (htold : e.Told s) (hs : s.next e = some s') :
    Sorted s'.table ∧ ∀ p ∈ s'.woken, p.1.word = p.2.word := by
  obtain ⟨hsorted, hwoken⟩ := h
  cases e with
  | wait a equal memory =>
    simp only [Futexes.next] at hs
    split at hs <;> cases hs
    · exact ⟨hsorted, hwoken⟩
    next hget =>
      refine ⟨?_, hwoken⟩
      cases equal with
      | false => exact hsorted.sftxGet hget
      | true =>
        dsimp only
        rw [if_pos rfl]
        refine Sorted.setWaiting (hsorted.sftxGet hget) fun list x hx => ?_
        rcases mem_append.mp hx with hin | hin
        · exact .inl hin
        · exact .inr (by rw [mem_singleton.mp hin])
  | wake a number memory =>
    simp only [Futexes.next] at hs
    split at hs <;> cases hs
    · exact ⟨hsorted, hwoken⟩
    next hget => exact ⟨hsorted.sftxGet hget, hwoken⟩
  | leave key i =>
    cases hs
    exact ⟨hsorted.setWaiting fun list x hx => .inl (mem_of_mem_eraseIdx hx), hwoken⟩
  | turn i =>
    obtain ⟨c, hc, rfl⟩ := Option.map_eq_some_iff.mp hs
    unfold Futexes.turn
    split_ifs
    · exact ⟨hsorted, hwoken⟩
    · cases hwait : waitingAt s.table c.uaddr.key with
      | nil => exact ⟨hsorted, hwoken⟩
      | cons thread rest =>
        refine ⟨hsorted.setWaiting fun list x hx => .inl (mem_of_mem_tail hx), fun p hp => ?_⟩
        rcases mem_append.mp hp with hp | hp
        · exact hwoken p hp
        · cases mem_singleton.mp hp
          -- the thread waits at the futex that the call has found
          unfold waitingAt at hwait
          cases hfind : s.table.find? (·.key = c.uaddr.key) with
          | none => simp [hfind] at hwait
          | some f =>
            have hf := mem_of_find?_eq_some hfind
            have hin : thread ∈ f.waitingThread := by
              simp only [hfind, Option.elim_some] at hwait
              exact hwait ▸ mem_cons_self
            have hkey : f.key = c.uaddr.key := by simpa using find?_some hfind
            exact (toldApart_iff.mpr (htold c hc f hf thread hin)).mp
              (hkey.symm.trans (hsorted f hf thread hin).symm)

/-- The keys of two user addresses are equal exactly when they denote the same byte of the same object if
and only if the addresses are told apart; and as long as every call of `_futex_wake` has an address that is
told apart from those of the waiting threads, it wakes threads that wait for its own word only. -/
theorem sftx_identifies (a b : UserAddr) (s : Futexes) :
    ((a.key = b.key ↔ a.word = b.word) ↔ ToldApart a b) ∧
    ((futexRuns.guarded fun s e => e.Told s).Reachable s → ∀ p ∈ s.woken, p.1.word = p.2.word) := by
  refine ⟨toldApart_iff, fun hreach => ?_⟩
  refine (Lib.TransitionSystem.Reachable.invariant
    (I := fun s => Sorted s.table ∧ ∀ p ∈ s.woken, p.1.word = p.2.word) ?_ ?_ hreach).2
  · rintro s rfl
    exact ⟨nofun, nofun⟩
  · exact fun s e s' hs hstep => futex_step hs hstep.1 hstep.2

/-- The record of two mapped pages from `0x1000` on. -/
def twoPages : Varea := ⟨.created 0, 0x1000, 0x2000, 0, 0, 0, some 7⟩

/-- A process in which two pages are mapped. -/
def pagedSpace : Space := ⟨0, 2 ^ 32, .node twoPages .nil .nil, 1, 0⟩

/-- An address in the two pages. -/
def pageAddr (uaddr : ℕ) (h : pagedSpace.bstSearch uaddr = some twoPages) : UserAddr where
  aspace := pagedSpace
  laid := by
    have hone : ∀ v ∈ pagedSpace.vareas, v = twoPages := fun v hv => List.mem_singleton.mp hv
    refine ⟨⟨List.pairwise_singleton .., fun v hv => ?_⟩, List.nodup_singleton _, fun v hv n hn => ?_, ?_⟩
    · rw [hone v hv]
      decide +kernel
    · rw [hone v hv] at hn
      cases hn
      exact Nat.one_pos
    · decide +kernel
  aligned := fun v hv => by
    rw [List.mem_singleton.mp (show v ∈ [twoPages] from hv)]
    decide +kernel
  uaddr := uaddr
  varea := twoPages
  query := h

/-- The first word of the first page. -/
def firstWord : UserAddr := pageAddr 0x1000 (by decide +kernel)

/-- The first word of the second page. -/
def secondWord : UserAddr := pageAddr 0x2000 (by decide +kernel)

/-- A thread that waits at a word and a call that wakes it. -/
theorem sftx_identifies_word : ∃ s : Futexes, s.woken.length = 1 ∧ ∀ p ∈ s.woken, p.1.word = p.2.word := by
  obtain ⟨s, hreach, hone⟩ : ∃ s, (futexRuns.guarded fun s e => e.Told s).Reachable s ∧
      s.woken.length = 1 :=
    exists_runGuarded [.wait firstWord true true, .wake firstWord 1 true, .turn 0] rfl
  exact ⟨s, hone, (sftx_identifies firstWord secondWord s).2 hreach⟩

/-- The words at the same place of two pages of a varea have one key, and the call for one wakes the thread
that waits at the other. -/
theorem sftx_confuses : (∃ a b : UserAddr, a.key = b.key ∧ a.word ≠ b.word) ∧
    ∃ s, futexRuns.Reachable s ∧ s.woken.map (fun p => (p.1.word, p.2.word)) = [((some 7, 0), some 7, 4096)] :=
  ⟨⟨firstWord, secondWord, by decide +kernel, by decide +kernel⟩,
    Lib.TransitionSystem.Reachable.exists_run Futexes.next
      [.wait secondWord true true, .wake firstWord 1 true, .turn 0] (.init rfl) (fun _ _ _ _ _ h => h)⟩

end RtThread.Lwp
