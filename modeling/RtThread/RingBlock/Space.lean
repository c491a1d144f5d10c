import Mathlib.Data.List.Nodup
import RtThread.Lib.Spans
import RtThread.RingBlock.Basic

/-!
# The descriptors and the space of a ring block buffer

A descriptor is in the block list exactly while it is in use, and `tail` is the last node of that list.
`rt_rbb_blk_alloc` drops a descriptor when it finds no space. The blocks stay apart, in ring order, as
long as the first block fits the buffer and no empty block closes the ring.
-/

namespace RtThread.RingBlock.Rbb

open Lib Function List Option

variable {s s' : Rbb} {n m new : ℕ} {e : Event} {free : List ℕ}

/-! ## The lists -/

/-- The block list holds the descriptors in use, and `tail` is its last node. -/
structure Listed (s : Rbb) : Prop where
  nodup : s.blkList.Nodup
  used : ∀ n, (s.blk n).status ≠ .unused ↔ n ∈ s.blkList
  tail : s.tail = s.blkList.getLast?
  freeNodup : s.freeList.Nodup
  free : ∀ n ∈ s.freeList, n ∉ s.blkList

/-- The address that `rt_rbb_blk_alloc` finds for a block: any block starts an empty list. -/
def findPlace (s : Rbb) (blkSize : ℕ) : Option ℕ :=
  match s.blkList.head?, s.blkList.getLast? with
  | some head, some tail => s.place (s.blk head) (s.blk tail) blkSize
  | _, _ => some s.buf

/-- A block is put behind the others. -/
def appended (s : Rbb) (new : ℕ) (free : List ℕ) (size buf : ℕ) : Rbb :=
  { s.setBlk new ⟨.inited, size, buf⟩ with
    freeList := free, blkList := s.blkList ++ [new], tail := some new }

/-- A property that the writes of a status, a free and an allocation keep is kept by every call. -/
theorem next_keeps {I : Rbb → Prop} (h : I s)
    (hset : ∀ s n status, I s → (s.blk n).status ≠ .unused → status ≠ .unused → I (s.setStatus n status))
    (hfree : ∀ s s' n, I s → s.rtRbbBlkFree n = some s' → I s')
    (halloc : ∀ size new, e = .alloc size → s.rtRbbBlkAlloc size = some (s', new) → I s')
    (heq : s.next e = some s') : I s' := by
  cases e with
  | alloc size =>
    obtain ⟨⟨s1, new⟩, hs1, rfl⟩ := map_eq_some_iff.mp heq
    exact halloc size new rfl hs1
  | put n =>
    obtain ⟨hinited, ⟨⟩⟩ := ite_none_right_eq_some.mp heq
    exact hset s n _ h (by simp [hinited]) (by simp)
  | get =>
    cases heq
    unfold rtRbbBlkGet
    cases hfind : s.blkList.find? fun n => (s.blk n).status = .put with
    | none => exact h
    | some n =>
      have hput := find?_some hfind
      exact hset s n _ h (by simp [of_decide_eq_true hput]) (by simp)
  | free n => exact hfree s s' n h heq
  | queueGet len =>
    cases heq
    have hloop : ∀ list last total s, I s → I (queueGetLoop len list last total s).1 := by
      intro list
      induction list with
      | nil => exact fun _ _ _ h => h
      | cons n rest ih =>
        intro last total s h
        cases last with
        | none =>
          rw [queueGetLoop]
          split
          next hput =>
            exact ih _ _ _ (hset s n _ h (by simp [hput]) (by simp))
          · exact ih _ _ _ h
        | some last =>
          rw [queueGetLoop]
          split
          · exact h
          next hput =>
            rw [not_or, not_not] at hput
            exact ih _ _ _ (hset s n _ h (by simp [hput.1]) (by simp))
    exact hloop _ _ _ _ h
  | queueFree n blkNum =>
    clear halloc
    induction blkNum generalizing s n with
    | zero =>
      cases heq
      exact h
    | succ blkNum ih =>
      rw [next, rtRbbBlkQueueFree] at heq
      obtain ⟨s1, hs1, heq⟩ := bind_eq_some_iff.mp heq
      have h1 := hfree s s1 n h hs1
      split at heq
      · cases heq
        exact h1
      · exact ih h1 _ heq
      · cases heq

/-- The node in front of one in the list is where the walk of `list_remove` ends. -/
theorem takeWhile_ne {front back : List ℕ} (h : n ∉ front) :
    (front ++ n :: back).takeWhile (· != n) = front := by
  rw [takeWhile_append_of_pos fun m hm => bne_iff_ne.mpr (ne_of_mem_of_not_mem hm h)]
  simp

namespace Listed

/-- What `rt_rbb_blk_alloc` does. -/
theorem alloc_eq (h : s.Listed) {size : ℕ} (hsize : size < 2 ^ 24) : s.rtRbbBlkAlloc size = some
    (match s.freeList, s.findPlace size with
      | [], _ => (s, none)
      | new :: free, some buf => (s.appended new free size buf, some new)
      | _ :: free, none => ({ s with freeList := free }, none)) := by
  unfold rtRbbBlkAlloc
  rw [if_neg (not_le.mpr hsize)]
  cases hfree : s.freeList with
  | nil => rfl
  | cons new free =>
    have hunused : (s.blk new).status = .unused := by
      by_contra hused
      exact h.free new (by simp [hfree]) ((h.used new).mp hused)
    dsimp only
    rw [if_neg (not_not.mpr hunused)]
    rcases eq_nil_or_concat' s.blkList with hnil | ⟨front, last, hlast⟩
    · have htail : s.tail = none := by simp [h.tail, hnil]
      simp [findPlace, listAppend, appended, setBlk, hnil, htail]
    · have htail : s.tail = some last := by simp [h.tail, hlast]
      have hnot : last ∉ front := fun hmem =>
        (nodup_append.mp (hlast ▸ h.nodup)).2.2 last hmem last (by simp) rfl
      have happend : ∀ buf, ({ s with freeList := free } : Rbb).listAppend new size buf =
          s.appended new free size buf := fun buf => by
        simp [listAppend, appended, setBlk, htail, hlast, takeWhile_ne hnot]
      obtain ⟨head, hhead⟩ : ∃ head, s.blkList.head? = some head :=
        isSome_iff_exists.mp (by simp [hlast])
      have hfind : s.findPlace size = s.place (s.blk head) (s.blk last) size := by
        rw [findPlace, ← h.tail, htail, hhead]
      rw [htail] at happend
      rw [hhead, htail, hfind]
      dsimp only
      rw [show ({ s with tail := some last, freeList := free } : Rbb).place = s.place from rfl]
      cases hplace : s.place (s.blk head) (s.blk last) size with
      | none => rfl
      | some buf =>
        dsimp only
        rw [happend]

/-- An allocation changes nothing, appends a block, or drops a descriptor for which there is no space. -/
theorem alloc_keeps {I : Rbb → Prop} (h : s.Listed) {size : ℕ} {r : Option ℕ} (hsame : I s)
    (happend : ∀ new free buf, s.freeList = new :: free → s.findPlace size = some buf →
      I (s.appended new free size buf))
    (hdrop : ∀ new free, s.freeList = new :: free → s.findPlace size = none →
      I { s with freeList := free }) (heq : s.rtRbbBlkAlloc size = some (s', r)) : I s' := by
  have hsize : size < 2 ^ 24 := by
    by_contra hge
    rw [rtRbbBlkAlloc, if_pos (not_lt.mp hge)] at heq
    cases heq
  rw [h.alloc_eq hsize] at heq
  cases hfree : s.freeList with
  | nil =>
    simp only [hfree, some.injEq, Prod.mk.injEq] at heq
    exact heq.1 ▸ hsame
  | cons new free =>
    cases hplace : s.findPlace size with
    | none =>
      simp only [hfree, hplace, some.injEq, Prod.mk.injEq] at heq
      exact heq.1 ▸ hdrop new free hfree hplace
    | some buf =>
      simp only [hfree, hplace, some.injEq, Prod.mk.injEq] at heq
      exact heq.1 ▸ happend new free buf hfree hplace

/-- A status is written. -/
theorem setStatus (h : s.Listed) {status : Status} (hn : (s.blk n).status ≠ .unused)
    (hstatus : status ≠ .unused) : (s.setStatus n status).Listed := by
  refine { h with used := fun m => ?_ }
  by_cases hm : m = n
  · subst hm
    simpa [Rbb.setStatus, setBlk, hstatus] using (h.used m).mp hn
  · simpa [Rbb.setStatus, setBlk, hm] using h.used m

/-- A block is put behind the others. -/
theorem appended (h : s.Listed) (hfree : s.freeList = new :: free) (size buf : ℕ) :
    (s.appended new free size buf).Listed := by
  have hnodup := nodup_cons.mp (hfree ▸ h.freeNodup)
  have hnew := h.free new (by simp [hfree])
  refine ⟨by simpa [Rbb.appended] using List.Nodup.concat hnew h.nodup, fun m => ?_, by simp [Rbb.appended],
    hnodup.2, fun m hm => ?_⟩
  · by_cases hm : m = new
    · simp [Rbb.appended, setBlk, hm]
    · simpa [Rbb.appended, setBlk, hm] using h.used m
  · have hne : m ≠ new := fun heq => hnodup.1 (heq ▸ hm)
    have hnot := h.free m (by simp [hfree, show m ∈ free from hm])
    simp [Rbb.appended, hne, hnot]

/-- A descriptor is dropped. -/
theorem drop (h : s.Listed) (hfree : s.freeList = new :: free) :
    ({ s with freeList := free } : Rbb).Listed :=
  { h with
    freeNodup := (nodup_cons.mp (hfree ▸ h.freeNodup)).2
    free := fun m hm => h.free m (by simp [hfree, hm]) }

/-- What `rt_rbb_blk_free` does to the lists. -/
theorem free_eq (h : s.Listed) (heq : s.rtRbbBlkFree n = some s') :
    n ∈ s.blkList ∧ s' = { s.setStatus n .unused with
      blkList := s.blkList.erase n, tail := (s.blkList.erase n).getLast?,
      freeList := n :: s.freeList } := by
  obtain ⟨hused, heq⟩ := ite_none_left_eq_some.mp heq
  have hmem := (h.used n).mp hused
  refine ⟨hmem, ?_⟩
  cases heq
  obtain ⟨front, back, hlist⟩ := append_of_mem hmem
  have hfront : n ∉ front := fun hn => (nodup_append.mp (hlist ▸ h.nodup)).2.2 n hn n (by simp) rfl
  have hback : n ∉ back := (nodup_cons.mp (nodup_append.mp (hlist ▸ h.nodup)).2.1).1
  have herase : s.blkList.erase n = front ++ back := by
    rw [hlist, erase_append_right _ hfront, erase_cons_head]
  have htail : (s.listRemove n).tail = (front ++ back).getLast? := by
    rcases eq_nil_or_concat' back with rfl | ⟨rest, last, rfl⟩
    · simp [listRemove, h.tail, hlist, takeWhile_ne hfront]
    · have hlast : s.tail = some last := by
        rw [h.tail, hlist, ← cons_append, ← append_assoc, getLast?_concat]
      have hne : last ≠ n := fun heq => hback (by simp [heq])
      rw [listRemove, ← append_assoc]
      simp [hlast, hne]
  rw [herase, ← htail]
  simp [Rbb.setStatus, setBlk, listRemove, herase]

theorem rtRbbBlkFree (h : s.Listed) (heq : s.rtRbbBlkFree n = some s') : s'.Listed := by
  obtain ⟨hmem, rfl⟩ := h.free_eq heq
  have hnot : n ∉ s.freeList := fun hn => h.free n hn hmem
  refine ⟨h.nodup.erase n, fun m => ?_, rfl, nodup_cons.mpr ⟨hnot, h.freeNodup⟩, fun m hm => ?_⟩
  · rw [h.nodup.mem_erase_iff]
    by_cases hm : m = n
    · simp [Rbb.setStatus, setBlk, hm]
    · simpa [Rbb.setStatus, setBlk, hm] using h.used m
  · rw [h.nodup.mem_erase_iff]
    rcases mem_cons.mp hm with rfl | hm
    · simp
    · exact fun hmem => h.free m hm hmem.2

end Listed

/-- In every run the block list holds the descriptors in use. -/
theorem listed (h : system.Reachable s) : s.Listed := by
  refine h.invariant (fun s hs => ?_) fun s e s' hs heq => ?_
  · obtain ⟨buf, bufSize, blkMaxNum, -, rfl⟩ := hs
    refine ⟨nodup_nil, fun n => by simp [rtRbbInit], rfl, ?_, fun n _ => not_mem_nil⟩
    exact nodup_reverse.mpr nodup_range
  · refine next_keeps hs (fun s n status hs => hs.setStatus) (fun s s' n hs => hs.rtRbbBlkFree)
      (fun size new _ halloc => ?_) heq
    exact hs.alloc_keeps hs (fun _ _ _ hfree _ => hs.appended hfree _ _) (fun _ _ hfree _ => hs.drop hfree)
      halloc

/-- An allocation finds space, or there is no descriptor to drop. -/
def AllocOk (s : Rbb) : Event → Prop
  | .alloc size => s.freeList = [] ∨ (s.findPlace size).isSome
  | _ => True

/-- Every descriptor is in one of the two lists. -/
structure Counted (s : Rbb) : Prop extends s.Listed where
  count : s.freeList.length + s.blkList.length = s.blkMaxNum

/-- While every allocation finds space or no descriptor, no descriptor is lost. -/
theorem counted (h : (system.guarded AllocOk).Reachable s) : s.Counted := by
  refine h.invariant (fun s hs => ?_) fun s e s' hs ⟨hok, heq⟩ => ?_
  · have hlisted : s.Listed := listed (.init hs)
    obtain ⟨buf, bufSize, blkMaxNum, -, rfl⟩ := hs
    exact ⟨hlisted, by simp [rtRbbInit]⟩
  · refine next_keeps hs (fun s n status hs hn hstatus => ⟨hs.setStatus hn hstatus, hs.count⟩)
      (fun s s' n hs hfree => ⟨hs.rtRbbBlkFree hfree, ?_⟩) (fun size new he halloc => ?_) heq
    · obtain ⟨hmem, rfl⟩ := hs.free_eq hfree
      have hpos := length_pos_of_mem hmem
      have hcount := hs.count
      simp only [length_cons, length_erase_of_mem hmem]
      change _ = s.blkMaxNum
      omega
    · rw [he] at hok
      refine hs.alloc_keeps hs (fun new free buf hfree _ => ⟨hs.appended hfree _ _, ?_⟩)
        (fun new free hfree hplace => ?_) halloc
      · have hcount := hs.count
        simp only [hfree, length_cons] at hcount
        simp only [appended, length_append, length_singleton]
        change _ = s.blkMaxNum
        omega
      · simp [AllocOk, hfree, hplace] at hok

/-- A failed allocation leaves the buffer as it was exactly when there was no descriptor to drop; while
every allocation finds space or no descriptor, all descriptors are in one of the two lists. -/
theorem failed_alloc_unchanged (h : system.Reachable s) {size : ℕ} (hsize : size < 2 ^ 24) :
    ((∀ s', s.rtRbbBlkAlloc size = some (s', none) → s' = s) ↔ s.AllocOk (.alloc size)) ∧
    ((system.guarded AllocOk).Reachable s → s.freeList.length + s.blkList.length = s.blkMaxNum) := by
  refine ⟨?_, fun hguarded => (counted hguarded).count⟩
  rw [(listed h).alloc_eq hsize]
  cases hfree : s.freeList with
  | nil => simp [AllocOk, hfree]
  | cons new free =>
    cases hplace : s.findPlace size with
    | none =>
      have hne : ({ s with freeList := free } : Rbb) ≠ s := fun heq => by
        have hlist := congrArg freeList heq
        simp [hfree] at hlist
      simp [AllocOk, hfree, hplace, hne]
    | some buf => simp [AllocOk, hplace]

/-- The first block of a buffer of 16 bytes. -/
theorem failed_alloc_unchanged_first : ∃ s : Rbb, (system.guarded AllocOk).Reachable s ∧
    s.blkList = [1] ∧ s.freeList.length + s.blkList.length = s.blkMaxNum := by
  have hinit : Initialized (rtRbbInit 4096 16 2) := ⟨4096, 16, 2, by decide, rfl⟩
  have hreach : (system.guarded AllocOk).Reachable ((rtRbbInit 4096 16 2).appended 1 [0] 8 4096) :=
    .step (e := .alloc 8) (.init hinit) ⟨.inr rfl, rfl⟩
  exact ⟨_, hreach, rfl, (failed_alloc_unchanged hreach.of_guarded (by decide : 8 < 2 ^ 24)).2 hreach⟩

/-- The second block does not fit a buffer of 8 bytes, and its descriptor is in neither list. -/
theorem descriptor_lost : ∃ s s' : Rbb, system.Reachable s ∧ s.rtRbbBlkAlloc 8 = some (s', none) ∧
    s'.freeList ≠ s.freeList ∧ system.Reachable s' ∧
    s'.freeList.length + s'.blkList.length ≠ s'.blkMaxNum := by
  have hinit : Initialized (rtRbbInit 4096 8 2) := ⟨4096, 8, 2, by decide, rfl⟩
  have hreach : system.Reachable ((rtRbbInit 4096 8 2).appended 1 [0] 8 4096) :=
    .step (e := .alloc 8) (.init hinit) rfl
  exact ⟨_, _, hreach, rfl, by decide, hreach.step (e := .alloc 8) rfl, by decide⟩

/-! ## The space -/

/-- The block ends where the other one begins, or in front of it. -/
def Before (s : Rbb) (a b : ℕ) : Prop := (s.blk a).buf + (s.blk a).size ≤ (s.blk b).buf

/-- The blocks lie in the buffer. In the block list those at the higher addresses come first, and behind
the last of them those at the lower addresses. -/
structure Laid (s : Rbb) : Prop extends s.Listed where
  memory : s.buf + s.bufSize < 2 ^ 64
  inside : ∀ n ∈ s.blkList, s.buf ≤ (s.blk n).buf ∧ (s.blk n).buf + (s.blk n).size ≤ s.buf + s.bufSize
  order : ∃ upper lower, s.blkList = upper ++ lower ∧ (lower ++ upper).Pairwise s.Before ∧
    (lower ≠ [] → upper ≠ []) ∧ ∀ a ∈ lower, ∀ b ∈ upper, (s.blk a).buf < (s.blk b).buf

/-- The last block ends where the first one begins, at a higher address. -/
def closed (s : Rbb) : Bool :=
  match s.blkList.head?, s.tail with
  | some head, some tail =>
    (s.blk tail).buf < (s.blk head).buf ∧ (s.blk tail).buf + (s.blk tail).size = (s.blk head).buf
  | _, _ => false

/-- The first block fits the buffer, and no empty block is put into a closed ring. -/
def FitsOk (s : Rbb) : Event → Prop
  | .alloc size => (s.blkList = [] → size ≤ s.bufSize) ∧ (size = 0 → s.closed = false)
  | _ => True

/-- The blocks of the list stay when a block is added. -/
theorem Listed.appended_blk (h : s.Listed) (hfree : s.freeList = new :: free) (size buf : ℕ) (hn : n ∈ s.blkList) :
    (s.appended new free size buf).blk n = s.blk n :=
  update_of_ne (ne_of_mem_of_not_mem hn (h.free new (by simp [hfree]))) ..

namespace Laid

/-- The address behind a block of the list. -/
theorem stop_eq (h : s.Laid) (hn : n ∈ s.blkList) : (s.blk n).stop = (s.blk n).buf + (s.blk n).size := by
  have hmemory := h.memory
  have hinside := h.inside n hn
  exact wordAdd_of_lt (by omega)

/-- A block is put behind the others, between the blocks at lower and at higher addresses. -/
theorem insert (h : s.Laid) (hfree : s.freeList = new :: free) {size buf : ℕ}
    {upper lower front back : List ℕ} (hlist : s.blkList ++ [new] = upper ++ lower)
    (hsplit : lower ++ upper = front ++ new :: back) (hpair : (front ++ back).Pairwise s.Before)
    (hmem : ∀ n ∈ front ++ back, n ∈ s.blkList) (hlow : s.buf ≤ buf) (hhigh : buf + size ≤ s.buf + s.bufSize)
    (hfront : ∀ a ∈ front, (s.blk a).buf + (s.blk a).size ≤ buf)
    (hback : ∀ b ∈ back, buf + size ≤ (s.blk b).buf) (hwrap : lower ≠ [] → upper ≠ [])
    (hbelow : ∀ a ∈ lower, ∀ b ∈ upper, ((s.appended new free size buf).blk a).buf <
      ((s.appended new free size buf).blk b).buf) : (s.appended new free size buf).Laid := by
  have hnew : (s.appended new free size buf).blk new = ⟨.inited, size, buf⟩ := update_self ..
  have hblk := fun n hn => h.appended_blk hfree size buf (n := n) hn
  refine ⟨h.toListed.appended hfree size buf, h.memory, fun n hn => ?_, upper, lower, hlist, ?_, hwrap, hbelow⟩
  · rcases mem_append.mp hn with hn | hn
    · rw [hblk n hn]
      exact h.inside n hn
    · rw [mem_singleton.mp hn, hnew]
      exact ⟨hlow, hhigh⟩
  · rw [hsplit]
    refine pairwise_insert (hpair.imp_of_mem fun {a b} ha hb hab => ?_) (fun a ha => ?_) fun b hb => ?_
    · rwa [Before, hblk a (hmem a ha), hblk b (hmem b hb)]
    · rw [Before, hblk a (hmem a (mem_append_left _ ha)), hnew]
      exact hfront a ha
    · rw [Before, hblk b (hmem b (mem_append_right _ hb)), hnew]
      exact hback b hb

/-- In an ordered list every block ends in front of the end of the last one. -/
theorem stop_le_of_concat {init : List ℕ} {tail : ℕ} (hpair : (init ++ [tail]).Pairwise s.Before) :
    ∀ a ∈ init ++ [tail], (s.blk a).buf + (s.blk a).size ≤ (s.blk tail).buf + (s.blk tail).size := by
  intro a ha
  rcases mem_append.mp ha with ha | ha
  · have hbefore := (pairwise_append.mp hpair).2.2 a ha tail (by simp)
    exact hbefore.trans (Nat.le_add_right _ _)
  · rw [mem_singleton.mp ha]

/-- `rt_rbb_blk_alloc` with space for the block. -/
theorem appended (h : s.Laid) (hfree : s.freeList = new :: free) {size buf : ℕ}
    (hok : s.FitsOk (.alloc size)) (hplace : s.findPlace size = some buf) :
    (s.appended new free size buf).Laid := by
  have hmemory := h.memory
  have hnew : (s.appended new free size buf).blk new = ⟨.inited, size, buf⟩ := update_self ..
  have hblk := fun n hn => h.appended_blk hfree size buf (n := n) hn
  obtain ⟨upper, lower, hlist, hpair, hwrap, hlow⟩ := h.order
  cases upper with
  | nil =>
    obtain rfl : lower = [] := by_contra fun hne => hwrap hne rfl
    rw [findPlace, hlist] at hplace
    obtain rfl : s.buf = buf := some.inj hplace
    exact h.insert hfree (by simp [hlist] : _ = [new] ++ []) rfl .nil (by simp) le_rfl
      (Nat.add_le_add_left (hok.1 hlist) _) (by simp) (by simp) (by simp) (by simp)
  | cons head rest =>
    have hhead : s.blkList.head? = some head := by rw [hlist]; rfl
    have hmem : head ∈ s.blkList := by simp [hlist]
    have hhin := h.inside head hmem
    have hfirst : ∀ b ∈ head :: rest, (s.blk head).buf ≤ (s.blk b).buf := fun b hb => by
      rcases mem_cons.mp hb with rfl | hb
      · exact le_rfl
      · have hbefore := (pairwise_cons.mp (pairwise_append.mp hpair).2.1).1 b hb
        exact (Nat.le_add_right _ _).trans hbefore
    rw [findPlace, hhead] at hplace
    rcases eq_nil_or_concat' lower with rfl | ⟨front, tail, rfl⟩
    · -- The block goes behind the last one, or to the start of the buffer.
      obtain ⟨init, tail, hinit⟩ := (eq_nil_or_concat' (head :: rest)).resolve_left (by simp)
      rw [append_nil] at hlist
      have htail : tail ∈ head :: rest := by simp [hinit]
      have hin := h.inside tail (hlist ▸ htail)
      rw [hlist, hinit, getLast?_concat] at hplace
      dsimp only [place] at hplace
      rw [if_pos (hfirst tail htail), h.stop_eq (hlist ▸ htail), wordAdd_of_lt hmemory,
        wordSub_of_le hin.2 hmemory, wordSub_of_le hhin.1 (by omega)] at hplace
      split at hplace
      · cases hplace
        exact h.insert hfree (by rw [hlist, append_nil] : _ = (head :: rest ++ [new]) ++ []) rfl
          (by simpa using hpair) (by simp [hlist]) (by omega) (by omega)
          (hinit ▸ stop_le_of_concat (hinit ▸ hpair)) (by simp) (by simp) (by simp)
      · obtain ⟨hroom, ⟨⟩⟩ := ite_none_right_eq_some.mp hplace
        refine h.insert hfree (by rw [hlist] : _ = (head :: rest) ++ [new])
          (rfl : _ = [] ++ new :: (head :: rest)) hpair (by simp [hlist]) le_rfl (by omega) (by simp)
          (fun b hb => ?_) (by simp) fun a ha b hb => ?_
        · have hle := hfirst b hb
          omega
        · have hle := hfirst b hb
          rw [mem_singleton.mp ha, hnew, hblk b (hlist ▸ hb)]
          dsimp only
          omega
    · -- The ring has wrapped: the block goes between the last one and the first.
      have htail : tail ∈ s.blkList := by simp [hlist]
      have hin := h.inside tail htail
      have hget : s.blkList.getLast? = some tail := by
        rw [hlist, ← append_assoc, getLast?_concat]
      have hlt := hlow tail (by simp) head (by simp)
      have hbefore : s.Before tail head := (pairwise_append.mp hpair).2.2 tail (by simp) head (by simp)
      rw [hget] at hplace
      dsimp only [place] at hplace
      rw [if_neg (not_le.mpr hlt), h.stop_eq htail, wordSub_of_le hbefore (by omega)] at hplace
      obtain ⟨hroom, ⟨⟩⟩ := ite_none_right_eq_some.mp hplace
      have hbelow : (s.blk tail).buf + (s.blk tail).size < (s.blk head).buf := by
        have hopen : size = 0 → (s.blk tail).buf + (s.blk tail).size ≠ (s.blk head).buf := fun hzero => by
          simpa [closed, hhead, h.tail, hget, hlt] using hok.2 hzero
        have hle : (s.blk tail).buf + (s.blk tail).size ≤ (s.blk head).buf := hbefore
        omega
      refine h.insert hfree (by rw [hlist, append_assoc] : _ = (head :: rest) ++ (front ++ [tail] ++ [new]))
        (by simp : _ = (front ++ [tail]) ++ new :: (head :: rest)) hpair (by simp [hlist]; tauto) (by omega)
        (by omega) (stop_le_of_concat (pairwise_append.mp hpair).1) (fun b hb => ?_) (by simp)
        fun a ha b hb => ?_
      · have hle := hfirst b hb
        omega
      · have hle := hfirst b hb
        rw [hblk b (by rw [hlist]; exact mem_append_left _ hb)]
        rcases mem_append.mp ha with ha | ha
        · rw [hblk a (by rw [hlist]; exact mem_append_right _ ha)]
          exact hlow a ha b hb
        · rw [mem_singleton.mp ha, hnew]
          exact hbelow.trans_le hle

/-- Blocks leave the list, and the others stay where they are. -/
theorem thin (h : s.Laid) (hlisted : s'.Listed) (hbuf : s'.buf = s.buf) (hsize : s'.bufSize = s.bufSize)
    (hblk : ∀ m, (s'.blk m).buf = (s.blk m).buf ∧ (s'.blk m).size = (s.blk m).size)
    (hsub : s'.blkList.Sublist s.blkList) : s'.Laid := by
  have hbefore : s'.Before = s.Before := by
    funext a b
    simp only [Before, (hblk a).1, (hblk a).2, (hblk b).1]
  refine ⟨hlisted, by rw [hbuf, hsize]; exact h.memory, fun n hn => ?_, ?_⟩
  · rw [(hblk n).1, (hblk n).2, hbuf, hsize]
    exact h.inside n (hsub.subset hn)
  · obtain ⟨upper, lower, hlist, hpair, -, hlow⟩ := h.order
    obtain ⟨upper', lower', hlist', hupper, hlower⟩ := sublist_append_iff.mp (hlist ▸ hsub)
    rw [hbefore]
    have hpair' := hpair.sublist (hlower.append hupper)
    by_cases hnil : upper' = []
    · refine ⟨lower', [], by simp [hlist', hnil], ?_, by simp, by simp⟩
      exact (pairwise_append.mp hpair').1
    · refine ⟨upper', lower', hlist', hpair', fun _ => hnil, fun a ha b hb => ?_⟩
      rw [(hblk a).1, (hblk b).1]
      exact hlow a (hlower.subset ha) b (hupper.subset hb)

end Laid

/-- A status is no part of the place of a block. -/
theorem setStatus_blk (s : Rbb) (n m : ℕ) (status : Status) :
    ((s.setStatus n status).blk m).buf = (s.blk m).buf ∧
    ((s.setStatus n status).blk m).size = (s.blk m).size := by
  by_cases hm : m = n
  · simp [setStatus, setBlk, hm]
  · simp [setStatus, setBlk, hm]

/-- While the first block fits and no empty block closes the ring, the blocks are laid out in it. -/
theorem laid (h : (system.guarded FitsOk).Reachable s) : s.Laid := by
  refine h.invariant (fun s hs => ?_) fun s e s' hs ⟨hok, heq⟩ => ?_
  · have hlisted : s.Listed := listed (.init hs)
    obtain ⟨buf, bufSize, blkMaxNum, hmemory, rfl⟩ := hs
    exact ⟨hlisted, hmemory, by simp [rtRbbInit], [], [], rfl, .nil, by simp, by simp⟩
  · refine next_keeps hs (fun s n status hs hn hstatus => ?_) (fun s s' n hs hfree => ?_)
      (fun size new he halloc => ?_) heq
    · exact hs.thin (hs.setStatus hn hstatus) rfl rfl (fun m => setStatus_blk s n m status) (.refl _)
    · have hlisted := hs.rtRbbBlkFree hfree
      obtain ⟨-, rfl⟩ := hs.free_eq hfree
      exact hs.thin hlisted rfl rfl (fun m => setStatus_blk s n m _) erase_sublist
    · rw [he] at hok
      refine hs.alloc_keeps hs (fun new free buf hfree hplace => hs.appended hfree hok hplace)
        (fun new free hfree _ => ?_) halloc
      exact hs.thin (hs.drop hfree) rfl rfl (fun m => ⟨rfl, rfl⟩) (.refl _)

/-- While the first block fits the buffer and no empty block closes the ring, the blocks are disjoint,
lie in the buffer, and are listed in ring order from the first one; `tail` is the last node. -/
theorem blocks_disjoint (h : (system.guarded FitsOk).Reachable s) :
    s.blkList.Pairwise (fun a b => s.Before a b ∨ s.Before b a) ∧
    (∀ n ∈ s.blkList, s.buf ≤ (s.blk n).buf ∧ (s.blk n).buf + (s.blk n).size ≤ s.buf + s.bufSize) ∧
    (∃ upper lower, s.blkList = upper ++ lower ∧ (lower ++ upper).Pairwise s.Before) ∧
    s.tail = s.blkList.getLast? := by
  have hlaid := laid h
  obtain ⟨upper, lower, hlist, hpair, -⟩ := hlaid.order
  refine ⟨?_, hlaid.inside, ⟨upper, lower, hlist, hpair⟩, hlaid.tail⟩
  obtain ⟨hlower, hupper, hcross⟩ := pairwise_append.mp hpair
  rw [hlist]
  exact pairwise_append.mpr ⟨hupper.imp .inl, hlower.imp .inl, fun a ha b hb => .inr (hcross b hb a ha)⟩

/-- Two blocks fill a buffer of 16 bytes and the first is freed: the next one wraps. -/
theorem blocks_disjoint_wrapped : ∃ s : Rbb, (system.guarded FitsOk).Reachable s ∧
    s.blkList.map (fun n => (s.blk n).buf) = [4104, 4096] ∧
    s.blkList.Pairwise (fun a b => s.Before a b ∨ s.Before b a) := by
  have hinit : (system.guarded FitsOk).Reachable (rtRbbInit 4096 16 3) :=
    .init ⟨4096, 16, 3, by decide, rfl⟩
  have hfirst := hinit.step (e := Event.alloc 8) ⟨⟨by decide, by decide⟩, rfl⟩
  have hsecond := hfirst.step (e := Event.alloc 8) ⟨⟨by decide, by decide⟩, rfl⟩
  have hfree := hsecond.step (e := Event.free 2) ⟨trivial, rfl⟩
  have hthird := hfree.step (e := Event.alloc 8) ⟨⟨by decide, by decide⟩, rfl⟩
  exact ⟨_, hthird, rfl, (blocks_disjoint hthird).1⟩

/-- The first block is not compared with the buffer. -/
theorem block_outside : ∃ s : Rbb, system.Reachable s ∧ ∃ n ∈ s.blkList,
    s.buf + s.bufSize < (s.blk n).buf + (s.blk n).size := by
  have hinit : Initialized (rtRbbInit 4096 8 2) := ⟨4096, 8, 2, by decide, rfl⟩
  exact ⟨_, .step (e := .alloc 100) (.init hinit) rfl, 1, by decide, by decide⟩

end RtThread.RingBlock.Rbb
