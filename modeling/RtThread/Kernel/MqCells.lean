import Mathlib.Data.List.Nodup
import RtThread.Kernel.MessageQueue
import RtThread.Lib.Linked

/-!
# The cells of a message queue

The cells of the pool are linked into the list of messages and the list of free cells. Every function
of `ipc.c` on them moves one cell between the two lists and the call that holds it. The content of
a cell is written only by the send that holds it.
-/

namespace RtThread.Kernel

open Lib Function List Option

/-- A message as a send has written it. -/
structure MqContent where
  length : ℕ
  prio : ℤ
  bytes : List ℕ

/-- The content of a cell. -/
def MqMessage.content (message : MqMessage) : MqContent :=
  ⟨message.length, message.prio, message.bytes⟩

namespace MessageQueue

variable {mq mq' : MessageQueue} {queue free : List ℕ} {c : ℕ}
variable {mq'' : MessageQueue}

/-- The pointers of the cells. -/
def next (mq : MessageQueue) (cell : ℕ) : Option ℕ := (mq.cell cell).next

/-- The list of messages and the list of free cells. -/
structure Cells (mq : MessageQueue) (queue free : List ℕ) : Prop where
  messages : Linked mq.next mq.msgQueueHead queue none
  unused : Linked mq.next mq.msgQueueFree free none
  nodup : (queue ++ free).Nodup
  tail : mq.msgQueueTail = queue.getLast?

/-- The contents of all cells and the parameters of the queue stay; pointers and the counter may
change. -/
structure Relinked (mq mq' : MessageQueue) : Prop where
  content : ∀ c, (mq'.cell c).content = (mq.cell c).content
  usingPriority : mq'.usingPriority = mq.usingPriority
  msgSize : mq'.msgSize = mq.msgSize
  maxMsgs : mq'.maxMsgs = mq.maxMsgs
  flag : mq'.flag = mq.flag

theorem Relinked.refl (mq : MessageQueue) : Relinked mq mq := ⟨fun _ => rfl, rfl, rfl, rfl, rfl⟩

theorem Relinked.trans (h : Relinked mq mq') (h' : Relinked mq' mq'') : Relinked mq mq'' :=
  ⟨fun c => (h'.content c).trans (h.content c), h'.usingPriority.trans h.usingPriority,
    h'.msgSize.trans h.msgSize, h'.maxMsgs.trans h.maxMsgs, h'.flag.trans h.flag⟩

/-- Only the lists and the counter change. -/
theorem Relinked.of_cell (hcell : mq'.cell = mq.cell) (hprio : mq'.usingPriority = mq.usingPriority)
    (hsize : mq'.msgSize = mq.msgSize) (hmax : mq'.maxMsgs = mq.maxMsgs) (hflag : mq'.flag = mq.flag) :
    Relinked mq mq' := ⟨fun c => by rw [hcell], hprio, hsize, hmax, hflag⟩

/-- The lists after a change of pointers that keeps the contents and the counter. -/
structure Rearranged (mq mq' : MessageQueue) (queue free : List ℕ) : Prop where
  cells : mq'.Cells queue free
  same : Relinked mq mq'
  entry : mq'.entry = mq.entry

/-- Writing a pointer. -/
theorem next_setNext (mq : MessageQueue) (c : ℕ) (value : Option ℕ) :
    (mq.setNext c value).next = Function.update mq.next c value := by
  funext c'
  by_cases hc : c' = c <;> simp [next, setNext, setCell, hc]

/-- Writing a pointer keeps the contents. -/
theorem relinked_setNext (mq : MessageQueue) (c : ℕ) (value : Option ℕ) :
    Relinked mq (mq.setNext c value) := by
  refine ⟨fun c' => ?_, rfl, rfl, rfl, rfl⟩
  by_cases hc : c' = c <;> simp [setNext, setCell, MqMessage.content, hc]

/-- A cell is in one list, if in any. -/
theorem Cells.not_mem_free (h : mq.Cells queue free) (hc : c ∈ queue) : c ∉ free := fun hfree =>
  (nodup_append.mp h.nodup).2.2 c hc c hfree rfl

/-- The counter and the parameters are not looked at. -/
theorem Cells.congr (h : mq.Cells queue free) (hnext : mq'.next = mq.next)
    (hhead : mq'.msgQueueHead = mq.msgQueueHead) (htail : mq'.msgQueueTail = mq.msgQueueTail)
    (hfree : mq'.msgQueueFree = mq.msgQueueFree) : mq'.Cells queue free := by
  refine ⟨?_, ?_, h.nodup, htail.trans h.tail⟩
  · rw [hnext, hhead]
    exact h.messages
  · rw [hnext, hfree]
    exact h.unused

/-! ## The free cells -/

/-- There is no free cell exactly when none can be taken. -/
theorem Cells.takeFree_eq_none (h : mq.Cells queue free) : mq.takeFree = none ↔ free = [] := by
  rw [takeFree, map_eq_none_iff]
  exact h.unused.nil_iff

/-- The first free cell is nowhere else. -/
theorem Cells.head_not_mem {rest : List ℕ} (h : mq.Cells queue (c :: rest)) : c ∉ queue ∧ c ∉ rest :=
  not_or.mp (mt mem_append.mpr (nodup_cons.mp (nodup_middle.mp h.nodup)).1)

/-- The first free cell is taken. -/
theorem Cells.takeFree (h : mq.Cells queue free) (heq : mq.takeFree = some (c, mq')) :
    ∃ rest, free = c :: rest ∧ mq'.Cells queue rest ∧ Relinked mq mq' ∧ mq'.entry = mq.entry := by
  obtain ⟨c', hc', heq⟩ := map_eq_some_iff.mp heq
  obtain ⟨rfl, rfl⟩ := Prod.mk.inj heq
  cases free with
  | nil => exact absurd (Eq.trans (Eq.symm hc') h.unused) (by simp)
  | cons c rest =>
    obtain ⟨hhead, hrest⟩ := h.unused
    obtain rfl : c = c' := mem_unique hhead hc'
    refine ⟨rest, rfl, ⟨h.messages, hrest, ?_, h.tail⟩, .of_cell rfl rfl rfl rfl rfl, rfl⟩
    exact h.nodup.sublist (List.Sublist.append_left (sublist_cons_self c rest) queue)

/-- A cell that is in no list is put to the free ones. -/
theorem Cells.putFree (h : mq.Cells queue free) (hqueue : c ∉ queue) (hfree : c ∉ free) :
    Rearranged mq (mq.putFree c) queue (c :: free) := by
  have hnext : (mq.putFree c).next = Function.update mq.next c mq.msgQueueFree :=
    next_setNext mq c mq.msgQueueFree
  refine ⟨⟨?_, ?_, ?_, h.tail⟩, (relinked_setNext mq c mq.msgQueueFree).trans
    (.of_cell rfl rfl rfl rfl rfl), rfl⟩
  · rw [hnext]
    exact h.messages.update hqueue _
  · rw [hnext]
    refine ⟨rfl, ?_⟩
    rw [update_self]
    exact h.unused.update hfree _
  · rw [nodup_middle, nodup_cons]
    exact ⟨by simp [hqueue, hfree], h.nodup⟩

/-- `rt_mq_init` makes every cell of the pool free. -/
theorem cells_rtMqInit (usingPriority : Bool) (pool : ℕ → MqMessage) (msgSize maxMsgs : ℕ)
    (flag : IpcFlag) : Rearranged ⟨usingPriority, pool, msgSize, maxMsgs, 0, none, none, none, flag⟩
      (rtMqInit usingPriority pool msgSize maxMsgs flag) [] (List.range maxMsgs).reverse := by
  have hloop : ∀ mq : MessageQueue, mq.Cells [] [] → ∀ n,
      Rearranged mq ((List.range n).foldl MessageQueue.putFree mq) [] (List.range n).reverse := by
    intro mq hmq n
    induction n with
    | zero => exact ⟨hmq, .refl _, rfl⟩
    | succ n ih =>
      rw [range_succ, foldl_append, reverse_append]
      have hput := ih.cells.putFree (c := n) (by simp) (by simp)
      exact ⟨hput.cells, ih.same.trans hput.same, hput.entry.trans ih.entry⟩
  refine hloop _ ?_ maxMsgs
  exact ⟨rfl, rfl, nodup_nil, rfl⟩

/-! ## The messages -/

/-- The first message leaves the list. -/
theorem Cells.unlinkHead (h : mq.Cells (c :: queue) free) :
    let mq1 := { mq with msgQueueHead := (mq.cell c).next }
    Rearranged mq (if mq1.msgQueueTail = some c then { mq1 with msgQueueTail := none } else mq1)
      queue free := by
  obtain ⟨-, hrest⟩ := h.messages
  have hnodup : c ∉ queue ∧ (queue ++ free).Nodup := by
    have hcons := nodup_cons.mp h.nodup
    exact ⟨fun hmem => hcons.1 (mem_append_left _ hmem), hcons.2⟩
  dsimp only
  split <;> refine ⟨⟨hrest, h.unused, hnodup.2, ?_⟩, .of_cell rfl rfl rfl rfl rfl, rfl⟩
  next hlast =>
    cases queue with
    | nil => rfl
    | cons d queue =>
      rw [h.tail, getLast?_cons_cons] at hlast
      exact absurd (List.mem_of_getLast? hlast) hnodup.1
  next hlast =>
    cases queue with
    | nil => exact absurd h.tail hlast
    | cons d queue => rw [← getLast?_cons_cons, ← h.tail]

/-- A receive takes the first message. -/
theorem Cells.unlinkFirst (h : mq.Cells queue free) (heq : mq.unlinkFirst = some (c, mq')) :
    ∃ rest, queue = c :: rest ∧ mq'.Cells rest free ∧ Relinked mq mq' ∧ mq'.entry = mq.entry - 1 := by
  obtain ⟨c', hc', heq⟩ := map_eq_some_iff.mp heq
  obtain ⟨rfl, rfl⟩ := Prod.mk.inj heq
  cases queue with
  | nil => exact absurd (Eq.trans (Eq.symm hc') h.messages) (by simp)
  | cons c queue =>
    obtain rfl : c = c' := mem_unique h.messages.1 hc'
    obtain ⟨hcells, hsame, hentry⟩ := h.unlinkHead
    refine ⟨queue, rfl, hcells.congr rfl rfl rfl rfl, hsame.trans (.of_cell rfl rfl rfl rfl rfl), ?_⟩
    rw [hentry]

/-- The reset puts every message to the free cells. -/
theorem Cells.releaseAll {steps : ℕ} (h : mq.Cells queue free) (hsteps : queue.length ≤ steps) :
    ∃ mq', mq.releaseAll steps = some mq' ∧ mq'.Cells [] (queue.reverse ++ free) ∧ Relinked mq mq' := by
  induction queue generalizing mq free steps with
  | nil =>
    have hhead : mq.msgQueueHead = none := h.messages
    refine ⟨mq, ?_, h, .refl mq⟩
    cases steps with
    | zero => exact if_pos hhead
    | succ steps => rw [MessageQueue.releaseAll, hhead]
  | cons c queue ih =>
    obtain ⟨steps, rfl⟩ : ∃ n, steps = n + 1 := ⟨steps - 1, by simp at hsteps; omega⟩
    obtain ⟨hcells, hsame, -⟩ := h.unlinkHead
    have hqueue : c ∉ queue ∧ c ∉ free := by
      have hno := (nodup_cons.mp h.nodup).1
      exact ⟨fun hmem => hno (mem_append_left _ hmem), fun hmem => hno (mem_append_right _ hmem)⟩
    obtain ⟨hput, hsame', -⟩ := hcells.putFree hqueue.1 hqueue.2
    obtain ⟨mq', heq, hcells', hsame''⟩ := ih hput (Nat.le_of_succ_le_succ hsteps)
    refine ⟨mq', ?_, ?_, (hsame.trans hsame').trans hsame''⟩
    · rw [MessageQueue.releaseAll, h.messages.1]
      exact heq
    · rw [reverse_cons, append_assoc]
      exact hcells'

/-- An urgent message becomes the first. -/
theorem Cells.linkFirst (h : mq.Cells queue free) (hqueue : c ∉ queue) (hfree : c ∉ free) :
    Rearranged mq (mq.linkFirst c) (c :: queue) free := by
  have hnext := next_setNext mq c mq.msgQueueHead
  have hsame := relinked_setNext mq c mq.msgQueueHead
  have hqueue' : Linked (mq.setNext c mq.msgQueueHead).next (some c) (c :: queue) none := by
    rw [hnext]
    refine ⟨rfl, ?_⟩
    rw [update_self]
    exact h.messages.update hqueue _
  have hfree' : Linked (mq.setNext c mq.msgQueueHead).next mq.msgQueueFree free none := by
    rw [hnext]
    exact h.unused.update hfree _
  have hnodup : (c :: queue ++ free).Nodup :=
    nodup_cons.mpr ⟨by simp [hqueue, hfree], h.nodup⟩
  unfold MessageQueue.linkFirst
  dsimp only
  split
  next htail =>
    have hnil : queue = [] := getLast?_eq_none_iff.mp (h.tail.symm.trans htail)
    subst hnil
    exact ⟨⟨hqueue', hfree', hnodup, rfl⟩, hsame.trans (.of_cell rfl rfl rfl rfl rfl), rfl⟩
  next htail =>
    refine ⟨⟨hqueue', hfree', hnodup, ?_⟩, hsame.trans (.of_cell rfl rfl rfl rfl rfl), rfl⟩
    cases queue with
    | nil => exact absurd h.tail htail
    | cons d queue => exact h.tail

/-- A message is linked behind the last one. -/
theorem Cells.linkLast (h : mq.Cells queue free) (hqueue : c ∉ queue) (hfree : c ∉ free)
    (hnext : mq.next c = none) : let mq1 := match mq.msgQueueTail with
      | some tail => mq.setNext tail (some c)
      | none => mq
    let mq2 := { mq1 with msgQueueTail := some c }
    let mq3 := if mq2.msgQueueHead = none then { mq2 with msgQueueHead := some c } else mq2
    Rearranged mq mq3 (queue ++ [c]) free := by
  have hnodup : (queue ++ [c] ++ free).Nodup := by
    rw [append_assoc, singleton_append, nodup_middle]
    exact nodup_cons.mpr ⟨by simp [hqueue, hfree], h.nodup⟩
  rcases eq_nil_or_concat' queue with rfl | ⟨rest, last, rfl⟩
  · have hhead : mq.msgQueueHead = none := h.messages
    have htail : mq.msgQueueTail = none := h.tail
    simp only [htail, hhead]
    exact ⟨⟨⟨rfl, hnext⟩, h.unused, hnodup, rfl⟩, .of_cell rfl rfl rfl rfl rfl, rfl⟩
  · have htail : mq.msgQueueTail = some last := by rw [h.tail, getLast?_concat]
    have hhead : ({ mq.setNext last (some c) with msgQueueTail := some c }).msgQueueHead ≠ none :=
      fun hnone => by simpa using h.messages.nil_iff.mp hnone
    have hlast : last ∉ free := h.not_mem_free (by simp)
    have hset := next_setNext mq last (some c)
    have hne : c ≠ last := fun hc => hqueue (by simp [hc])
    simp only [htail]
    rw [if_neg hhead]
    refine ⟨⟨?_, ?_, hnodup, by simp⟩, (relinked_setNext mq last (some c)).trans
      (.of_cell rfl rfl rfl rfl rfl), rfl⟩
    · change Linked (mq.setNext last (some c)).next mq.msgQueueHead _ none
      rw [hset]
      refine Linked.append_iff.mpr ⟨some c, ?_, rfl, ?_⟩
      · exact h.messages.redirect (nodup_append.mp h.nodup).1 _
      · rw [update_of_ne hne, hnext]
        rfl
    · change Linked (mq.setNext last (some c)).next mq.msgQueueFree _ none
      rw [hset]
      exact h.unused.update hlast _

/-- A cell is linked between two parts of the list of messages. -/
theorem Cells.linkBetween {front : List ℕ} {node : ℕ} {back : List ℕ}
    (h : mq.Cells (front ++ node :: back) free) (hqueue : c ∉ front ++ node :: back) (hfree : c ∉ free) :
    let mq1 := match front.getLast? with
      | none => { mq with msgQueueHead := some c }
      | some prev => mq.setNext prev (some c)
    Rearranged mq (mq1.setNext c (some node)) (front ++ c :: node :: back) free := by
  have hnodup : (front ++ c :: node :: back ++ free).Nodup := by
    rw [append_assoc, cons_append, nodup_middle, ← append_assoc]
    exact nodup_cons.mpr ⟨by simpa [hfree] using hqueue, h.nodup⟩
  have htail : mq.msgQueueTail = (front ++ c :: node :: back).getLast? := by
    rw [h.tail, getLast?_append, getLast?_append, getLast?_cons_cons]
  rcases eq_nil_or_concat' front with rfl | ⟨rest, prev, rfl⟩
  · have hset := next_setNext { mq with msgQueueHead := some c } c (some node)
    have hmq : Linked mq.next (some node) (node :: back) none := by
      have hhead : mq.msgQueueHead = some node := h.messages.1
      rw [← hhead]
      exact h.messages
    have hsame : Relinked mq { mq with msgQueueHead := some c } := .of_cell rfl rfl rfl rfl rfl
    rw [getLast?_nil]
    refine ⟨⟨?_, ?_, hnodup, htail⟩, hsame.trans (relinked_setNext _ c (some node)), rfl⟩
    · refine ⟨rfl, ?_⟩
      rw [hset, update_self]
      exact hmq.update hqueue _
    · rw [hset]
      exact h.unused.update hfree _
  · have hprev : prev ∉ free := h.not_mem_free (by simp)
    have hset := next_setNext (mq.setNext prev (some c)) c (some node)
    rw [next_setNext mq prev (some c)] at hset
    have hparts := (nodup_append.mp h.nodup).1
    have hback : prev ∉ node :: back := fun hmem =>
      (nodup_append.mp hparts).2.2 prev (by simp) prev hmem rfl
    have hcback : c ∉ node :: back := fun hmem => hqueue (mem_append_right _ hmem)
    have hcfront : c ∉ rest ++ [prev] := fun hmem => hqueue (mem_append_left _ hmem)
    obtain ⟨mid, hfront, hmid⟩ := Linked.append_iff.mp h.messages
    obtain rfl : mid = some node := hmid.1
    rw [getLast?_concat]
    refine ⟨⟨?_, ?_, hnodup, htail⟩, (relinked_setNext mq prev (some c)).trans
      (relinked_setNext _ c (some node)), rfl⟩
    · rw [hset]
      refine Linked.append_iff.mpr ⟨some c, ?_, rfl, ?_⟩
      · exact (hfront.redirect (nodup_append.mp hparts).1 _).update hcfront _
      · rw [update_self]
        exact (hmid.update hback _).update hcback _
    · rw [hset]
      exact (h.unused.update hprev _).update hfree _

/-- One round of the search for the place of a message. -/
theorem linkByPrio_succ (mq : MessageQueue) (c steps : ℕ) (prev : Option ℕ) (node : ℕ) :
    mq.linkByPrio c (steps + 1) prev (some node) = if (mq.cell node).prio < (mq.cell c).prio then
        (match prev with
          | none => { mq with msgQueueHead := some c }
          | some prev => mq.setNext prev (some c)).setNext c (some node)
      else if (mq.cell node).next = none then
        { (if node ≠ c then mq.setNext node (some c) else mq) with msgQueueTail := some c }
      else mq.linkByPrio c steps (some node) (mq.cell node).next := rfl

/-- The search for the place of a message by its priority. -/
theorem Cells.linkByPrio {front : List ℕ} {node : ℕ} {back : List ℕ} {steps : ℕ}
    (h : mq.Cells (front ++ node :: back) free) (hqueue : c ∉ front ++ node :: back)
    (hfree : c ∉ free) (hnext : mq.next c = none) (hsteps : back.length < steps) :
    Rearranged mq (mq.linkByPrio c steps front.getLast? (some node))
      (front ++ insertBy (fun x => -(mq.cell x).prio) c (node :: back)) free := by
  -- On the rounds; the messages in front of `node` are at least as high as the new one.
  induction steps generalizing front node back with
  | zero => cases hsteps
  | succ steps ih =>
    simp only [linkByPrio_succ, insertBy, Int.neg_lt_neg_iff]
    by_cases hprio : (mq.cell node).prio < (mq.cell c).prio
    · rw [if_pos hprio, if_pos hprio]
      exact h.linkBetween hqueue hfree
    rw [if_neg hprio, if_neg hprio]
    cases back with
    | nil =>
      have hlast : (mq.cell node).next = none := h.messages.next_last
      have hne : node ≠ c := fun hc => hqueue (by simp [hc])
      have htail : mq.msgQueueTail = some node := by rw [h.tail, getLast?_concat]
      have hhead : ({ mq.setNext node (some c) with msgQueueTail := some c }).msgQueueHead ≠ none :=
        fun hnone => by simpa using h.messages.nil_iff.mp hnone
      have hlink := h.linkLast hqueue hfree hnext
      simp only [htail] at hlink
      rw [if_neg hhead, append_assoc] at hlink
      rw [if_pos hlast, if_pos hne]
      exact hlink
    | cons node' back =>
      obtain ⟨-, -, -, hmore, -⟩ := Linked.append_iff.mp h.messages
      have hnode : (mq.cell node).next = some node' := hmore
      have hsplit : front ++ node :: node' :: back = (front ++ [node]) ++ node' :: back := by simp
      rw [hsplit] at h hqueue
      have hrest := ih h hqueue (Nat.lt_of_succ_lt_succ hsteps)
      rw [getLast?_concat, append_assoc] at hrest
      rw [hnode]
      exact hrest

/-! ## Sends -/

/-- One cell has got a new content; the contents of the others and the parameters stay. -/
structure Written (mq mq' : MessageQueue) (c : ℕ) (content : MqContent) : Prop where
  self : (mq'.cell c).content = content
  other : ∀ c' ≠ c, (mq'.cell c').content = (mq.cell c').content
  usingPriority : mq'.usingPriority = mq.usingPriority
  msgSize : mq'.msgSize = mq.msgSize
  maxMsgs : mq'.maxMsgs = mq.maxMsgs
  flag : mq'.flag = mq.flag

/-- The cell is linked after it has been written. -/
theorem Written.relinked {content : MqContent} (h : Written mq mq' c content)
    (h' : Relinked mq' mq'') : Written mq mq'' c content :=
  ⟨(h'.content c).trans h.self, fun c' hc => (h'.content c').trans (h.other c' hc),
    h'.usingPriority.trans h.usingPriority, h'.msgSize.trans h.msgSize, h'.maxMsgs.trans h.maxMsgs,
    h'.flag.trans h.flag⟩

/-- A cell that is written after a change of pointers. -/
theorem Relinked.written {bytes : List ℕ} {prio : ℤ} (h : Relinked mq mq') (h' : Written mq' mq'' c
      ⟨bytes.length, if mq'.usingPriority then prio else (mq'.cell c).prio, bytes⟩) :
    Written mq mq'' c ⟨bytes.length, if mq.usingPriority then prio else (mq.cell c).prio, bytes⟩ := by
  have hprio : (mq'.cell c).prio = (mq.cell c).prio := congrArg MqContent.prio (h.content c)
  refine ⟨?_, fun c' hc => (h'.other c' hc).trans (h.content c'),
    h'.usingPriority.trans h.usingPriority, h'.msgSize.trans h.msgSize, h'.maxMsgs.trans h.maxMsgs,
    h'.flag.trans h.flag⟩
  rw [h'.self, h.usingPriority, hprio]

/-- The pointers change only at the cell that is written. -/
theorem next_setCell_content {message : MqMessage} (h : message.next = (mq.cell c).next) :
    (mq.setCell c message).next = mq.next := by
  funext c'
  by_cases hc : c' = c <;> simp [next, setCell, hc, h]

/-- The copy of a message into its cell. -/
theorem written_fill (mq : MessageQueue) (c : ℕ) (bytes : List ℕ) :
    Written mq (mq.fill c bytes) c ⟨bytes.length, (mq.cell c).prio, bytes⟩ := by
  refine ⟨?_, fun c' hc => ?_, rfl, rfl, rfl, rfl⟩
  · simp [fill, setCell, MqMessage.content]
  · simp [fill, setCell, hc]

/-- The place of a linked message: by its priority, or behind the last one. -/
def place (mq : MessageQueue) (c : ℕ) (queue : List ℕ) : List ℕ :=
  if mq.usingPriority then insertBy (fun x => -(mq.cell x).prio) c queue else queue ++ [c]

/-- The message is added. -/
theorem place_perm (mq : MessageQueue) (c : ℕ) (queue : List ℕ) :
    (mq.place c queue).Perm (c :: queue) := by
  unfold place
  split
  · exact insertBy_perm _ c queue
  · exact perm_append_singleton c queue

/-- The place depends on the contents only. -/
theorem Relinked.place_eq (h : Relinked mq mq') (c : ℕ) (queue : List ℕ) :
    mq'.place c queue = mq.place c queue := by
  have hprio : ∀ x, (mq'.cell x).prio = (mq.cell x).prio := fun x =>
    congrArg MqContent.prio (h.content x)
  unfold place
  rw [h.usingPriority]
  simp only [hprio]

/-- The link of a message whose cell is in no list. -/
theorem Cells.link (h : mq.Cells queue free) (hqueue : c ∉ queue) (hfree : c ∉ free)
    (hnext : mq.next c = none) (hlength : queue.length ≤ mq.maxMsgs) (prio : ℤ) :
    (mq.link c prio).Cells ((mq.link c prio).place c queue) free ∧ Written mq (mq.link c prio) c
        { (mq.cell c).content with prio := if mq.usingPriority then prio else (mq.cell c).prio } ∧
      (mq.link c prio).entry = mq.entry := by
  by_cases hmode : mq.usingPriority = true
  · have hset : Written mq (mq.setCell c { mq.cell c with prio := prio }) c
        { (mq.cell c).content with prio := if mq.usingPriority then prio else (mq.cell c).prio } := by
      refine ⟨?_, fun c' hc => ?_, rfl, rfl, rfl, rfl⟩
      · simp [setCell, MqMessage.content, hmode]
      · simp [setCell, hc]
    have hpointers : (mq.setCell c { mq.cell c with prio := prio }).next = mq.next :=
      next_setCell_content rfl
    have hcells : (mq.setCell c { mq.cell c with prio := prio }).Cells queue free :=
      h.congr hpointers rfl rfl rfl
    have hnext' : (mq.setCell c { mq.cell c with prio := prio }).next c = none :=
      (congrFun hpointers c).trans hnext
    have hentry : (mq.setCell c { mq.cell c with prio := prio }).entry = mq.entry := rfl
    have hlength' : queue.length ≤ (mq.setCell c { mq.cell c with prio := prio }).maxMsgs := hlength
    have hmode' : (mq.setCell c { mq.cell c with prio := prio }).usingPriority = true := hmode
    unfold MessageQueue.link
    rw [if_pos hmode]
    dsimp only
    generalize mq.setCell c { mq.cell c with prio := prio } = mq1 at *
    cases queue with
    | nil =>
      have hhead : mq1.msgQueueHead = none := hcells.messages
      have hself : ((mq1.cell c).next) = none := hnext'
      simp only [hhead, if_true]
      rw [linkByPrio_succ, if_neg (lt_irrefl _), if_pos hself, if_neg (by simp)]
      refine ⟨⟨?_, hcells.unused, ?_, ?_⟩, hset.relinked (.of_cell rfl rfl rfl rfl rfl), hentry⟩
      · simp only [hmode', if_true]
        exact ⟨rfl, hself⟩
      · simp only [hmode', if_true]
        exact nodup_cons.mpr ⟨hfree, hcells.nodup⟩
      · simp [place, insertBy]
    | cons node back =>
      have hhead : mq1.msgQueueHead = some node := hcells.messages.1
      have hsteps : back.length < mq1.maxMsgs + 1 := by
        simp at hlength'
        omega
      have hlink := Cells.linkByPrio (show mq1.Cells ([] ++ node :: back) free from hcells) hqueue
        hfree hnext' hsteps
      rw [getLast?_nil] at hlink
      rw [if_neg (by simp [hhead]), hhead]
      obtain ⟨hcells', hsame, hentry'⟩ := hlink
      refine ⟨?_, hset.relinked hsame, hentry'.trans hentry⟩
      rw [hsame.place_eq]
      simpa [place, hmode'] using hcells'
  · have hmode' : mq.usingPriority = false := Bool.eq_false_of_not_eq_true hmode
    have hwritten : Written mq mq c
        { (mq.cell c).content with prio := if mq.usingPriority then prio else (mq.cell c).prio } := by
      refine ⟨?_, fun _ _ => rfl, rfl, rfl, rfl, rfl⟩
      simp [hmode', MqMessage.content]
    obtain ⟨mq1, heq, hcells, hsame, hentry⟩ : ∃ mq1, mq.link c prio = mq1 ∧
        Rearranged mq mq1 (queue ++ [c]) free :=
      ⟨_, if_neg hmode, h.linkLast hqueue hfree hnext⟩
    rw [heq]
    refine ⟨?_, hwritten.relinked hsame, hentry⟩
    rw [hsame.place_eq]
    simpa [place, hmode'] using hcells

/-- The second section of a send, on a cell that is in no list. -/
theorem Cells.sendLink (h : mq.Cells queue free) (bytes : List ℕ) (prio : ℤ) (hqueue : c ∉ queue)
    (hfree : c ∉ free) (hlength : queue.length ≤ mq.maxMsgs) :
    let mq' := ((mq.setNext c none).fill c bytes).link c prio
    mq'.Cells (mq'.place c queue) free ∧ mq'.entry = mq.entry ∧ Written mq mq' c
        ⟨bytes.length, if mq.usingPriority then prio else (mq.cell c).prio, bytes⟩ := by
  have hnext : ((mq.setNext c none).fill c bytes).next = Function.update mq.next c none := by
    rw [← next_setNext]
    exact next_setCell_content rfl
  have hcells : ((mq.setNext c none).fill c bytes).Cells queue free := by
    refine ⟨?_, ?_, h.nodup, h.tail⟩
    · rw [hnext]
      exact h.messages.update hqueue _
    · rw [hnext]
      exact h.unused.update hfree _
  obtain ⟨hlink, hwritten, hentry⟩ := hcells.link hqueue hfree
    (by rw [hnext, update_self]) hlength prio
  refine ⟨hlink, hentry, ?_⟩
  have hfill := written_fill (mq.setNext c none) c bytes
  have hset := relinked_setNext mq c none
  refine { hwritten with self := ?_, other := fun c' hc => ?_ }
  · rw [hwritten.self, hfill.self]
    have hprio : ((mq.setNext c none).cell c).prio = (mq.cell c).prio :=
      congrArg MqContent.prio (hset.content c)
    have hprio' : (((mq.setNext c none).fill c bytes).cell c).prio = (mq.cell c).prio :=
      (congrArg MqContent.prio hfill.self).trans hprio
    rw [hprio']
    rfl
  · rw [hwritten.other c' hc, hfill.other c' hc, hset.content]

/-- The second section of an urgent send, on a cell that is in no list; the priority of the cell is
left as it was. -/
theorem Cells.urgentLink (h : mq.Cells queue free) (bytes : List ℕ) (hqueue : c ∉ queue)
    (hfree : c ∉ free) : ((mq.fill c bytes).linkFirst c).Cells (c :: queue) free ∧
      ((mq.fill c bytes).linkFirst c).entry = mq.entry ∧
      Written mq ((mq.fill c bytes).linkFirst c) c ⟨bytes.length, (mq.cell c).prio, bytes⟩ := by
  have hcells : (mq.fill c bytes).Cells queue free :=
    h.congr (next_setCell_content rfl) rfl rfl rfl
  obtain ⟨hlink, hsame, hentry⟩ := hcells.linkFirst hqueue hfree
  exact ⟨hlink, hentry, (written_fill mq c bytes).relinked hsame⟩

end MessageQueue

end RtThread.Kernel
