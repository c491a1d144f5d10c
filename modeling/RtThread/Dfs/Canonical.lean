import RtThread.Dfs.Normalize
import RtThread.Lib.PathNames
import Mathlib.Data.List.Induction

/-!
# Normalised paths are canonical

At the start of each iteration the part of the buffer before `dst` is the path of the components kept
so far, with a slash in the end, and the part from `src` on is what is left of the input: a write
never reaches a character that is still to be read. One iteration resolves one component.
-/

namespace RtThread.Dfs

open Lib.PathNames List Nat

/-- What the pass has written and what it has not read yet; the write cursor does not pass the read
cursor. -/
structure At (p : Pass) (written rest : List Char) : Prop where
  written : p.buf.take p.dst = written
  rest : p.buf.drop p.src = rest ++ [nul]
  order : p.dst ≤ p.src

variable {b comp directory filename path t u v w : List Char} {d : ℕ} {p : Pass} {stack : List (List Char)}

/-- The characters that the pass treats apart are not NUL. -/
@[simp]
theorem dot_slash_ne_nul : '.' ≠ nul ∧ '/' ≠ nul := by decide

/-- The read cursor stays in the buffer. -/
theorem At.src_lt (h : At p w u) : p.src < p.buf.length := by
  by_contra hout
  have hnil := drop_eq_nil_of_le (show p.buf.length ≤ p.src by omega)
  rw [h.rest] at hnil
  simp at hnil

/-- The write cursor stands after what is written. -/
theorem At.dst_eq (h : At p w u) : p.dst = w.length := by
  have hlt := h.src_lt
  have horder := h.order
  rw [← h.written, length_take]
  omega

/-- Characters ahead come from the part not read yet. -/
theorem At.ahead (h : At p w u) (k : ℕ) : p.ahead k = (u ++ [nul]).getD k nul := by
  rw [← h.rest]
  simp [Pass.ahead]

/-- Reading on without writing. -/
theorem At.read (h : At p w (u ++ v)) {n : ℕ} (hn : n = u.length) :
    At { p with src := p.src + n } w v := by
  refine ⟨h.written, ?_, le_trans h.order (le_add_right _ _)⟩
  rw [← drop_drop, h.rest, hn, append_assoc, drop_left]

/-- Writing one character behind the read cursor. -/
theorem At.write (h : At p w u) (hlt : p.dst < p.src) (c : Char) :
    At ⟨p.buf.set p.dst c, p.src, p.dst + 1⟩ (w ++ [c]) u := by
  have hsrc := h.src_lt
  refine ⟨?_, ?_, hlt⟩
  · have hdst := h.dst_eq
    have hend : p.buf.take (p.dst + 1) = w ++ [p.buf.get ⟨p.dst, by omega⟩] := by
      rw [take_succ_eq_append_getElem (by omega), h.written]
      rfl
    have hzero : p.dst - w.length = 0 := by omega
    rw [take_set, hend, set_append_right _ _ (by omega), hzero]
    rfl
  · rw [← h.rest]
    exact drop_set_of_lt hlt

/-- Skipping slashes reads the slashes. -/
theorem At.skipSlashes (h : At p w u) : At p.skipSlashes w (u.dropWhile fun c => decide (c = '/')) := by
  induction u generalizing p with
  | nil =>
    rw [Pass.skipSlashes, if_neg (by rw [h.ahead]; decide)]
    exact h
  | cons c u ih =>
    by_cases hc : c = '/'
    · subst hc
      have hread : At { p with src := p.src + 1 } w u := At.read (u := ['/']) h rfl
      rw [Pass.skipSlashes, if_pos (by rw [h.ahead]; rfl)]
      exact ih hread
    · rw [Pass.skipSlashes, if_neg (by rw [h.ahead]; exact hc), dropWhile_cons_of_neg (by simpa using hc)]
      exact h

/-- The copy loop copies a component and stops at the slash or NUL after it. -/
theorem At.copyLoop {tail : List Char} (h : At p w (comp ++ tail))
    (hcomp : ∀ c ∈ comp, c ≠ '/' ∧ c ≠ nul) (htail : tail = [] ∨ ∃ t, tail = '/' :: t) :
    ∃ q, p.copyLoop = ((tail ++ [nul]).headD nul, { q with src := q.src + 1 }) ∧
      At q (w ++ comp) tail := by
  induction comp generalizing p w with
  | nil =>
    have hstop : p.ahead 0 = (tail ++ [nul]).headD nul := by
      rw [h.ahead]
      cases tail <;> rfl
    refine ⟨p, ?_, by simpa using h⟩
    rw [Pass.copyLoop, dif_neg, hstop]
    rw [hstop]
    rcases htail with rfl | ⟨t, rfl⟩
    · exact fun hne => hne.1 rfl
    · exact fun hne => hne.2 rfl
  | cons c comp ih =>
    have hc := hcomp c mem_cons_self
    have hahead : p.ahead 0 = c := h.ahead 0
    have horder := h.order
    have hread : At { p with src := p.src + 1 } w (comp ++ tail) := At.read (u := [c]) h rfl
    have hwrite := hread.write (lt_succ_of_le horder) c
    obtain ⟨q, hq, hat⟩ := ih hwrite fun d hd => hcomp d (mem_cons_of_mem c hd)
    refine ⟨q, ?_, by simpa using hat⟩
    rw [Pass.copyLoop, dif_pos (by rw [hahead]; exact ⟨hc.2, hc.1⟩), hahead]
    exact hq

/-- The copy of a last component ends the pass. -/
theorem At.copyPart_last (h : At p w comp) (hcomp : ∀ c ∈ comp, c ≠ '/' ∧ c ≠ nul) :
    ∃ q, p.copyPart = .done q ∧ q.buf.take q.dst = w ++ comp ∧ q.dst < q.buf.length := by
  have hall : At p w (comp ++ []) := by rwa [append_nil]
  obtain ⟨q, hloop, hat⟩ := hall.copyLoop hcomp (.inl rfl)
  refine ⟨{ q with src := q.src + 1 }, ?_, hat.written, lt_of_le_of_lt hat.order hat.src_lt⟩
  rw [Pass.copyPart, hloop]
  rfl

/-- The copy of a component before a slash writes it with the slash and erases further slashes. -/
theorem At.copyPart_next (h : At p w (comp ++ '/' :: t)) (hcomp : ∀ c ∈ comp, c ≠ '/' ∧ c ≠ nul) :
    ∃ q, p.copyPart = .next q ∧ At q (w ++ comp ++ ['/']) (t.dropWhile fun c => decide (c = '/')) := by
  obtain ⟨q, hloop, hat⟩ := h.copyLoop hcomp (.inr ⟨t, rfl⟩)
  have hread : At { q with src := q.src + 1 } (w ++ comp) t := At.read (u := ['/']) hat rfl
  refine ⟨_, ?_, (hread.write (lt_succ_of_le hat.order) '/').skipSlashes⟩
  rw [Pass.copyPart, hloop]
  rfl

/-- The last character of a written part, and the part before it. -/
theorem take_concat {c : Char} (h : b.take d = v ++ [c])
    (hd : d = v.length + 1) : b.getD v.length nul = c ∧ b.take v.length = v := by
  constructor
  · have hget : (b.take d)[v.length]? = some c := by rw [h]; simp
    rw [getElem?_take_of_lt (by omega)] at hget
    simp [hget]
  · have htake : (b.take d).take v.length = v := by rw [h]; simp
    rwa [take_take, min_eq_left (by omega)] at htake

/-- Going back stops after the last slash before a component. -/
theorem backtrack_eq (comp : List Char) (hcomp : '/' ∉ comp)
    (h : b.take d = w ++ ['/'] ++ comp) (hd : d = (w ++ ['/'] ++ comp).length) :
    backtrack b d = (w ++ ['/']).length := by
  induction comp using List.reverseRecOn generalizing d with
  | nil =>
    rw [append_nil] at h hd
    have hslash := (take_concat h (by simpa using hd)).1
    have hd' : d = w.length + 1 := by simpa using hd
    subst hd'
    rw [backtrack, if_neg (by simpa using hslash)]
    simp
  | append_singleton comp c ih =>
    rw [← append_assoc] at h hd
    have hlen : d = (w ++ ['/'] ++ comp).length + 1 := by
      rw [hd, length_append]
      rfl
    obtain ⟨hlast, hbefore⟩ := take_concat h hlen
    have hc : c ≠ '/' := fun heq => hcomp (by simp [heq])
    rw [hlen, backtrack, if_pos (by rwa [hlast])]
    exact ih (fun hmem => hcomp (mem_append_left _ hmem)) hbefore rfl

/-- What is written at the start of a component ends with a slash. -/
theorem render_eq_concat (stack : List (List Char)) : ∃ w, render '/' stack = w ++ ['/'] := by
  cases stack with
  | nil => exact ⟨[], rfl⟩
  | cons c stack => exact ⟨_, rfl⟩

/-- `up_one` removes the last component, and nothing at the root. -/
theorem At.upOne (h : At p (render '/' stack) u) (hnames : ∀ d ∈ stack, IsName '/' '.' d) :
    ∃ q, p.upOne = .next q ∧ At q (render '/' stack.tail) u := by
  have hdst := h.dst_eq
  have horder := h.order
  cases stack with
  | nil =>
    have hone : p.dst = 1 := hdst
    have hroot : p.buf.getD 0 nul = '/' := (take_concat (v := []) h.written hone).1
    have hback : backtrack p.buf p.dst = 1 := by
      rw [hone, backtrack, if_neg (by simpa using hroot)]
    refine ⟨{ p with dst := 1 }, ?_, ?_⟩
    · rw [Pass.upOne, if_neg (by rw [hone]; simpa using hroot), hback]
    · rw [← hone]
      exact h
  | cons c stack =>
    obtain ⟨w, hw⟩ := render_eq_concat stack
    have hlen : p.dst = (render '/' stack ++ c).length + 1 := by
      rw [hdst, render, length_append]
      rfl
    have hbefore := (take_concat h.written hlen).2
    have hslash := (hnames c mem_cons_self).2.2.2
    have hback : backtrack p.buf (p.dst - 1) = (render '/' stack).length := by
      rw [hw] at hbefore hlen ⊢
      exact backtrack_eq c hslash (by rw [hlen]; exact hbefore) (by rw [hlen]; rfl)
    refine ⟨{ p with dst := (render '/' stack).length }, ?_, ?_, h.rest, ?_⟩
    · have hname : c ≠ [] := (hnames c mem_cons_self).1
      have hmany : p.dst ≠ 1 := by
        have := length_pos_of_ne_nil hname
        rw [hlen, length_append]
        omega
      rw [Pass.upOne, if_pos (.inl hmany), if_neg (by omega), hback]
    · have hfront : (p.buf.take (render '/' stack ++ c).length).take (render '/' stack).length
          = render '/' stack := by rw [hbefore]; simp
      rwa [take_take, min_eq_left (by simp)] at hfront
    · simp only [length_append] at hlen
      simp only
      omega

/-- A component that is a name is copied. -/
theorem At.step_name {tail : List Char} (h : At p w (comp ++ tail))
    (hname : IsName '/' '.' comp) (hnul : nul ∉ comp) : p.step = p.copyPart := by
  obtain ⟨hne, hdot, hup, hslash⟩ := hname
  unfold Pass.step
  rw [h.ahead, h.ahead, h.ahead]
  cases comp with
  | nil => exact absurd rfl hne
  | cons c comp =>
    by_cases hc : c = '.'
    swap
    · exact if_neg hc
    cases comp with
    | nil => exact absurd (by rw [hc]) hdot
    | cons d comp =>
      have hd : d ≠ '/' ∧ d ≠ nul := by simp_all [ne_comm]
      have h2 : d = '.' → ((c :: d :: comp ++ tail) ++ [nul]).getD 2 nul ≠ nul ∧
          ((c :: d :: comp ++ tail) ++ [nul]).getD 2 nul ≠ '/' := by
        intro hdot2
        cases comp with
        | nil => exact absurd (by rw [hc, hdot2]) hup
        | cons e comp => simp_all [ne_comm]
      exact (if_pos hc).trans ((if_neg hd.2).trans ((if_neg hd.1).trans
        ((if_neg fun h => (h2 h.1).1 h.2).trans (if_neg fun h => (h2 h.1).2 h.2))))

/-- What the pass ends with: the path of the components, or that path and a slash. -/
def Ends (q : Pass) (stack : List (List Char)) : Prop :=
  (q.buf.take q.dst = canonical '/' stack ∨ q.buf.take q.dst = render '/' stack) ∧
    q.dst < q.buf.length

/-- The part not read yet starts a component, and it holds no NUL. -/
def Fresh (u : List Char) : Prop := nul ∉ u ∧ u.head? ≠ some '/'

/-- The part after skipped slashes starts a component. -/
theorem fresh_dropWhile (hnul : nul ∉ t) : Fresh (t.dropWhile fun c => decide (c = '/')) := by
  refine ⟨fun hmem => hnul ((dropWhile_suffix _).subset hmem), fun hhead => ?_⟩
  have hnot := head?_dropWhile_not (fun c => decide (c = '/')) t
  rw [hhead] at hnot
  simp at hnot

/-- The last component of a path is resolved by the end of the pass, or leaves nothing to read. -/
theorem At.step_last (h : At p (render '/' stack) comp) (hnames : ∀ d ∈ stack, IsName '/' '.' d)
    (hnul : nul ∉ comp) (hslash : '/' ∉ comp) : (∃ q, p.step = .done q ∧ Ends q (resolve '.' stack comp)) ∨
      ∃ q, p.step = .next q ∧ At q (render '/' (resolve '.' stack comp)) [] ∧ comp ≠ [] := by
  by_cases hempty : comp = []
  · subst hempty
    have hstep : p.step = p.copyPart := if_neg (by rw [h.ahead]; decide)
    obtain ⟨q, hcopy, htake, hlt⟩ := h.copyPart_last fun _ hc => absurd hc not_mem_nil
    exact .inl ⟨q, hstep.trans hcopy, .inr (by simpa using htake), hlt⟩
  by_cases hdot : comp = ['.']
  · subst hdot
    have hstep : p.step = Pass.copyPart { p with src := p.src + 1 } := by simp [Pass.step, h.ahead]
    have hread : At { p with src := p.src + 1 } (render '/' stack) [] := At.read (u := ['.']) h rfl
    obtain ⟨q, hcopy, htake, hlt⟩ := hread.copyPart_last fun _ hc => absurd hc not_mem_nil
    exact .inl ⟨q, hstep.trans hcopy, .inr (by simpa using htake), hlt⟩
  by_cases hup : comp = ['.', '.']
  · subst hup
    have hstep : p.step = Pass.upOne { p with src := p.src + 2 } := by simp [Pass.step, h.ahead]
    have hread : At { p with src := p.src + 2 } (render '/' stack) [] :=
      At.read (u := ['.', '.']) h rfl
    obtain ⟨q, hnext, hat⟩ := hread.upOne hnames
    exact .inr ⟨q, hstep.trans hnext, by simpa using hat, hempty⟩
  · have hname : IsName '/' '.' comp := ⟨hempty, hdot, hup, hslash⟩
    have hall : At p (render '/' stack) (comp ++ []) := by rwa [append_nil]
    obtain ⟨q, hcopy, htake, hlt⟩ := h.copyPart_last fun c hc =>
      ⟨ne_of_mem_of_not_mem hc hslash, ne_of_mem_of_not_mem hc hnul⟩
    refine .inl ⟨q, (hall.step_name hname hnul).trans hcopy, .inl ?_, hlt⟩
    rw [htake, resolve_name stack hname, canonical_cons]

/-- A component before a slash is resolved by one iteration, which skips the slashes. -/
theorem At.step_next
    (h : At p (render '/' stack) (comp ++ '/' :: t)) (hnames : ∀ d ∈ stack, IsName '/' '.' d)
    (hnul : nul ∉ comp) (hslash : '/' ∉ comp) (hempty : comp ≠ []) : ∃ q, p.step = .next q ∧
      At q (render '/' (resolve '.' stack comp)) (t.dropWhile fun c => decide (c = '/')) := by
  by_cases hdot : comp = ['.']
  · subst hdot
    have hread : At { p with src := p.src + 2 } (render '/' stack) t :=
      At.read (u := ['.', '/']) h rfl
    refine ⟨_, ?_, by simpa using hread.skipSlashes⟩
    simp [Pass.step, h.ahead]
  by_cases hup : comp = ['.', '.']
  · subst hup
    have hread : At { p with src := p.src + 3 } (render '/' stack) t :=
      At.read (u := ['.', '.', '/']) h rfl
    obtain ⟨q, hnext, hat⟩ := hread.skipSlashes.upOne hnames
    exact ⟨q, by simpa [Pass.step, h.ahead] using hnext, by simpa using hat⟩
  · have hname : IsName '/' '.' comp := ⟨hempty, hdot, hup, hslash⟩
    obtain ⟨q, hcopy, hat⟩ := h.copyPart_next fun c hc =>
      ⟨ne_of_mem_of_not_mem hc hslash, ne_of_mem_of_not_mem hc hnul⟩
    refine ⟨q, (h.step_name hname hnul).trans hcopy, ?_⟩
    rw [resolve_name stack hname]
    exact hat

/-- One iteration resolves the next component. -/
theorem At.step
    (h : At p (render '/' stack) u) (hnames : ∀ d ∈ stack, IsName '/' '.' d) (hfresh : Fresh u) :
    (∃ q, p.step = .done q ∧ Ends q (resolveAll '/' '.' stack u)) ∨
    ∃ q stack' u', p.step = .next q ∧ At q (render '/' stack') u' ∧ u'.length < u.length ∧
      (∀ d ∈ stack', IsName '/' '.' d) ∧ Fresh u' ∧
      resolveAll '/' '.' stack' u' = resolveAll '/' '.' stack u := by
  induction u using path_induction '/' with
  | last comp hslash =>
    rw [resolveAll_of_notMem stack hslash]
    have hnames' := resolve_forall hslash id hnames
    refine (h.step_last hnames hfresh.1 hslash).imp_right fun ⟨q, hstep, hat, hne⟩ => ?_
    refine ⟨q, _, [], hstep, hat, length_pos_of_ne_nil hne, hnames', by simp [Fresh], ?_⟩
    rw [resolveAll_of_notMem _ not_mem_nil, resolve_nil]
  | next comp t hslash _ =>
    have hempty : comp ≠ [] := fun hnil => hfresh.2 (by simp [hnil])
    have hnul := hfresh.1
    rw [mem_append, mem_cons, not_or, not_or] at hnul
    obtain ⟨q, hstep, hat⟩ := h.step_next hnames hnul.1 hslash hempty
    refine .inr ⟨q, _, _, hstep, hat, ?_, resolve_forall hslash id hnames, fresh_dropWhile hnul.2.2, ?_⟩
    · have hle := (dropWhile_suffix (l := t) fun c => decide (c = '/')).length_le
      rw [length_append, length_cons]
      omega
    · rw [resolveAll_dropWhile, resolveAll_append_cons stack t hslash]

/-- The pass ends with the components of the path resolved. -/
theorem At.scan (h : At p (render '/' stack) u) (hnames : ∀ d ∈ stack, IsName '/' '.' d) (hfresh : Fresh u)
    {fuel : ℕ} (hfuel : u.length < fuel) :
    ∃ q, p.scan fuel = some q ∧ Ends q (resolveAll '/' '.' stack u) := by
  induction fuel generalizing p stack u with
  | zero => omega
  | succ fuel ih =>
    rcases h.step hnames hfresh with ⟨q, hstep, hends⟩ | ⟨q, stack', u', hstep, hat, hlt, hnames',
      hfresh', hsame⟩
    · exact ⟨q, by rw [Pass.scan, hstep], hends⟩
    · obtain ⟨r, hscan, hends⟩ := ih hat hnames' hfresh' (by omega)
      exact ⟨r, by rw [Pass.scan, hstep]; exact hscan, hsame ▸ hends⟩

/-- Ending the buffer at a place leaves the string before it. -/
theorem cString_set {x : List Char} (htake : b.take d = x) (hlt : d < b.length)
    (hnul : nul ∉ x) : cString (b.set d nul) = x := by
  have hall : ∀ c ∈ x, decide (c ≠ nul) = true := fun c hc => by
    simpa using ne_of_mem_of_not_mem hc hnul
  rw [cString, set_eq_take_append_cons_drop, if_pos hlt, htake, takeWhile_append_of_pos hall]
  simp

/-- A string that is not empty does not start with NUL. -/
theorem getD_zero_ne_nul (h : cString b ≠ []) : b.getD 0 nul ≠ nul := by
  cases b with
  | nil => exact absurd rfl h
  | cons c b =>
    intro hc
    exact h (takeWhile_cons_of_neg (by simpa using hc))

/-- The end of the function removes a slash in the end unless it is the whole path. -/
theorem finish_eq {q : Pass} {c : Char} (htake : q.buf.take q.dst = v ++ [c])
    (hlt : q.dst < q.buf.length) (hnul : nul ∉ v ++ [c]) :
    q.finish = if v ≠ [] ∧ c = '/' then v else v ++ [c] := by
  have hlen : q.dst = v.length + 1 := by
    have hcount := congrArg List.length htake
    rw [length_take, length_append] at hcount
    simp only [length_singleton] at hcount
    omega
  obtain ⟨hlast, hbefore⟩ := take_concat htake hlen
  have hget : (q.buf.set q.dst nul).getD (q.dst - 1) nul = c := by
    rw [getD_eq_getElem?_getD, getElem?_set_ne (by omega), ← hlast, hlen]
    rfl
  have hpos : q.dst - 1 > 0 ↔ v ≠ [] := by
    rw [hlen, ← length_pos_iff]
    rfl
  have hkeep : ∀ b : List Char, cString b ≠ [] →
      cString (if b.getD 0 nul = nul then (b.set 0 '/').set 1 nul else b) = cString b :=
    fun b hb => by rw [if_neg (getD_zero_ne_nul hb)]
  simp only [Pass.finish, hget, hpos]
  by_cases hslash : v ≠ [] ∧ c = '/'
  · have hcut : cString ((q.buf.set q.dst nul).set (q.dst - 1) nul) = v := by
      refine cString_set ?_ (by rw [length_set]; omega) fun hmem => hnul (mem_append_left _ hmem)
      rw [take_set_of_le (by omega), hlen]
      exact hbefore
    rw [if_pos hslash, if_pos hslash, hkeep _ (by rw [hcut]; exact hslash.1), hcut]
  · have hwhole : cString (q.buf.set q.dst nul) = v ++ [c] := cString_set htake hlt hnul
    rw [if_neg hslash, if_neg hslash, hkeep _ (by rw [hwhole]; simp), hwhole]

/-- What is written holds no NUL. -/
theorem nul_notMem_render (hnul : ∀ d ∈ stack, nul ∉ d) : nul ∉ render '/' stack := by
  induction stack with
  | nil => decide
  | cons c stack ih =>
    have hrest := ih fun d hd => hnul d (mem_cons_of_mem c hd)
    have hc := hnul c mem_cons_self
    simp only [render, mem_append, not_or]
    exact ⟨⟨hrest, hc⟩, by decide⟩

/-- The end of the function leaves the path of the components. -/
theorem Ends.finish {q : Pass} (h : Ends q stack)
    (hnames : ∀ d ∈ stack, IsName '/' '.' d) (hnul : ∀ d ∈ stack, nul ∉ d) :
    q.finish = canonical '/' stack := by
  obtain ⟨htake, hlt⟩ := h
  have hrender := nul_notMem_render hnul
  cases stack with
  | nil =>
    have hroot : q.buf.take q.dst = [] ++ ['/'] := htake.elim id id
    rw [finish_eq hroot hlt (by decide)]
    rfl
  | cons c stack =>
    obtain ⟨hne, -, -, hslash⟩ := hnames c mem_cons_self
    rw [canonical_cons] at htake ⊢
    rcases htake with hpath | hmore
    · obtain ⟨v, x, hlast⟩ := (eq_nil_or_concat' c).resolve_left hne
      have hx : x ≠ '/' := fun heq => hslash (by simp [hlast, heq])
      rw [hlast, ← append_assoc] at hpath ⊢
      rw [finish_eq hpath hlt, if_neg fun h => hx h.2]
      rw [← hpath]
      intro hmem
      rw [hpath, append_assoc, ← hlast] at hmem
      exact hrender (mem_append_left _ hmem)
    · obtain ⟨w, hw⟩ := render_eq_concat stack
      rw [finish_eq hmore hlt hrender, if_pos ⟨by simp [hw], rfl⟩]

/-- The components of a path without NUL hold none. -/
theorem nul_notMem_names (hnul : nul ∉ path) : ∀ d ∈ resolveAll '/' '.' [] path, nul ∉ d :=
  resolveAll_forall path [] (fun _ hsub _ hmem => hnul (hsub hmem)) fun _ hd => absurd hd not_mem_nil

/-- The pass over an absolute path leaves its canonical form. -/
theorem scan_canonical (hroot : path.head? = some '/') (hnul : nul ∉ path) :
    (Pass.scan (path ++ [nul]).length ⟨path ++ [nul], 0, 0⟩).map Pass.finish
      = some (canonical '/' (resolveAll '/' '.' [] path)) := by
  obtain ⟨t, rfl⟩ : ∃ t, path = '/' :: t := by
    cases path with
    | nil => simp at hroot
    | cons c t => exact ⟨t, by simpa using hroot⟩
  have hstart : At ⟨'/' :: t ++ [nul], 0, 0⟩ [] ([] ++ '/' :: t) := ⟨rfl, rfl, le_refl 0⟩
  obtain ⟨q, hcopy, hat⟩ := hstart.copyPart_next fun _ hc => absurd hc not_mem_nil
  have hstep : Pass.step ⟨'/' :: t ++ [nul], 0, 0⟩ = .next q :=
    (if_neg (by simp [Pass.ahead])).trans hcopy
  have hrest : At q (render '/' []) (t.dropWhile fun c => decide (c = '/')) := hat
  have hclean : nul ∉ t := fun hmem => hnul (mem_cons_of_mem _ hmem)
  have hlen := (dropWhile_suffix (l := t) fun c => decide (c = '/')).length_le
  obtain ⟨r, hscan, hends⟩ := hrest.scan (fun _ hd => absurd hd not_mem_nil)
    (fresh_dropWhile hclean) (lt_succ_of_le hlen)
  rw [resolveAll_dropWhile] at hends
  have hnames := nul_notMem_names hclean
  rw [length_append, length_cons, length_singleton, Pass.scan, hstep]
  simp only [hscan, Option.map_some, hends.finish (resolveAll_isName t) hnames, resolveAll_slash]

/-- The path that normalisation stands for: the components of the path, resolved from the root. -/
def canonicalPath (path : List Char) : List Char := canonical '/' (resolveAll '/' '.' [] path)

/-- The path that is normalised is absolute and holds no NUL. -/
theorem fullPath_absolute (hdir : directory.head? = some '/')
    (hdnul : nul ∉ directory) (hfnul : nul ∉ filename) :
    (fullPath directory filename).head? = some '/' ∧ nul ∉ fullPath directory filename := by
  unfold fullPath
  split_ifs with habs
  · refine ⟨by rw [head?_append, hdir]; rfl, ?_⟩
    simp only [mem_append, mem_cons, not_or]
    exact ⟨hdnul, by decide, hfnul⟩
  · exact ⟨not_not.mp habs, hfnul⟩

/-- The canonical path holds no NUL. -/
theorem nul_notMem_canonicalPath (hnul : nul ∉ path) : nul ∉ canonicalPath path := by
  have hnames := nul_notMem_names hnul
  rw [canonicalPath]
  cases hstack : resolveAll '/' '.' [] path with
  | nil => decide
  | cons c stack =>
    rw [hstack] at hnames
    have hrender := nul_notMem_render hnames
    rw [canonical_cons]
    exact fun hmem => hrender (mem_append_left _ hmem)

/-- Normalising an absolute path gives its canonical form. -/
theorem dfsNormalizePath_eq (habs : (fullPath directory filename).head? = some '/')
    (hnul : nul ∉ fullPath directory filename) :
    dfsNormalizePath true directory filename = some (canonicalPath (fullPath directory filename)) :=
  scan_canonical habs hnul

/-- When memory is available, normalisation returns the canonical path of the directory and the file
name. Its components are names, it ends with a slash only at the root, and normalising it again
changes nothing. -/
theorem dfsNormalizePath_canonical {directory filename : List Char}
    (hdir : directory.head? = some '/') (hdnul : nul ∉ directory) (hfnul : nul ∉ filename) :
    dfsNormalizePath true directory filename = some (canonicalPath (fullPath directory filename)) ∧
      (∀ c ∈ resolveAll '/' '.' [] (fullPath directory filename), IsName '/' '.' c) ∧
      ((canonicalPath (fullPath directory filename)).getLast? = some '/' →
        canonicalPath (fullPath directory filename) = ['/']) ∧
      ∀ base, dfsNormalizePath true base (canonicalPath (fullPath directory filename))
        = some (canonicalPath (fullPath directory filename)) := by
  obtain ⟨habs, hnul⟩ := fullPath_absolute hdir hdnul hfnul
  have hnames : ∀ c ∈ resolveAll '/' '.' [] (fullPath directory filename), IsName '/' '.' c :=
    resolveAll_isName _
  refine ⟨dfsNormalizePath_eq habs hnul, hnames, fun hlast => ?_, fun base => ?_⟩
  · rw [canonicalPath, canonical_getLast hnames hlast]
    rfl
  · have hself : fullPath base (canonicalPath (fullPath directory filename))
        = canonicalPath (fullPath directory filename) := if_neg (not_not.mpr rfl)
    have hagain : canonicalPath (canonicalPath (fullPath directory filename))
        = canonicalPath (fullPath directory filename) :=
      congrArg (canonical '/') (resolveAll_canonical hnames)
    have hclean := nul_notMem_canonicalPath hnul
    rw [dfsNormalizePath_eq (by rw [hself]; rfl) (by rw [hself]; exact hclean), hself, hagain]

/-- A relative name under `/usr//lib/` with every kind of component. -/
theorem dfsNormalizePath_canonical_relative :
    dfsNormalizePath true "/usr//lib/".toList "./.././../../a/.b/..c/".toList = some "/a/.b/..c".toList :=
  (dfsNormalizePath_canonical (by decide) (by decide) (by decide)).1.trans (by decide)

/-- A directory may be normalised before a name under it. -/
theorem canonicalPath_fullPath (directory filename : List Char) :
    canonicalPath (fullPath (canonicalPath directory) filename) = canonicalPath (fullPath directory filename) := by
  unfold fullPath
  split
  · unfold canonicalPath
    rw [resolveAll_join, resolveAll_canonical (resolveAll_isName directory), resolveAll_join]
  · rfl

/-- When each normalised path is the directory of the next name, as `chdir` makes it, the last one is the
canonical path of all the names joined. -/
theorem dfsNormalizePath_steps {names : List (List Char)} (hdir : directory.head? = some '/')
    (hdnul : nul ∉ directory) (hnul : ∀ name ∈ names, nul ∉ name) :
    names.foldlM (dfsNormalizePath true) (canonicalPath directory) =
      some (canonicalPath (names.foldl fullPath directory)) := by
  induction names generalizing directory with
  | nil => rfl
  | cons name names ih =>
    obtain ⟨hname, hrest⟩ := forall_mem_cons.mp hnul
    have hroot : (canonicalPath directory).head? = some '/' := rfl
    obtain ⟨habs, hclean⟩ := fullPath_absolute hroot (nul_notMem_canonicalPath hdnul) hname
    rw [foldlM_cons, dfsNormalizePath_eq habs hclean, canonicalPath_fullPath]
    obtain ⟨habs, hclean⟩ := fullPath_absolute hdir hdnul hname
    exact ih habs hclean hrest

/-- From the root into `/usr/lib`, then up and into `bin`. -/
theorem dfsNormalizePath_steps_up :
    ["usr/./lib".toList, "..//bin/".toList].foldlM (dfsNormalizePath true) ['/'] = some "/usr/bin".toList :=
  (dfsNormalizePath_steps (by decide : ['/'].head? = some '/') (by decide) (by decide)).trans (by decide)

end RtThread.Dfs
