import Mathlib.Data.List.Basic

/-!
# Path normalisation: `dfs_normalize_path`

The path is built in a fresh buffer and rewritten there in one pass, with a read cursor `src` and a
write cursor `dst` over the same characters. A read past the buffer gives NUL here; the pass over an
absolute path never reads there.
-/

namespace RtThread.Dfs

/-- The character that ends a string. -/
abbrev nul : Char := Char.ofNat 0

/-- The buffer and the two cursors of the pass. -/
structure Pass where
  buf : List Char
  src : ℕ
  dst : ℕ

/-- The character `src[k]`. -/
def Pass.ahead (p : Pass) (k : ℕ) : Char := p.buf.getD (p.src + k) nul

/-- A character that is not NUL lies in the buffer. -/
theorem Pass.src_lt {p : Pass} (h : p.ahead 0 ≠ nul) : p.src < p.buf.length := by
  by_contra hout
  exact h (by simp [Pass.ahead, List.getElem?_eq_none (show p.buf.length ≤ p.src by omega)])

/-- `while (*src == '/') src++`. -/
def Pass.skipSlashes (p : Pass) : Pass :=
  if p.ahead 0 = '/' then { p with src := p.src + 1 }.skipSlashes else p
termination_by p.buf.length - p.src
decreasing_by
  have hread : p.ahead 0 ≠ nul := by rw [‹p.ahead 0 = '/'›]; decide
  have hlt := Pass.src_lt hread
  omega

/-- The loop that copies up to the next slash or NUL; it returns the character that ended it, with
`src` past that character. -/
def Pass.copyLoop (p : Pass) : Char × Pass :=
  let c := p.ahead 0
  if h : p.ahead 0 ≠ nul ∧ p.ahead 0 ≠ '/' then
    Pass.copyLoop ⟨p.buf.set p.dst c, p.src + 1, p.dst + 1⟩
  else (c, { p with src := p.src + 1 })
termination_by p.buf.length - p.src
decreasing_by
  have hlt := Pass.src_lt h.1
  simp only [List.length_set]
  omega

/-- What one iteration of the pass ends with. -/
inductive Outcome where
  | next (p : Pass)
  | done (p : Pass)
  | null

/-- The part of an iteration that copies a component and erases the slashes after it. -/
def Pass.copyPart (p : Pass) : Outcome :=
  let (c, q) := p.copyLoop
  if c = '/' then .next (Pass.skipSlashes ⟨q.buf.set q.dst '/', q.src, q.dst + 1⟩)
  else .done q

/-- `while (dst0 < dst && dst[-1] != '/') dst--`. -/
def backtrack (b : List Char) : ℕ → ℕ
  | 0 => 0
  | d + 1 => if b.getD d nul ≠ '/' then backtrack b d else d + 1

/-- The part of an iteration at `up_one`. -/
def Pass.upOne (p : Pass) : Outcome :=
  if p.dst ≠ 1 ∨ p.buf.getD (p.dst - 1) nul ≠ '/' then
    if p.dst = 0 then .null
    else .next { p with dst := backtrack p.buf (p.dst - 1) }
  else .next { p with dst := backtrack p.buf p.dst }

/-- One iteration of the pass. -/
def Pass.step (p : Pass) : Outcome :=
  if p.ahead 0 = '.' then
    if p.ahead 1 = nul then Pass.copyPart { p with src := p.src + 1 }
    else if p.ahead 1 = '/' then .next (Pass.skipSlashes { p with src := p.src + 2 })
    else if p.ahead 1 = '.' ∧ p.ahead 2 = nul then Pass.upOne { p with src := p.src + 2 }
    else if p.ahead 1 = '.' ∧ p.ahead 2 = '/' then
      Pass.upOne (Pass.skipSlashes { p with src := p.src + 3 })
    else p.copyPart
  else p.copyPart

/-- The pass, for at most `fuel` iterations. -/
def Pass.scan : ℕ → Pass → Option Pass
  | 0, _ => none
  | fuel + 1, p =>
    match p.step with
    | .next q => q.scan fuel
    | .done q => some q
    | .null => none

/-- The string in a buffer. -/
def cString (b : List Char) : List Char := b.takeWhile fun c => decide (c ≠ nul)

/-- The end of `dfs_normalize_path`: a slash in the end is removed, and an empty path is the root. -/
def Pass.finish (p : Pass) : List Char :=
  let b := p.buf.set p.dst nul
  let b := if p.dst - 1 > 0 ∧ b.getD (p.dst - 1) nul = '/' then b.set (p.dst - 1) nul else b
  cString (if b.getD 0 nul = nul then (b.set 0 '/').set 1 nul else b)

/-- The path that is normalised: the file name alone if it is absolute. -/
def fullPath (directory filename : List Char) : List Char :=
  if filename.head? ≠ some '/' then directory ++ '/' :: filename else filename

/-- `dfs_normalize_path`; `memory` tells whether the buffer can be allocated. Every iteration but the
last reads a character, so one iteration per byte of the buffer is enough. -/
def dfsNormalizePath (memory : Bool) (directory filename : List Char) : Option (List Char) :=
  let fullpath := fullPath directory filename ++ [nul]
  if memory then (Pass.scan fullpath.length ⟨fullpath, 0, 0⟩).map Pass.finish else none

end RtThread.Dfs
