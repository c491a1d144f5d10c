import Mathlib.Tactic.Ring
import Mathlib.Tactic.Set
import Mathlib.Algebra.Order.Ring.Nat

/-!
# Byte-addressed memory with little-endian words

A memory is a total function from addresses to bytes. Words of any width are read and written
least significant byte first. The rules below are the usual read-over-write equations: a word
read back from where it was stored, a word whose bytes a store does not touch, and the bytes
outside a stored or copied range.

Addresses are unbounded naturals; a client whose machine wraps must bound its own addresses.
-/

namespace RtThread.Lib

/-- Every address holds one byte. -/
abbrev ByteMemory := ℕ → UInt8

namespace ByteMemory

/-- The number spelled by the `n` bytes from `a`, least significant byte first. -/
def load (m : ByteMemory) (a : ℕ) : ℕ → ℕ
  | 0 => 0
  | n + 1 => (m a).toNat + 256 * load m (a + 1) n

/-- Write the `n` low bytes of `v` from address `a` on. -/
def store (m : ByteMemory) (a n v : ℕ) : ByteMemory :=
  fun b => if a ≤ b ∧ b < a + n then UInt8.ofNat (v / 256 ^ (b - a)) else m b

/-- Copy `n` bytes from `src` to `dst`, reading the source before writing. -/
def copy (m : ByteMemory) (dst src n : ℕ) : ByteMemory :=
  fun b => if dst ≤ b ∧ b < dst + n then m (src + (b - dst)) else m b

/-- Set the `n` bytes from address `a` on to one value. -/
def fill (m : ByteMemory) (a : ℕ) (value : UInt8) (n : ℕ) : ByteMemory :=
  fun b => if a ≤ b ∧ b < a + n then value else m b

/-- Write a block of bytes from address `a` on. -/
def write (m : ByteMemory) (a : ℕ) (bytes : List UInt8) : ByteMemory :=
  fun b => if a ≤ b then (bytes[b - a]?).getD (m b) else m b

/-- The block of `n` bytes from address `a` on. -/
def read (m : ByteMemory) (a n : ℕ) : List UInt8 := (List.range n).map fun i => m (a + i)

variable {a b n v : ℕ} {m : ByteMemory}

/-- A load reads only the bytes of its own word. -/
theorem load_congr {m' : ByteMemory}
    (h : ∀ b, a ≤ b → b < a + n → m b = m' b) : load m a n = load m' a n := by
  induction n generalizing a with
  | zero => rfl
  | succ n ih =>
    rw [load, load, h a le_rfl (by omega), ih fun b hb hlt => h b (by omega) (by omega)]

/-- Bytes outside the stored word are kept. -/
theorem store_of_outside (h : b < a ∨ a + n ≤ b) : store m a n v b = m b := by
  unfold store
  rw [if_neg (by omega)]

/-- The bytes of a stored word from position `k` on spell the word without its `k` low bytes. -/
private theorem load_store_tail (m : ByteMemory) (a n k v : ℕ) :
    load (store m a (n + k) v) (a + k) n = v / 256 ^ k % 256 ^ n := by
  induction n generalizing a k v m with
  | zero => simp [load, Nat.mod_one]
  | succ n ih =>
    have htail : load (store m a (n + 1 + k) v) (a + k + 1) n = v / 256 ^ (k + 1) % 256 ^ n := by
      have h := ih m a (k + 1) v
      rwa [show n + (k + 1) = n + 1 + k by omega] at h
    have hhead : (store m a (n + 1 + k) v (a + k)).toNat = v / 256 ^ k % 256 := by
      unfold store
      rw [if_pos ⟨by omega, by omega⟩, Nat.add_sub_cancel_left, UInt8.toNat_ofNat']
    rw [load, htail, hhead, pow_succ 256 k, ← Nat.div_div_eq_div_mul, pow_succ, mul_comm (256 ^ n),
      Nat.mod_mul]

/-- A word that fits its width is read back from where it was stored. -/
theorem load_store_self (h : v < 256 ^ n) : load (store m a n v) a n = v := by
  have hload := load_store_tail m a n 0 v
  rw [add_zero, pow_zero, Nat.div_one, Nat.mod_eq_of_lt h] at hload
  exact hload

/-- A store leaves every word it does not overlap alone. -/
theorem load_store_of_disjoint {k : ℕ} (h : a + n ≤ b ∨ b + k ≤ a) :
    load (store m a n v) b k = load m b k :=
  load_congr fun c hc hlt => store_of_outside (by omega)

/-- Bytes outside the destination of a copy are kept. -/
theorem copy_of_outside {dst src : ℕ} (h : b < dst ∨ dst + n ≤ b) : copy m dst src n b = m b := by
  unfold copy
  rw [if_neg (by omega)]

/-- Bytes outside a filled range are kept. -/
theorem fill_of_outside {value : UInt8} (h : b < a ∨ a + n ≤ b) : fill m a value n b = m b := by
  unfold fill
  rw [if_neg (by omega)]

/-- Bytes outside a written block are kept. -/
theorem write_of_outside {bytes : List UInt8}
    (h : b < a ∨ a + bytes.length ≤ b) : write m a bytes b = m b := by
  unfold write
  split_ifs with hle
  · rw [List.getElem?_eq_none (by omega), Option.getD_none]
  · rfl

/-- The bytes of a written block. -/
theorem write_of_inside {i : ℕ} {bytes : List UInt8} (h : i < bytes.length) :
    write m a bytes (a + i) = bytes[i] := by
  unfold write
  rw [if_pos (by omega), Nat.add_sub_cancel_left, List.getElem?_eq_getElem h, Option.getD_some]

@[simp] theorem write_nil (m : ByteMemory) (a : ℕ) : write m a [] = m :=
  funext fun _ => write_of_outside (by rw [List.length_nil]; omega)

end ByteMemory

end RtThread.Lib
