import Mathlib.Data.List.Basic
import Mathlib.Logic.Function.Basic

/-!
# Finding kernel objects by name

`object.c` and the string functions of `kstring.c` that it uses. A class of objects has a container
list, newest object first. `max` is `RT_NAME_MAX`; a name is a string without its terminator, and
reading past its end yields the terminator.
-/

namespace RtThread.Object

open List

/-- `rt_strncpy`. Once the string has ended the rest of the `n` bytes is filled with 0. -/
def rtStrncpy : List UInt8 → List UInt8 → ℕ → List UInt8
  | _ :: dst, src, n + 1 => src.headD 0 :: rtStrncpy dst src.tail n
  | dst, _, _ => dst

/-- `rt_strncmp`: the difference of the first two bytes that differ, or 0. -/
def rtStrncmp (cs ct : List UInt8) : ℕ → UInt8
  | 0 => 0
  | count + 1 =>
    let res := cs.headD 0 - ct.headD 0
    if res ≠ 0 ∨ cs.headD 0 = 0 then res else rtStrncmp cs.tail ct.tail count

/-- A kernel object: its address and its field `name`. -/
structure Obj where
  address : ℕ
  name : List UInt8
  deriving DecidableEq

variable {C : Type*} {container : C → List Obj} {type : C} {max : ℕ} {name : List UInt8}

/-- `rt_list_insert_after` on the list of a class. -/
def insert [DecidableEq C] (container : C → List Obj) (type : C) (object : Obj) : C → List Obj :=
  Function.update container type (object :: container type)

/-- `rt_object_init` on a static object. -/
def rtObjectInit [DecidableEq C] (max : ℕ) (container : C → List Obj) (object : Obj) (type : C)
    (name : List UInt8) : C → List Obj :=
  insert container type { object with name := rtStrncpy object.name name max }

/-- `rt_object_allocate`, when the heap has a block for the object; its memory is cleared first. -/
def rtObjectAllocate [DecidableEq C] (max : ℕ) (container : C → List Obj) (address : ℕ) (type : C)
    (name : List UInt8) : C → List Obj :=
  insert container type ⟨address, rtStrncpy (.replicate max 0) name (max - 1)⟩

/-- `rt_object_find`. -/
def rtObjectFind (max : ℕ) (container : C → List Obj) (name : List UInt8) (type : C) : Option Obj :=
  (container type).find? fun object => rtStrncmp object.name name max = 0

/-- A copy of `max` bytes compares equal. -/
theorem rtStrncmp_rtStrncpy {dst : List UInt8} (hlength : dst.length = max) :
    rtStrncmp (rtStrncpy dst name max) name max = 0 := by
  induction max generalizing dst name with
  | zero => rfl
  | succ max ih =>
    cases dst with
    | nil => nomatch hlength
    | cons c dst => simp [rtStrncpy, rtStrncmp, ih (by simpa using hlength)]

/-- A copy of one byte less compares equal exactly when the string leaves room for its terminator. -/
theorem rtStrncmp_rtStrncpy_pred (hname : 0 ∉ name) :
    rtStrncmp (rtStrncpy (.replicate (max + 1) 0) name max) name (max + 1) = 0 ↔ name.length ≤ max := by
  induction max generalizing name with
  | zero =>
    cases name with
    | nil => decide
    | cons c name => simp_all [rtStrncmp, rtStrncpy, eq_comm]
  | succ max ih =>
    rw [replicate_succ, rtStrncpy, rtStrncmp]
    cases name with
    | nil => simp
    | cons c name => simp_all [eq_comm]

/-- Among objects of which no other agrees with the name, the search finds one that does. -/
theorem rtObjectFind_only {newer older : List Obj} {object : Obj}
    (hlist : container type = newer ++ object :: older)
    (hother : ∀ x ∈ newer ++ older, rtStrncmp x.name name max ≠ 0) :
    (rtObjectFind max container name type).map Obj.address = some object.address ↔
      rtStrncmp object.name name max = 0 := by
  have hnewer : newer.find? (fun x => rtStrncmp x.name name max = 0) = none := by
    simpa using fun x hx => hother x (mem_append_left _ hx)
  have holder : older.find? (fun x => rtStrncmp x.name name max = 0) = none := by
    simpa using fun x hx => hother x (mem_append_right _ hx)
  rw [rtObjectFind, hlist, find?_append, hnewer, find?_cons, holder]
  split <;> simp_all

end RtThread.Object
