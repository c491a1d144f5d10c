import RtThread.Lib.Transition
import Mathlib.Logic.Function.Basic
import Mathlib.Data.Nat.Notation
import Mathlib.Data.Int.Notation

/-!
# File descriptors and vnodes of DFS

A descriptor is a slot of the table `fds` that points to a `dfs_file`; several slots may share one
file, which counts them. A file points to a `dfs_vnode`, which counts its files and is found by its
full path in the hash table. The bucket of a vnode is determined by its path, so one list in the
order of insertion finds the same vnode as the buckets. Files and vnodes are never forgotten: `live`
tells whether one is still allocated. What the file system's own `open` and `close` answer, and
whether memory is available, comes with the call.
-/

namespace RtThread.Dfs

/-- `struct dfs_vnode`. -/
structure Vnode where
  fullpath : List Char
  refCount : ℤ
  live : Bool

/-- `struct dfs_file`. -/
structure File (V : Type*) where
  refCount : ℤ
  vnode : Option V
  live : Bool

/-- The vnodes and their hash table, the files, and the descriptor table. -/
structure Files (V F : Type*) where
  vnode : V → Vnode
  table : List V
  file : F → File V
  fds : ℕ → Option F
  maxfd : ℕ

/-- `DFS_STDIO_OFFSET`. -/
abbrev stdioOffset : ℕ := 3

variable {V F : Type*} [DecidableEq V] [DecidableEq F]

namespace Files

/-- Write a vnode. -/
def setVnode (s : Files V F) (v : V) (x : Vnode) : Files V F :=
  { s with vnode := Function.update s.vnode v x }

/-- Write a file. -/
def setFile (s : Files V F) (f : F) (x : File V) : Files V F :=
  { s with file := Function.update s.file f x }

/-- Add to the reference count of a vnode. -/
def addRef (s : Files V F) (v : V) (k : ℤ) : Files V F :=
  s.setVnode v { s.vnode v with refCount := (s.vnode v).refCount + k }

/-- `dfs_vnode_find`. -/
def vnodeFind (s : Files V F) (path : List Char) : Option V :=
  s.table.find? fun v => (s.vnode v).fullpath = path

/-- Remove a vnode from the hash table, clear the file's pointer to it and free it. -/
def dropVnode (s : Files V F) (f : F) (v : V) : Files V F :=
  { (s.setVnode v { s.vnode v with live := false }).setFile f { s.file f with vnode := none } with
    table := s.table.erase v }

/-- The rest of `dfs_file_open` once the file has a vnode: the file system's `open` may refuse. -/
def fileOpened (s : Files V F) (f : F) (v : V) (accept : Bool) : Files V F × Bool :=
  if accept then (s, true)
  else
    let s := s.addRef v (-1)
    if (s.vnode v).refCount = 0 then (s.dropVnode f v, false) else (s, false)

/-- `dfs_file_open`; `fresh` is the vnode that can be allocated for a path without one, and `none` if
there is no file system, no memory or no `open` routine. -/
def fileOpen (s : Files V F) (f : F) (path : List Char) (fresh : Option V) (accept : Bool) :
    Files V F × Bool :=
  match s.vnodeFind path with
  | some v =>
    ((s.addRef v 1).setFile f { s.file f with vnode := some v }).fileOpened f v accept
  | none =>
    match fresh with
    | none => (s, false)
    | some v =>
      fileOpened
        { (s.setVnode v ⟨path, 1, true⟩).setFile f { s.file f with vnode := some v } with
          table := v :: s.table } f v accept

/-- `dfs_file_close`; `none` is a file without vnode, whose pointer is dereferenced. -/
def fileClose (s : Files V F) (f : F) (closed : Bool) : Option (Files V F × Bool) :=
  if (s.file f).refCount = 1 then
    match (s.file f).vnode with
    | none => none
    | some v =>
      if (s.vnode v).refCount ≤ 0 then some (s, false)
      else if (s.vnode v).refCount = 1 then some (s.dropVnode f v, closed)
      else some (s, closed)
  else some (s, true)

/-- `fd_slot_expand`; `grow` tells whether `rt_realloc` finds memory. -/
def slotExpand (fdMax : ℕ) (s : Files V F) (fd : ℕ) (grow : Bool) : Option (Files V F) :=
  if fd < s.maxfd then some s
  else if fd ≥ fdMax then none
  else if grow then
    let nr := min ((fd + 4) / 4 * 4) fdMax
    some { s with fds := fun i => if s.maxfd ≤ i ∧ i < nr then none else s.fds i, maxfd := nr }
  else none

/-- `fd_slot_alloc`. -/
def slotAlloc (fdMax : ℕ) (s : Files V F) (startfd : ℕ) (grow : Bool) : Option (ℕ × Files V F) :=
  match (List.range s.maxfd).find? fun i => startfd ≤ i ∧ (s.fds i).isNone with
  | some i => some (i, s)
  | none => (s.slotExpand fdMax (max s.maxfd startfd) grow).map (max s.maxfd startfd, ·)

/-- The part of `fdt_fd_release` that drops the last reference to a file. -/
def freeFile (s : Files V F) (f : F) : Files V F :=
  let s :=
    match (s.file f).vnode with
    | none => s
    | some v =>
      let s := s.addRef v (-1)
      if (s.vnode v).refCount = 0 then
        (s.setVnode v { s.vnode v with live := false }).setFile f { s.file f with vnode := none }
      else s
  s.setFile f { s.file f with live := false }

/-- `fdt_fd_release`. -/
def fdRelease (s : Files V F) (fd : ℕ) : Files V F :=
  if fd < s.maxfd then
    match s.fds fd with
    | none => s
    | some f =>
      let s := { s with fds := Function.update s.fds fd none }
      let s := s.setFile f { s.file f with refCount := (s.file f).refCount - 1 }
      if (s.file f).refCount = 0 then s.freeFile f else s
  else s

/-- The slot of one more descriptor of a file. -/
def share (s : Files V F) (fd : ℕ) (f : F) : Files V F :=
  { s with fds := Function.update s.fds fd (some f) }.setFile f
    { s.file f with refCount := (s.file f).refCount + 1 }

/-- `open`; `file` is the file that `fd_alloc` can allocate. -/
def openCall (fdMax : ℕ) (s : Files V F) (grow : Bool) (file : Option F) (path : List Char)
    (fresh : Option V) (accept : Bool) : Files V F :=
  match s.slotAlloc fdMax stdioOffset grow, file with
  | none, _ => s
  | some (_, s), none => s
  | some (fd, s), some f =>
    let s := { s.setFile f ⟨1, none, true⟩ with fds := Function.update s.fds fd (some f) }
    match s.fileOpen f path fresh accept with
    | (s, true) => s
    | (s, false) => s.fdRelease fd

/-- `close`. -/
def closeCall (s : Files V F) (fd : ℕ) (closed : Bool) : Option (Files V F) :=
  if fd < s.maxfd then
    match s.fds fd with
    | none => some s
    | some f => (s.fileClose f closed).map fun r => r.1.fdRelease fd
  else some s

/-- `sys_dup`. -/
def dup (fdMax : ℕ) (s : Files V F) (oldfd : ℕ) (grow : Bool) : Files V F :=
  if oldfd < s.maxfd then
    match s.fds oldfd with
    | none => s
    | some f =>
      match s.slotAlloc fdMax stdioOffset grow with
      | none => s
      | some (newfd, s) => s.share newfd f
  else s

/-- `sys_dup2`. -/
def dup2 (fdMax : ℕ) (s : Files V F) (oldfd newfd : ℕ) (grow closed : Bool) :
    Option (Files V F) :=
  if oldfd < s.maxfd then
    match s.fds oldfd, s.slotExpand fdMax newfd grow with
    | none, _ => some s
    | some _, none => some s
    | some f, some s =>
      match s.fds newfd with
      | none => some (s.share newfd f)
      | some g =>
        if g = f then some s
        else
          (s.fileClose g closed).map fun r =>
            if r.2 then (r.1.fdRelease newfd).share newfd f else r.1
  else some s

/-- The check of `dfs_mount` that its path exists; the file is on the stack of the caller. -/
def mountCheck (s : Files V F) (file : F) (path : List Char) (fresh : Option V)
    (accept closed : Bool) : Option (Files V F) :=
  if path = "/".toList ∨ path = "/dev".toList then some s
  else
    match (s.setFile file ⟨1, none, true⟩).fileOpen file path fresh accept with
    | (s, false) => some (s.setFile file { s.file file with live := false })
    | (s, true) =>
      (s.fileClose file closed).map fun r =>
        r.1.setFile file { r.1.file file with live := false }

end Files

/-- The calls, with what the allocator and the file system answer. -/
inductive Call (V F : Type*) where
  | open (grow : Bool) (file : Option F) (path : List Char) (fresh : Option V) (accept : Bool)
  | close (fd : ℕ) (closed : Bool)
  | dup (oldfd : ℕ) (grow : Bool)
  | dup2 (oldfd newfd : ℕ) (grow closed : Bool)
  | mount (file : F) (path : List Char) (fresh : Option V) (accept closed : Bool)

/-- Memory that is given out is not in use. -/
def Unused (s : Files V F) (file : Option F) (fresh : Option V) : Bool :=
  file.all (fun f => !(s.file f).live) && fresh.all (fun v => !(s.vnode v).live)

/-- One call; `none` is a call that cannot be made or that does not return. -/
def Files.next (fdMax : ℕ) (s : Files V F) : Call V F → Option (Files V F)
  | .open grow file path fresh accept =>
    if Unused s file fresh then some (s.openCall fdMax grow file path fresh accept) else none
  | .close fd closed => s.closeCall fd closed
  | .dup oldfd grow => some (s.dup fdMax oldfd grow)
  | .dup2 oldfd newfd grow closed => s.dup2 fdMax oldfd newfd grow closed
  | .mount file path fresh accept closed =>
    if Unused s (some file) fresh then s.mountCheck file path fresh accept closed else none

/-- Nothing is open. -/
def Files.IsInit (s : Files V F) : Prop :=
  s.table = [] ∧ (∀ v, (s.vnode v).live = false) ∧ (∀ f, (s.file f).live = false) ∧
    ∀ i, s.fds i = none

/-- The runs of the calls. -/
def fileRuns (fdMax : ℕ) (V F : Type*) [DecidableEq V] [DecidableEq F] :
    Lib.TransitionSystem (Files V F) (Call V F) :=
  .ofNext Files.IsInit (Files.next fdMax)

end RtThread.Dfs
