import RtThread.Dfs.Vnode
import RtThread.Lib.Count

/-!
# The reference counts of vnodes

A refused open of a path that is open elsewhere lowers the count twice: `dfs_file_open` takes its own
reference back and leaves the file pointing to the vnode, and `open` then releases the descriptor
with it. A mount on an open directory keeps the reference it took, because `dfs_file_close` leaves
the last decrement to `fd_release`. Without such calls every count is the number of files.
-/

namespace RtThread.Dfs

open Function List Option Files
open Lib (HasCount)
open Lib.TransitionSystem (exists_runGuarded)

variable {V F : Type*}
variable {accept closed grow : Bool} {f : F} {fd fdMax : ℕ} {fresh : Option V} {path : List Char}
  {s t : Files V F} {v : V}

/-- An allocated file refers to a vnode. -/
def Files.Refers (s : Files V F) (v : V) (f : F) : Prop :=
  (s.file f).live = true ∧ (s.file f).vnode = some v

/-- The vnodes of the table count their files. -/
structure VnodesOk (s : Files V F) : Prop where
  counted : ∀ v ∈ s.table, (s.vnode v).live = true ∧
    ∃ n : ℕ, (s.vnode v).refCount = n + 1 ∧ HasCount (s.Refers v) (n + 1)
  listed : ∀ v f, s.Refers v f → v ∈ s.table
  nodup : s.table.Nodup

/-- The files count their descriptors. -/
structure SlotsOk (s : Files V F) : Prop where
  shared : ∀ f, (s.file f).live = true →
    ∃ n : ℕ, (s.file f).refCount = n + 1 ∧ HasCount (fun i => s.fds i = some f) (n + 1)
  opened : ∀ i f, s.fds i = some f → (s.file f).live = true
  bound : ∀ i, s.maxfd ≤ i → s.fds i = none

/-- The vnodes are counted right as long as they and the references to them are the same. -/
theorem VnodesOk.congr (h : VnodesOk s)
    (hrefers : ∀ v f, t.Refers v f ↔ s.Refers v f) (htable : t.table = s.table)
    (hvnode : ∀ v ∈ s.table, t.vnode v = s.vnode v) : VnodesOk t := by
  refine ⟨fun v hv => ?_, fun v f hf => ?_, htable ▸ h.nodup⟩
  · rw [htable] at hv
    obtain ⟨hlive, n, hn, hcount⟩ := h.counted v hv
    rw [hvnode v hv]
    exact ⟨hlive, n, hn, hcount.congr (hrefers v)⟩
  · rw [htable]
    exact h.listed v f ((hrefers v f).mp hf)

/-- The descriptors are counted right as long as they and the counts are the same. -/
theorem SlotsOk.congr (h : SlotsOk s) (hlive : ∀ f, (t.file f).live = (s.file f).live)
    (hcount : ∀ f, (s.file f).live = true → (t.file f).refCount = (s.file f).refCount)
    (hfds : t.fds = s.fds) (hmax : t.maxfd = s.maxfd) : SlotsOk t := by
  refine ⟨fun f hf => ?_, fun i f hi => ?_, fun i hi => ?_⟩
  · rw [hlive] at hf
    rw [hcount f hf, hfds]
    exact h.shared f hf
  · rw [hlive]
    exact h.opened i f (hfds ▸ hi)
  · rw [hfds]
    exact h.bound i (hmax ▸ hi)

/-- A file refers to one vnode. -/
theorem Files.Refers.unique {w : V} (hv : s.Refers v f) (hw : s.Refers w f) : v = w :=
  mem_unique hv.2 hw.2

/-- A vnode that is in the table, or that is put there, gets a file that referred to none. -/
theorem VnodesOk.attach (h : VnodesOk s) (hnone : ∀ w, ¬ s.Refers w f) (hnew : t.Refers v f)
    (hothers : ∀ w g, g ≠ f → (t.Refers w g ↔ s.Refers w g))
    (hvnode : ∀ w, w ≠ v → t.vnode w = s.vnode w) (hv : (t.vnode v).live = true)
    (htable : v ∈ s.table ∧ t.table = s.table ∧ (t.vnode v).refCount = (s.vnode v).refCount + 1 ∨
      v ∉ s.table ∧ t.table = v :: s.table ∧ (t.vnode v).refCount = 1) : VnodesOk t := by
  have hmem : ∀ w, w ∈ t.table ↔ w = v ∨ w ∈ s.table := by
    rcases htable with ⟨hin, heq, -⟩ | ⟨-, heq, -⟩
    · exact fun w => ⟨fun hw => .inr (heq ▸ hw), fun hw => heq ▸ hw.elim (· ▸ hin) id⟩
    · exact fun w => by rw [heq, mem_cons]
  refine ⟨fun w hw => ?_, fun w g hg => (hmem w).mpr ?_, ?_⟩
  · by_cases hwv : w = v
    · subst hwv
      refine ⟨hv, ?_⟩
      rcases htable with ⟨hin, -, hcount⟩ | ⟨hout, -, hcount⟩
      · obtain ⟨-, n, hn, hfiles⟩ := h.counted w hin
        exact ⟨n + 1, by rw [hcount, hn]; push_cast; rfl, hfiles.gain (hnone w) hnew (hothers w)⟩
      · have hzero : HasCount (s.Refers w) 0 := .of_forall_not fun g hg => hout (h.listed w g hg)
        exact ⟨0, by simpa using hcount, hzero.gain (hnone w) hnew (hothers w)⟩
    · obtain ⟨hlive, n, hn, hfiles⟩ := h.counted w (((hmem w).mp hw).resolve_left hwv)
      rw [hvnode w hwv]
      refine ⟨hlive, n, hn, hfiles.congr fun g => ?_⟩
      by_cases hg : g = f
      · subst hg
        exact ⟨fun hw => absurd (hw.unique hnew) hwv, fun hw => absurd hw (hnone w)⟩
      · exact hothers w g hg
  · by_cases hgf : g = f
    · subst hgf
      exact .inl (hg.unique hnew)
    · exact .inr (h.listed w g ((hothers w g hgf).mp hg))
  · rcases htable with ⟨-, heq, -⟩ | ⟨hout, heq, -⟩
    · exact heq ▸ h.nodup
    · exact heq ▸ nodup_cons.mpr ⟨hout, h.nodup⟩

/-- A descriptor is released; the last one takes the file with it. -/
theorem SlotsOk.release (h : SlotsOk s) (hslot : s.fds fd = some f)
    (hfds : t.fds = update s.fds fd none) (hmax : t.maxfd = s.maxfd)
    (hothers : ∀ g, g ≠ f → (t.file g).live = (s.file g).live ∧ (t.file g).refCount = (s.file g).refCount)
    (hf : (s.file f).refCount = 1 ∧ (t.file f).live = false ∨ (s.file f).refCount ≠ 1 ∧
      (t.file f).live = true ∧ (t.file f).refCount = (s.file f).refCount - 1) : SlotsOk t := by
  obtain ⟨n, hn, hslots⟩ := h.shared f (h.opened fd f hslot)
  have hone : ∀ i, i ≠ fd → t.fds i = s.fds i := fun i hi => by rw [hfds, update_of_ne hi]
  have hgone : t.fds fd = none := by rw [hfds, update_self]
  obtain ⟨m, hm, hleft⟩ := hslots.lose (q := fun i => t.fds i = some f) hslot (by simp [hgone])
    fun i hi => by rw [hone i hi]
  refine ⟨fun g hg => ?_, fun i g hi => ?_, fun i hi => ?_⟩
  · by_cases hgf : g = f
    · subst hgf
      rcases hf with ⟨-, hdead⟩ | ⟨hmore, -, hcount⟩
      · simp [hdead] at hg
      · obtain ⟨k, rfl⟩ : ∃ k, m = k + 1 := ⟨m - 1, by omega⟩
        exact ⟨k, by omega, hleft⟩
    · obtain ⟨hlive, hcount⟩ := hothers g hgf
      rw [hlive] at hg
      obtain ⟨k, hk, hkslots⟩ := h.shared g hg
      refine ⟨k, hcount.trans hk, hkslots.congr fun i => ?_⟩
      by_cases hi : i = fd
      · simp [hi, hgone, hslot, Ne.symm hgf]
      · rw [hone i hi]
  · have hne : i ≠ fd := by
      rintro rfl
      simp [hgone] at hi
    by_cases hgf : g = f
    · subst hgf
      rcases hf with ⟨hlast, -⟩ | ⟨-, hlive, -⟩
      · have hzero : m = 0 := by omega
        exact absurd hi ((hzero ▸ hleft).forall_not i)
      · exact hlive
    · rw [(hothers g hgf).1]
      exact h.opened i g (hone i hne ▸ hi)
  · by_cases hfd : i = fd
    · rw [hfd, hgone]
    · rw [hone i hfd]
      exact h.bound i (hmax ▸ hi)

/-- What the calls keep. -/
structure Inv (s : Files V F) : Prop extends VnodesOk s, SlotsOk s

/-- Nothing is counted before the first call. -/
theorem Inv.of_isInit (h : s.IsInit) : Inv s := by
  obtain ⟨htable, hvnode, hfile, hfds⟩ := h
  refine ⟨⟨by simp [htable], fun v f hf => ?_, by simp [htable]⟩,
    ⟨fun f hf => ?_, fun i f hi => ?_, fun i _ => hfds i⟩⟩
  · exact absurd hf.1 (by simp [hfile])
  · exact absurd hf (by simp [hfile])
  · simp [hfds] at hi

/-- A larger descriptor table has the same descriptors. -/
theorem Inv.slotExpand (h : Inv s) (hexpand : s.slotExpand fdMax fd grow = some t) :
    Inv t ∧ t = { s with maxfd := t.maxfd } ∧ fd < t.maxfd := by
  unfold Files.slotExpand at hexpand
  split_ifs at hexpand with hin hmax hgrow
  · cases hexpand
    exact ⟨h, rfl, hin⟩
  · have hfds : (fun i => if s.maxfd ≤ i ∧ i < min ((fd + 4) / 4 * 4) fdMax then none else s.fds i)
        = s.fds := by
      funext i
      split_ifs with hi
      · exact (h.bound i hi.1).symm
      · rfl
    dsimp only at hexpand
    rw [hfds] at hexpand
    cases hexpand
    exact ⟨⟨h.toVnodesOk.congr (fun _ _ => .rfl) rfl fun _ _ => rfl,
      { h with bound := fun i hi => h.bound i (by grind) }⟩, rfl, by grind⟩

/-- A slot that is allocated is free. -/
theorem Inv.slotAlloc {startfd : ℕ} (h : Inv s) (halloc : s.slotAlloc fdMax startfd grow = some (fd, t)) :
    Inv t ∧ t = { s with maxfd := t.maxfd } ∧ fd < t.maxfd ∧ t.fds fd = none := by
  unfold Files.slotAlloc at halloc
  split at halloc
  next i hfind =>
    cases halloc
    have hi := find?_some hfind
    have hlt := mem_range.mp (mem_of_find?_eq_some hfind)
    exact ⟨h, rfl, hlt, by simpa using (by simpa using hi : _ ∧ _).2⟩
  · obtain ⟨t', hexpand, ⟨⟩⟩ := map_eq_some_iff.mp halloc
    obtain ⟨hinv, ht, hlt⟩ := h.slotExpand hexpand
    refine ⟨hinv, ht, hlt, ?_⟩
    rw [ht]
    exact h.bound _ (Nat.le_max_left _ _)

/-- The descriptors and the files they keep are the same. -/
structure SlotFrame (s t : Files V F) : Prop where
  fds : t.fds = s.fds
  maxfd : t.maxfd = s.maxfd
  file : ∀ g, (t.file g).live = (s.file g).live ∧ (t.file g).refCount = (s.file g).refCount

theorem SlotFrame.trans {u : Files V F} (h : SlotFrame s t) (h' : SlotFrame t u) : SlotFrame s u :=
  ⟨h'.fds.trans h.fds, h'.maxfd.trans h.maxfd,
    fun g => ⟨(h'.file g).1.trans (h.file g).1, (h'.file g).2.trans (h.file g).2⟩⟩

/-- Such a change keeps the counts of the descriptors. -/
theorem SlotsOk.frame (h : SlotsOk s) (hframe : SlotFrame s t) : SlotsOk t :=
  h.congr (fun f => (hframe.file f).1) (fun f _ => (hframe.file f).2) hframe.fds hframe.maxfd

variable [DecidableEq F]

/-- A write to a file that refers to the same vnode before and after it changes no count. -/
theorem VnodesOk.setFile {x : File V} (h : VnodesOk s) (hfile : t.file = update s.file f x)
    (hx : ∀ w, x.live = true ∧ x.vnode = some w ↔ s.Refers w f) (htable : t.table = s.table)
    (hvnode : ∀ w ∈ s.table, t.vnode w = s.vnode w) : VnodesOk t := by
  refine h.congr (fun w g => ?_) htable hvnode
  by_cases hg : g = f
  · rw [Files.Refers, hfile, hg, update_self]
    exact hx w
  · rw [Files.Refers, hfile, update_of_ne hg, Files.Refers]

/-- A free slot takes one more descriptor of a file, or the first one. -/
theorem SlotsOk.take {x : File V} (h : SlotsOk s)
    (hlt : fd < s.maxfd) (hfree : s.fds fd = none) (hlive : x.live = true)
    (hcount : ∃ n : ℕ, x.refCount = n + 1 ∧ HasCount (fun i => s.fds i = some f) n) :
    SlotsOk { s.setFile f x with fds := update s.fds fd (some f) } := by
  refine ⟨fun g hg => ?_, fun i g hi => ?_, fun i hi => ?_⟩
  · by_cases hgf : g = f
    · subst hgf
      obtain ⟨n, hn, hslots⟩ := hcount
      refine ⟨n, by simpa [Files.setFile] using hn, hslots.gain (a := fd) (by simp [hfree]) (by simp) ?_⟩
      intro i hi
      simp [update_of_ne hi]
    · simp only [Files.setFile, update_of_ne hgf] at hg ⊢
      obtain ⟨n, hn, hslots⟩ := h.shared g hg
      refine ⟨n, hn, hslots.congr fun i => ?_⟩
      by_cases hi : i = fd
      · subst hi
        simp [hfree, Ne.symm hgf]
      · rw [update_of_ne hi]
  · by_cases hgf : g = f
    · simp [Files.setFile, hgf, hlive]
    · have hne : i ≠ fd := by
        rintro rfl
        simp [Ne.symm hgf] at hi
      simp only [Files.setFile, update_of_ne hgf]
      exact h.opened i g (by simpa [update_of_ne hne] using hi)
  · have hne : i ≠ fd := by
      rintro rfl
      exact absurd hlt (Nat.not_lt.mpr hi)
    simpa [update_of_ne hne] using h.bound i hi

/-- Writing the vnode of a file leaves the descriptors alone. -/
theorem slotFrame_setFile {x : Option V} (hfds : t.fds = s.fds) (hmax : t.maxfd = s.maxfd)
    (hfile : t.file = update s.file f { s.file f with vnode := x }) : SlotFrame s t := by
  refine ⟨hfds, hmax, fun g => ?_⟩
  by_cases hg : g = f
  · simp [hfile, hg]
  · simp [hfile, update_of_ne hg]

/-- One more descriptor of a file. -/
theorem Inv.share (h : Inv s) (hlive : (s.file f).live = true)
    (hlt : fd < s.maxfd) (hempty : s.fds fd = none) : Inv (s.share fd f) := by
  obtain ⟨n, hn, hslots⟩ := h.shared f hlive
  exact ⟨h.toVnodesOk.setFile rfl (fun _ => .rfl) rfl fun _ _ => rfl,
    h.toSlotsOk.take hlt hempty hlive ⟨n + 1, by simp [hn], hslots⟩⟩

/-- `sys_dup`. -/
theorem Inv.dup {oldfd : ℕ} (h : Inv s) : Inv (s.dup fdMax oldfd grow) := by
  unfold Files.dup
  split
  · cases hold : s.fds oldfd with
    | none => exact h
    | some f =>
      cases halloc : s.slotAlloc fdMax stdioOffset grow with
      | none => exact h
      | some slot =>
        obtain ⟨hinv, ht, hlt, hempty⟩ := h.slotAlloc halloc
        refine hinv.share ?_ hlt hempty
        rw [ht]
        exact h.opened oldfd f hold
  · exact h

/-- The file of a path check is gone when the check is over. -/
theorem Inv.mountDone {x : File V} (h : Inv s)
    (hdead : (s.file f).live = false) (hframe : SlotFrame (s.setFile f x) t)
    (hvnodes : VnodesOk (t.setFile f { t.file f with live := false })) :
    Inv (t.setFile f { t.file f with live := false }) := by
  have hfile : ∀ g, g ≠ f → (t.file g).live = (s.file g).live ∧ (t.file g).refCount = (s.file g).refCount :=
    fun g hg => by simpa [Files.setFile, update_of_ne hg] using hframe.file g
  refine ⟨hvnodes, h.toSlotsOk.congr (fun g => ?_) (fun g hlive => ?_) hframe.fds hframe.maxfd⟩
  · by_cases hg : g = f
    · subst hg
      simp [Files.setFile, hdead]
    · simpa [Files.setFile, update_of_ne hg] using (hfile g hg).1
  · have hg : g ≠ f := fun heq => by simp [heq, hdead] at hlive
    simpa [Files.setFile, update_of_ne hg] using (hfile g hg).2

variable [DecidableEq V]

omit [DecidableEq F] in
/-- A file stops referring to its vnode; the last one takes the vnode out of the table. -/
theorem VnodesOk.detach (h : VnodesOk s) (hrefers : s.Refers v f) (hgone : ∀ w, ¬ t.Refers w f)
    (hothers : ∀ w g, g ≠ f → (t.Refers w g ↔ s.Refers w g)) (hvnode : ∀ w, w ≠ v → t.vnode w = s.vnode w)
    (htable : (s.vnode v).refCount = 1 ∧ t.table = s.table.erase v ∨
      (s.vnode v).refCount ≠ 1 ∧ t.table = s.table ∧ (t.vnode v).live = true ∧
        (t.vnode v).refCount = (s.vnode v).refCount - 1) : VnodesOk t := by
  have hin := h.listed v f hrefers
  obtain ⟨-, n, hn, hfiles⟩ := h.counted v hin
  obtain ⟨m, hm, hleft⟩ := hfiles.lose hrefers (hgone v) (hothers v)
  have hkept : ∀ w g, w ≠ v → (t.Refers w g ↔ s.Refers w g) := fun w g hwv => by
    by_cases hg : g = f
    · subst hg
      exact ⟨fun hw => absurd hw (hgone w), fun hw => absurd (hw.unique hrefers) hwv⟩
    · exact hothers w g hg
  have hold : ∀ w ∈ s.table, w ≠ v → (t.vnode w).live = true ∧
      ∃ n : ℕ, (t.vnode w).refCount = n + 1 ∧ HasCount (t.Refers w) (n + 1) := fun w hw hwv => by
    obtain ⟨hlive, k, hk, hcount⟩ := h.counted w hw
    rw [hvnode w hwv]
    exact ⟨hlive, k, hk, hcount.congr fun g => hkept w g hwv⟩
  rcases htable with ⟨hone, heq⟩ | ⟨hmore, heq, hlive, hcount⟩
  · have hzero : m = 0 := by omega
    rw [hzero] at hleft
    refine ⟨fun w hw => ?_, fun w g hg => ?_, heq ▸ h.nodup.erase v⟩
    · rw [heq, h.nodup.mem_erase_iff] at hw
      exact hold w hw.2 hw.1
    · have hwv : w ≠ v := by
        rintro rfl
        exact hleft.forall_not g hg
      rw [heq, h.nodup.mem_erase_iff]
      exact ⟨hwv, h.listed w g ((hkept w g hwv).mp hg)⟩
  · refine ⟨fun w hw => ?_, fun w g hg => ?_, heq ▸ h.nodup⟩
    · by_cases hwv : w = v
      · subst hwv
        obtain ⟨k, rfl⟩ : ∃ k, m = k + 1 := ⟨m - 1, by omega⟩
        exact ⟨hlive, k, by omega, hleft⟩
      · exact hold w (heq ▸ hw) hwv
    · by_cases hwv : w = v
      · exact heq ▸ hwv ▸ hin
      · exact heq ▸ h.listed w g ((hkept w g hwv).mp hg)

/-- `fdt_fd_release` of a file that keeps other descriptors or whose vnode keeps other files. -/
theorem Inv.fdRelease (h : Inv s) (hslot : s.fds fd = some f)
    (hkeep : (s.file f).refCount = 1 → ∀ v, (s.file f).vnode = some v → (s.vnode v).refCount ≠ 1) :
    Inv (s.fdRelease fd) := by
  have hlt : fd < s.maxfd := by
    by_contra hout
    rw [h.bound fd (by omega)] at hslot
    cases hslot
  have hlive := h.opened fd f hslot
  unfold Files.fdRelease
  rw [if_pos hlt, hslot]
  dsimp only
  by_cases hone : (s.file f).refCount = 1
  · rw [if_pos (by simp [Files.setFile, hone])]
    cases hv : (s.file f).vnode with
    | none =>
      simp only [freeFile, Files.setFile, update_self, update_idem]
      exact ⟨h.toVnodesOk.setFile rfl (fun w => by simp [Files.Refers, hv]) rfl fun _ _ => rfl,
        h.toSlotsOk.release hslot rfl rfl (fun g hg => by simp [update_of_ne hg]) (.inl ⟨hone, by simp⟩)⟩
    | some v =>
      have hmore := hkeep hone v hv
      have hne : (s.vnode v).refCount + -1 ≠ 0 := by omega
      simp only [freeFile, Files.setFile, addRef, setVnode, update_self, if_neg hne]
      have hlive' := (h.counted v (h.listed v f ⟨hlive, hv⟩)).1
      refine ⟨h.toVnodesOk.detach (v := v) ⟨hlive, hv⟩ (fun w hw => ?_) (fun w g hg => ?_)
        (fun w hw => update_of_ne hw ..) (.inr ⟨hmore, rfl, ?_, ?_⟩),
        h.toSlotsOk.release hslot rfl rfl (fun g hg => by simp [update_of_ne hg]) (.inl ⟨hone, by simp⟩)⟩
      · simp [Files.Refers] at hw
      · simp [Files.Refers, update_of_ne hg]
      · simpa using hlive'
      · simp only [update_self]
        omega
  · rw [if_neg (by simp only [Files.setFile, update_self]; omega)]
    exact ⟨h.toVnodesOk.setFile rfl (fun _ => .rfl) rfl fun _ _ => rfl, h.toSlotsOk.release hslot rfl rfl
      (fun g hg => by simp [Files.setFile, update_of_ne hg])
      (.inr ⟨hone, by simpa [Files.setFile] using hlive, by simp [Files.setFile]⟩)⟩

/-- Freeing the vnode of a file that is its last one. -/
theorem VnodesOk.dropVnode (h : VnodesOk s) (hrefers : s.Refers v f)
    (hlast : (s.vnode v).refCount = 1) : VnodesOk (s.dropVnode f v) := by
  refine h.detach hrefers (fun w hw => ?_) (fun w g hg => ?_) (fun w hw => update_of_ne hw ..)
    (.inl ⟨hlast, rfl⟩)
  · simp [Files.Refers, Files.dropVnode, Files.setFile] at hw
  · simp [Files.Refers, Files.dropVnode, Files.setFile, setVnode, update_of_ne hg]

/-- `dfs_file_close` frees the vnode of its last file, and leaves any other for `fdt_fd_release`. -/
theorem VnodesOk.fileClose {r : Bool} (h : VnodesOk s)
    (hlive : (s.file f).live = true) (hclose : s.fileClose f closed = some (t, r)) :
    VnodesOk t ∧ SlotFrame s t ∧
      ((t.file f).refCount = 1 → ∀ v, (t.file f).vnode = some v → (t.vnode v).refCount ≠ 1) := by
  have hsame : SlotFrame s s := ⟨rfl, rfl, fun _ => ⟨rfl, rfl⟩⟩
  unfold Files.fileClose at hclose
  split at hclose
  · split at hclose
    · cases hclose
    next v hv =>
      split_ifs at hclose with hzero hlast
      · obtain ⟨-, n, hn, -⟩ := h.counted v (h.listed v f ⟨hlive, hv⟩)
        omega
      · cases hclose
        refine ⟨h.dropVnode ⟨hlive, hv⟩ hlast, slotFrame_setFile rfl rfl rfl, fun _ w hw => ?_⟩
        simp [Files.dropVnode, Files.setFile] at hw
      · cases hclose
        refine ⟨h, hsame, fun _ w hw => ?_⟩
        rwa [mem_unique hw hv]
  next hshared =>
    cases hclose
    exact ⟨h, hsame, fun hone => absurd hone hshared⟩

/-- `dfs_file_open` of a path that is not open, or that the file system accepts. -/
theorem VnodesOk.fileOpen (h : VnodesOk s) (f : F) (path : List Char) (fresh : Option V) (accept : Bool)
    (hlive : (s.file f).live = true) (hnone : (s.file f).vnode = none)
    (hdead : ∀ v ∈ fresh, (s.vnode v).live = false) (hguard : (s.vnodeFind path).isSome → accept = true) :
    VnodesOk (s.fileOpen f path fresh accept).1 ∧ SlotFrame s (s.fileOpen f path fresh accept).1 ∧
      if (s.fileOpen f path fresh accept).2 then
        s.vnodeFind path = none → ∃ v, ((s.fileOpen f path fresh accept).1.file f).vnode = some v ∧
          ((s.fileOpen f path fresh accept).1.vnode v).refCount = 1
      else ((s.fileOpen f path fresh accept).1.file f).vnode = none := by
  have hfree : ∀ w, ¬ s.Refers w f := fun w hw => by simp [hw.2] at hnone
  unfold Files.fileOpen
  cases hfind : s.vnodeFind path with
  | some v =>
    rw [hfind] at hguard
    have hin : v ∈ s.table := mem_of_find?_eq_some hfind
    rw [hguard rfl]
    simp only [fileOpened]
    refine ⟨h.attach hfree (f := f) ⟨?_, ?_⟩ (fun w g hg => ?_)
      (fun w hw => update_of_ne hw ..) ?_ (.inl ⟨hin, rfl, ?_⟩), ?_, by simp⟩
    · simpa [Files.setFile] using hlive
    · simp [Files.setFile]
    · simp [Files.Refers, Files.setFile, addRef, setVnode, update_of_ne hg]
    · simpa [Files.setFile, addRef, setVnode] using (h.counted v hin).1
    · simp [Files.setFile, addRef, setVnode]
    · exact slotFrame_setFile rfl rfl rfl
  | none =>
    cases fresh with
    | none => exact ⟨h, ⟨rfl, rfl, fun _ => ⟨rfl, rfl⟩⟩, by simpa using hnone⟩
    | some v =>
      have hout : v ∉ s.table := fun hv => by
        have hlive' := (h.counted v hv).1
        rw [hdead v rfl] at hlive'
        cases hlive'
      cases accept with
      | true =>
        simp only [fileOpened]
        refine ⟨h.attach hfree (f := f) ⟨?_, ?_⟩ (fun w g hg => ?_)
          (fun w hw => update_of_ne hw ..) ?_ (.inr ⟨hout, rfl, ?_⟩), ?_, fun _ => ⟨v, ?_, ?_⟩⟩
        case refine_3 => simp [Files.Refers, Files.setFile, setVnode, update_of_ne hg]
        case refine_6 => exact slotFrame_setFile rfl rfl rfl
        all_goals simp [Files.setFile, setVnode, hlive]
      | false =>
        simp only [fileOpened, Bool.false_eq_true, if_false, addRef, Files.setFile,
          setVnode, update_self, Int.add_right_neg, if_true, Files.dropVnode, update_idem, erase_cons_head]
        exact ⟨h.setFile rfl (fun w => by simp [Files.Refers, hnone]) rfl
          fun w hw => update_of_ne (ne_of_mem_of_not_mem hw hout) .., slotFrame_setFile rfl rfl rfl, trivial⟩

/-- `open` of a path that is not open, or that the file system accepts. -/
theorem Inv.openCall {file : Option F} (h : Inv s) (hfile : ∀ f ∈ file, (s.file f).live = false)
    (hfresh : ∀ v ∈ fresh, (s.vnode v).live = false) (hguard : (s.vnodeFind path).isSome → accept = true) :
    Inv (s.openCall fdMax grow file path fresh accept) := by
  unfold Files.openCall
  cases halloc : s.slotAlloc fdMax stdioOffset grow with
  | none => exact h
  | some slot =>
    obtain ⟨fd, t⟩ := slot
    obtain ⟨hinv, ht, hlt, hempty⟩ := h.slotAlloc halloc
    cases file with
    | none => exact hinv
    | some f =>
      have hdead : (t.file f).live = false := by
        rw [ht]
        exact hfile f rfl
      have hzero : HasCount (fun i => t.fds i = some f) 0 := .of_forall_not fun i hi => by
        simp [hinv.opened i f hi] at hdead
      have hslots := hinv.toSlotsOk.take (x := ⟨1, none, true⟩) hlt hempty rfl ⟨0, rfl, hzero⟩
      have hvnodes : VnodesOk { t.setFile f ⟨1, none, true⟩ with fds := update t.fds fd (some f) } :=
        hinv.toVnodesOk.setFile rfl (fun w => by simp [Files.Refers, hdead]) rfl fun _ _ => rfl
      have hfind : vnodeFind { t.setFile f ⟨1, none, true⟩ with
          fds := update t.fds fd (some f) } path = s.vnodeFind path := by
        rw [ht]
        rfl
      obtain ⟨hopen, hframe, hnone⟩ := hvnodes.fileOpen f path fresh accept
        (by simp [Files.setFile]) (by simp [Files.setFile])
        (fun v hv => by rw [ht]; exact hfresh v hv) (by rw [hfind]; exact hguard)
      have hrest := hslots.frame hframe
      dsimp only
      revert hopen hframe hnone hrest
      generalize Files.fileOpen _ f path fresh accept = r
      obtain ⟨r, ok⟩ := r
      intro hopen hframe hnone hrest
      cases ok with
      | true => exact ⟨hopen, hrest⟩
      | false =>
        refine Inv.fdRelease (f := f) ⟨hopen, hrest⟩ ?_ fun _ v hv => ?_
        · rw [hframe.fds]
          exact update_self ..
        · cases hnone.symm.trans hv

theorem Inv.closeCall (h : Inv s) (hclose : s.closeCall fd closed = some t) : Inv t := by
  unfold Files.closeCall at hclose
  split_ifs at hclose
  · split at hclose
    · cases hclose
      exact h
    next f hf =>
      obtain ⟨⟨r, ok⟩, hr, rfl⟩ := map_eq_some_iff.mp hclose
      obtain ⟨hvnodes, hframe, hkeep⟩ := h.toVnodesOk.fileClose (h.opened fd f hf) hr
      exact Inv.fdRelease ⟨hvnodes, h.toSlotsOk.frame hframe⟩ (hframe.fds ▸ hf) hkeep
  · cases hclose
    exact h

/-- Dropping the last reference to a file leaves the descriptor table alone. -/
theorem freeFile_fds (s : Files V F) (f : F) :
    (s.freeFile f).fds = s.fds ∧ (s.freeFile f).maxfd = s.maxfd := by
  unfold freeFile
  cases (s.file f).vnode with
  | none => exact ⟨rfl, rfl⟩
  | some v =>
    dsimp only
    split_ifs <;> exact ⟨rfl, rfl⟩

/-- A released slot is free. -/
theorem fdRelease_fds (hlt : fd < s.maxfd) (hslot : s.fds fd = some f) :
    (s.fdRelease fd).fds = update s.fds fd none ∧ (s.fdRelease fd).maxfd = s.maxfd := by
  unfold Files.fdRelease
  rw [hslot]
  dsimp only
  split_ifs
  · exact freeFile_fds _ f
  · exact ⟨rfl, rfl⟩

/-- `sys_dup2`. -/
theorem Inv.dup2 {oldfd newfd : ℕ} (h : Inv s)
    (hdup : s.dup2 fdMax oldfd newfd grow closed = some t) : Inv t := by
  unfold Files.dup2 at hdup
  split_ifs at hdup
  · cases hold : s.fds oldfd with
    | none =>
      rw [hold] at hdup
      cases hdup
      exact h
    | some f =>
      cases hexp : s.slotExpand fdMax newfd grow with
      | none =>
        rw [hold, hexp] at hdup
        cases hdup
        exact h
      | some r =>
        rw [hold, hexp] at hdup
        dsimp only at hdup
        obtain ⟨hinv, hr, hlt⟩ := h.slotExpand hexp
        have hold' : r.fds oldfd = some f := by
          rw [hr]
          exact hold
        cases hnew : r.fds newfd with
        | none =>
          rw [hnew] at hdup
          cases hdup
          exact hinv.share (hinv.opened oldfd f hold') hlt hnew
        | some g =>
          rw [hnew] at hdup
          dsimp only at hdup
          split_ifs at hdup with hsame
          · cases hdup
            exact hinv
          · obtain ⟨⟨u, ok⟩, hclose, rfl⟩ := map_eq_some_iff.mp hdup
            obtain ⟨hvnodes, hframe, hkeep⟩ :=
              hinv.toVnodesOk.fileClose (hinv.opened newfd g hnew) hclose
            have hu : Inv u := ⟨hvnodes, hinv.toSlotsOk.frame hframe⟩
            have hnew' : u.fds newfd = some g := hframe.fds ▸ hnew
            have hlt' : newfd < u.maxfd := hframe.maxfd ▸ hlt
            obtain ⟨hfds, hmax⟩ := fdRelease_fds hlt' hnew'
            have hrel : Inv (u.fdRelease newfd) := hu.fdRelease hnew' hkeep
            have hother : oldfd ≠ newfd := fun heq => by
              rw [heq, hnew] at hold'
              exact hsame (some.inj hold')
            split_ifs
            · refine hrel.share (hrel.opened oldfd f ?_) (hmax ▸ hlt') ?_
              · rw [hfds, update_of_ne hother, hframe.fds]
                exact hold'
              · rw [hfds]
                exact update_self ..
            · exact hu
  · cases hdup
    exact h

/-- A refused open of a path with a vnode gives the reference back and leaves the file's pointer. -/
theorem fileOpen_refused (hfind : s.vnodeFind path = some v) (hne : (s.vnode v).refCount ≠ 0) :
    s.fileOpen f path fresh false = (s.setFile f { s.file f with vnode := some v }, false) := by
  have hback : (s.vnode v).refCount + 1 + -1 = (s.vnode v).refCount := by omega
  simp [Files.fileOpen, hfind, fileOpened, addRef, Files.setFile, setVnode, hne]

/-- The path check of `dfs_mount`, on a path that is not open or that is refused. -/
theorem Inv.mountCheck (h : Inv s) (hdead : (s.file f).live = false)
    (hfresh : ∀ v ∈ fresh, (s.vnode v).live = false)
    (hguard : path = "/".toList ∨ path = "/dev".toList ∨ ((s.vnodeFind path).isSome → accept = false))
    (hmount : s.mountCheck f path fresh accept closed = some t) : Inv t := by
  have hstart : VnodesOk (s.setFile f ⟨1, none, true⟩) :=
    h.toVnodesOk.setFile rfl (fun w => by simp [Files.Refers, hdead]) rfl fun _ _ => rfl
  unfold Files.mountCheck at hmount
  split_ifs at hmount with hroot
  · cases hmount
    exact h
  · cases hfind : s.vnodeFind path with
    | some v =>
      have hin : v ∈ s.table := mem_of_find?_eq_some hfind
      obtain ⟨-, n, hn, -⟩ := h.counted v hin
      have hrefused : accept = false := by
        rcases hguard with hg | hg | hg
        · exact absurd (.inl hg) hroot
        · exact absurd (.inr hg) hroot
        · exact hg (by rw [hfind]; rfl)
      have hne : ((s.setFile f ⟨1, none, true⟩).vnode v).refCount ≠ 0 := by
        change (s.vnode v).refCount ≠ 0
        omega
      rw [hrefused, fileOpen_refused (s := s.setFile f ⟨1, none, true⟩) hfind hne] at hmount
      cases hmount
      refine h.mountDone hdead (slotFrame_setFile rfl rfl rfl) ?_
      simp only [Files.setFile, update_idem]
      exact h.toVnodesOk.setFile rfl (fun w => by simp [Files.Refers, hdead]) rfl fun _ _ => rfl
    | none =>
      obtain ⟨hopen, hframe, hdone⟩ := hstart.fileOpen f path fresh accept
        (by simp [Files.setFile]) (by simp [Files.setFile]) hfresh
        (fun hsome => by simp [show (s.setFile f ⟨1, none, true⟩).vnodeFind path = none from hfind] at hsome)
      revert hopen hframe hdone hmount
      generalize Files.fileOpen _ f path fresh accept = r
      obtain ⟨r, ok⟩ := r
      intro hmount hopen hframe hdone
      cases ok with
      | false =>
        cases hmount
        exact h.mountDone hdead hframe (hopen.setFile rfl (fun w => by
          simp [Files.Refers, show (r.file f).vnode = none from hdone]) rfl fun _ _ => rfl)
      | true =>
        obtain ⟨v, hv, hone⟩ : ∃ v, (r.file f).vnode = some v ∧ (r.vnode v).refCount = 1 := hdone hfind
        have hcount : (r.file f).refCount = 1 := by
          rw [(hframe.file f).2]
          simp [Files.setFile]
        obtain ⟨⟨u, ok⟩, hclose, rfl⟩ := map_eq_some_iff.mp hmount
        have hlive : (r.file f).live = true := by
          rw [(hframe.file f).1]
          simp [Files.setFile]
        obtain ⟨hvnodes, hrest, -⟩ := hopen.fileClose hlive hclose
        simp only [Files.fileClose, if_pos hcount, hv, hone,
          if_true] at hclose
        cases hclose
        exact h.mountDone hdead (hframe.trans hrest) (hvnodes.setFile rfl (fun w => by
          simp [Files.Refers, Files.dropVnode, Files.setFile]) rfl fun _ _ => rfl)

/-- A call that opens no path twice with a refusal, and mounts on no open directory. -/
def Careful (s : Files V F) : Call V F → Prop
  | .open _ _ path _ accept => (s.vnodeFind path).isSome → accept = true
  | .mount _ path _ accept _ =>
    path = "/".toList ∨ path = "/dev".toList ∨ ((s.vnodeFind path).isSome → accept = false)
  | _ => True

instance (s : Files V F) (call : Call V F) : Decidable (Careful s call) := by
  cases call <;> unfold Careful <;> infer_instance

/-- Every such call keeps the counts. -/
theorem Inv.next {call : Call V F} (h : Inv s) (hcareful : Careful s call)
    (hnext : s.next fdMax call = some t) : Inv t := by
  have hunused : ∀ {file : Option F} {fresh : Option V}, Unused s file fresh = true →
      (∀ f ∈ file, (s.file f).live = false) ∧ ∀ v ∈ fresh, (s.vnode v).live = false := by
    simpa [Unused, Option.all_eq_true] using hfree
  cases call with
  | «open» grow file path fresh accept =>
    simp only [Files.next] at hnext
    split_ifs at hnext with hfree
    cases hnext
    exact h.openCall (hunused hfree).1 (hunused hfree).2 hcareful
  | close fd closed => exact h.closeCall hnext
  | dup oldfd grow =>
    cases hnext
    exact h.dup
  | dup2 oldfd newfd grow closed => exact h.dup2 hnext
  | mount file path fresh accept closed =>
    simp only [Files.next] at hnext
    split_ifs at hnext with hfree
    exact h.mountCheck ((hunused hfree).1 file rfl) (hunused hfree).2 hcareful hnext

/-- The vnodes of the table count their files, files refer to allocated vnodes only, and a vnode
without a file is not in the table. -/
def CountsExact (s : Files V F) : Prop :=
  (∀ v ∈ s.table, ∃ n : ℕ, (s.vnode v).refCount = n ∧ HasCount (s.Refers v) n) ∧
    (∀ v f, s.Refers v f → (s.vnode v).live = true) ∧
    ∀ v, (∀ f, ¬ s.Refers v f) → v ∉ s.table

/-- Without a refused open of an open path and without a mount on one, the counts are exact in every
state. -/
theorem vnode_counts_exact {fdMax : ℕ} {s : Files V F}
    (hs : ((fileRuns fdMax V F).guarded Careful).Reachable s) : CountsExact s := by
  have h : Inv s := hs.invariant (fun _ hinit => .of_isInit hinit)
    fun _ _ _ hinv hstep => hinv.next hstep.1 hstep.2
  refine ⟨fun v hv => ?_, fun v f hf => (h.counted v (h.listed v f hf)).1, fun v hnot hv => ?_⟩
  · obtain ⟨-, n, hn, hcount⟩ := h.counted v hv
    exact ⟨n + 1, by simpa using hn, hcount⟩
  · obtain ⟨-, n, -, hcount⟩ := h.counted v hv
    obtain ⟨f, hf⟩ := hcount.exists_of_pos (Nat.succ_pos n)
    exact hnot f hf

/-- Nothing open, and no descriptor table yet. -/
def noFiles : Files (Fin 2) (Fin 3) :=
  ⟨fun _ => ⟨[], 0, false⟩, [], fun _ => ⟨0, none, false⟩, fun _ => none, 0⟩

theorem noFiles_isInit : noFiles.IsInit :=
  ⟨rfl, fun _ => rfl, fun _ => rfl, fun _ => rfl⟩

/-- A path is opened twice, a descriptor is duplicated over the second, and all but one are closed. -/
theorem vnode_counts_exact_dup2 : ∃ s : Files (Fin 2) (Fin 3), CountsExact s ∧
    (s.vnode 0).refCount = 1 ∧ s.table = [0] := by
  obtain ⟨s, hreach, hfacts⟩ : ∃ s, ((fileRuns 16 (Fin 2) (Fin 3)).guarded Careful).Reachable s ∧
      (s.vnode 0).refCount = 1 ∧ s.table = [0] :=
    exists_runGuarded [.open true (some 0) "/d".toList (some 0) true,
      .open true (some 1) "/d".toList (some 1) true, .dup2 3 4 true true, .close 3 true]
      noFiles_isInit
  exact ⟨s, vnode_counts_exact hreach, hfacts⟩

/-- A refused open frees the vnode of another file and leaves it in the table; a mount on an open
directory leaves it counting a file that is gone. -/
theorem vnode_counts_wrong : ∃ s t : Files (Fin 2) (Fin 3),
    (fileRuns 16 (Fin 2) (Fin 3)).Reachable s ∧ s.Refers 0 0 ∧ (s.vnode 0).live = false ∧ s.table = [0] ∧
    (fileRuns 16 (Fin 2) (Fin 3)).Reachable t ∧ t.table = [0] ∧ (t.vnode 0).refCount = 2 ∧
      ∀ f, t.Refers 0 f → f = 0 := by
  have hinit : (fileRuns 16 (Fin 2) (Fin 3)).Reachable noFiles := .init noFiles_isInit
  obtain ⟨s, hs, hrefers, hdead, htable⟩ := hinit.exists_run
    (P := fun s => ((s.file 0).live = true ∧ (s.file 0).vnode = some 0) ∧ (s.vnode 0).live = false ∧
      s.table = [0]) (Files.next 16) [.open true (some 0) "/d".toList (some 0) true,
      .open true (some 1) "/d".toList none false] (fun _ _ _ _ _ h => h)
  obtain ⟨t, ht, hfacts⟩ := hinit.exists_run
    (P := fun t => t.table = [0] ∧ (t.vnode 0).refCount = 2 ∧
      ∀ f, (t.file f).live = true ∧ (t.file f).vnode = some 0 → f = 0) (Files.next 16)
    [.open true (some 0) "/d".toList (some 0) true, .mount 1 "/d".toList none true true]
    (fun _ _ _ _ _ h => h)
  exact ⟨s, t, hs, hrefers, hdead, htable, ht, hfacts⟩

end RtThread.Dfs
