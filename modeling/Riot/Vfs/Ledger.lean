import Riot.Lib.Ledger
import Riot.Lib.Runs
import Riot.Vfs.Vfs

/-!
# Who holds a mount

`open_files` of a mount is the sum of what the open files, the open directory streams and
the calls in progress hold of it, as long as no two calls work on one file or one stream at
the same time, no call opens a stream that is open or uses one whose opening failed, and
no `vfs_opendir` meets a driver without directories.
-/

namespace Riot.Vfs

open Riot.Lib Function World

variable {M D : Type} {N n : Nat} {cfg : M → Mount} {w w' : World M D N n} {t t' : Fin n} {pc pc' : Pc M D N} {m mp : M}
  {fd : Fin N} {entry : FdEntry M} {dir : D} {d : Dir M} {caller : Caller M D} {ret res : Int}
  {stale : Option M} {name : Path}

/-! ## Who works on what -/

/-- The file a call works on. -/
def Pc.usesFd : Pc M D N → Option (Fin N)
  | .openDriver fd | .closeDriver fd | .freeCount fd _ | .freeMark fd _ => some fd
  | _ => none

def Caller.usesDir : Caller M D → Option D
  | .iterateClosed dir _ => some dir
  | _ => none

/-- The stream a call works on. -/
def Pc.usesDir : Pc M D N → Option D
  | .opendirFind dir _ _ | .opendirInit dir _ _ | .opendirDriver dir _ _
  | .closedirCheck dir _ | .closedirDriver dir _ _ | .closedirClear dir _ _ _
  | .iterateNext dir | .iterateHold dir _ => some dir
  | .put _ _ caller => caller.usesDir
  | _ => none

/-- The driver of a mount has directories. -/
def Mount.hasDirs (mount : Mount) : Prop := (mount.fs.bind FileSystem.dOp).isSome = true

/-- The stream has a mount exactly while it is open. -/
def Dir.Sound (d : Dir M) : Prop := d.isOpen = d.mp.isSome

/-- The stream that an iteration closes is the one it opens next. -/
def Caller.On (dir : D) : Caller M D → Prop
  | .iterateClosed dir' _ => dir' = dir
  | _ => True

/-- `vfs_opendir` was called by the user, or last in an iteration. -/
def Caller.Opens : Caller M D → Prop
  | .user | .iterateOpened _ => True
  | _ => False

/-- An iteration opens a stream that is closed. -/
def Caller.Ok (dirs : D → Dir M) : Caller M D → Prop
  | .iterateClosed dir _ => (dirs dir).isOpen = false
  | _ => True

/-- What a call in progress knows of the file or the stream that it works on. -/
def Pc.Ok (cfg : M → Mount) (fds : Fin N → FdEntry M) (dirs : D → Dir M) : Pc M D N → Prop
  | .openDriver fd | .closeDriver fd | .freeCount fd _ =>
    (fds fd).used = true ∧ (fds fd).counted = true
  | .freeMark fd _ => (fds fd).used = true ∧ (fds fd).counted = false
  | .opendirFind dir _ caller => (dirs dir).isOpen = false ∧ caller.Opens
  | .opendirInit dir mp caller => (dirs dir).isOpen = false ∧ caller.Opens ∧ (cfg mp).hasDirs
  | .opendirDriver dir mp caller =>
    (dirs dir).isOpen = false ∧ (dirs dir).mp = some mp ∧ caller.Opens
  | .closedirCheck dir caller => (dirs dir).Sound ∧ caller.On dir
  | .closedirDriver dir mp caller | .closedirClear dir mp _ caller =>
    (dirs dir).isOpen = true ∧ (dirs dir).mp = some mp ∧ caller.On dir
  | .put _ _ caller => caller.Ok dirs
  | .iterateNext dir | .iterateHold dir _ => (dirs dir).Sound
  | _ => True

/-- A step keeps to the rules: a stream that a call is given is not in use by another; it is
closed if it is to be opened, and opening it has not failed before if it is to be closed
or iterated; a directory is opened where the driver has directories; a file that is to be
closed is not being opened or closed by another call. -/
def World.Orderly (cfg : M → Mount) (w : World M D N n) : Event M D N n → Prop
  | .call _ (.opendir (some dir) (some _)) =>
    (w.dirs dir).isOpen = false ∧ ∀ t, (w.pc t).usesDir ≠ some dir
  | .call _ (.closedir (some dir)) | .call _ (.iterateMountDirs dir) =>
    (w.dirs dir).Sound ∧ ∀ t, (w.pc t).usesDir ≠ some dir
  | .progress t _ _ =>
    match w.pc t with
    | .opendirFind _ name _ => ∀ mp ∈ findMount cfg w name, (cfg mp).hasDirs
    | .closeCheck fd => ∀ fd' : Fin N, fd'.val = fd → ∀ t, (w.pc t).usesFd ≠ some fd'
    | _ => True
  | _ => True

/-! ## Where a call goes on -/

@[simp] theorem resume_usesDir : (caller.resume cfg ret : Pc M D N).usesDir = caller.usesDir := by
  cases caller <;> rfl

@[simp] theorem resume_usesFd : (caller.resume cfg ret : Pc M D N).usesFd = none := by
  cases caller <;> rfl

variable {dirs : D → Dir M} {fds : Fin N → FdEntry M}

theorem resume_ok (h : caller.Ok dirs) : (caller.resume cfg ret : Pc M D N).Ok cfg fds dirs := by
  cases caller with
  | user => exact True.intro
  | iterateEnd => exact True.intro
  | iterateClosed dir next => exact ⟨h, True.intro⟩
  | iterateOpened next => exact True.intro

theorem Caller.Opens.usesDir (h : caller.Opens) : caller.usesDir = none := by
  cases caller with
  | user => rfl
  | iterateOpened next => rfl
  | iterateEnd => exact absurd h id
  | iterateClosed dir next => exact absurd h id

theorem Caller.Opens.ok (h : caller.Opens) : caller.Ok dirs := by
  cases caller with
  | user => exact True.intro
  | iterateOpened next => exact True.intro
  | iterateEnd => exact True.intro
  | iterateClosed dir next => exact absurd h id

theorem Caller.On.usesDir (h : caller.On dir) : ∀ dir', caller.usesDir = some dir' → dir' = dir := by
  intro dir' huses
  cases caller with
  | iterateClosed dir'' next => exact (Option.some.inj huses).symm.trans h
  | user => cases huses
  | iterateEnd => cases huses
  | iterateOpened next => cases huses

theorem Caller.On.ok (h : caller.On dir) (hclosed : (dirs dir).isOpen = false) : caller.Ok dirs := by
  cases caller with
  | iterateClosed dir' next => exact (show dir' = dir from h) ▸ hclosed
  | user => exact True.intro
  | iterateEnd => exact True.intro
  | iterateOpened next => exact True.intro

/-! ## What the others see -/

theorem Pc.Ok.update_fd (h : pc.Ok cfg fds dirs)
    (huses : pc.usesFd ≠ some fd) : pc.Ok cfg (update fds fd entry) dirs := by
  cases pc with
  | openDriver fd' | closeDriver fd' | freeCount fd' ret | freeMark fd' ret =>
    have hne : fd' ≠ fd := fun heq => huses (congrArg some heq)
    simpa only [Pc.Ok, update_of_ne hne] using h
  | _ => exact h

theorem Pc.Ok.update_dir [DecidableEq D] (h : pc.Ok cfg fds dirs)
    (huses : pc.usesDir ≠ some dir) : pc.Ok cfg fds (update dirs dir d) := by
  cases pc with
  | opendirFind dir' | opendirInit dir' | opendirDriver dir' | closedirCheck dir'
  | closedirDriver dir' | closedirClear dir' | iterateNext dir' | iterateHold dir' =>
    have hne : dir' ≠ dir := fun heq => huses (congrArg some heq)
    simpa only [Pc.Ok, update_of_ne hne] using h
  | put mp ret caller =>
    cases caller with
    | iterateClosed dir' next =>
      have hne : dir' ≠ dir := fun heq => huses (congrArg some heq)
      simpa only [Pc.Ok, Caller.Ok, update_of_ne hne] using h
    | _ => exact h
  | _ => exact h

/-- What is used by one thread alone stays so when a thread turns to what no other uses. -/
theorem alone_update {R : Type} {u : Pc M D N → Option R}
    (h : ∀ t t' x, t' ≠ t → u (w.pc t) = some x → u (w.pc t') ≠ some x)
    (hnew : ∀ x, u pc = some x → ∀ t' ≠ t, u (w.pc t') ≠ some x) {t1 t2 : Fin n} {x : R} (hne : t2 ≠ t1)
    (huses : u (update w.pc t pc t1) = some x) : u (update w.pc t pc t2) ≠ some x := by
  by_cases h1 : t1 = t
  · subst h1
    rw [update_self] at huses
    rw [update_of_ne hne]
    exact hnew x huses t2 hne
  · rw [update_of_ne h1] at huses
    by_cases h2 : t2 = t
    · subst h2
      rw [update_self]
      exact fun hpc => hnew x hpc t1 h1 huses
    · rw [update_of_ne h2]
      exact h t1 t2 x hne huses

/-- A call goes on from `pc` to `pc'`, and works on nothing that it did not work on before. -/
structure Pc.Goes (cfg : M → Mount) (w : World M D N n) (pc pc' : Pc M D N) : Prop where
  ok : pc.Ok cfg w.fds w.dirs → pc'.Ok cfg w.fds w.dirs
  fd : ∀ fd, pc'.usesFd = some fd → pc.usesFd = some fd
  dir : ∀ dir, pc'.usesDir = some dir → pc.usesDir = some dir
  unmarked : ∀ fd ret, pc ≠ .freeMark fd ret

variable [DecidableEq M]

/-! ## What is held -/

/-- One hold of `mp`, as seen by `m`. -/
def hold (mp m : M) : Nat := if mp = m then 1 else 0

/-- The file is open on `m`. -/
def FdEntry.OpenOn (m : M) (entry : FdEntry M) : Prop :=
  entry.used = true ∧ entry.mp = some m

/-- The stream is open on `m`. -/
def Dir.OpenOn (m : M) (d : Dir M) : Prop := d.isOpen = true ∧ d.mp = some m

instance : DecidablePred (FdEntry.OpenOn m) := fun _ => inferInstanceAs (Decidable (_ ∧ _))

instance : DecidablePred (Dir.OpenOn m) := fun _ => inferInstanceAs (Decidable (_ ∧ _))

def FdEntry.holds (m : M) (entry : FdEntry M) : Nat :=
  if entry.OpenOn m ∧ entry.counted = true then 1 else 0

def Dir.holds (m : M) (d : Dir M) : Nat := if d.OpenOn m then 1 else 0

def Caller.holds (m : M) : Caller M D → Nat
  | .iterateClosed _ next | .iterateOpened next => hold next m
  | .user | .iterateEnd => 0

/-- What a call in progress holds of `m`, and gives back or hands over on its way. -/
def Pc.holds (m : M) : Pc M D N → Nat
  | .openInit mp | .fsDriver _ mp | .renameTo mp _ => hold mp m
  | .opendirInit _ mp caller | .opendirDriver _ mp caller | .put mp _ caller =>
    hold mp m + caller.holds m
  | .opendirFind _ _ caller | .closedirCheck _ caller | .closedirDriver _ _ caller
  | .closedirClear _ _ _ caller => caller.holds m
  | .put2 mp mpTo _ | .renameDriver mp mpTo => hold mp m + hold mpTo m
  | _ => 0

@[simp] theorem resume_holds : (caller.resume cfg ret : Pc M D N).holds m = caller.holds m := by
  cases caller <;> rfl

/-! ## Taking and giving back -/

theorem get_eq_some {w1 : World M D N n} (h : w.get mp = some w1) : w.openFiles mp < 2 ^ 16 - 1 ∧
      w1 = { w with openFiles := update w.openFiles mp (w.openFiles mp + 1) } := by
  unfold World.get at h
  split at h
  · exact ⟨‹_›, (Option.some.inj h).symm⟩
  · cases h

theorem get_openFiles {w1 : World M D N n} (h : w.get mp = some w1) (m : M) :
    w1.openFiles m = w.openFiles m + hold mp m := by
  obtain ⟨-, rfl⟩ := get_eq_some h
  unfold hold
  by_cases hm : mp = m
  · subst hm
    simp
  · rw [if_neg hm, add_zero]
    exact update_of_ne (fun heq => hm heq.symm) _ _

theorem put_openFiles (hpos : 0 < w.openFiles mp) (hsmall : w.openFiles mp < 2 ^ 16) (m : M) :
    (w.put mp).openFiles m + hold mp m = w.openFiles m := by
  unfold hold put
  by_cases hm : mp = m
  · subst hm
    simp only [update_self, if_true]
    omega
  · rw [if_neg hm, add_zero]
    exact update_of_ne (fun heq => hm heq.symm) _ _

theorem put_openFiles_lt (hsmall : ∀ m, w.openFiles m < 2 ^ 16) (m : M) :
    (w.put mp).openFiles m < 2 ^ 16 := by
  unfold put
  by_cases hm : m = mp
  · subst hm
    simp only [update_self]
    exact Nat.mod_lt _ (by omega)
  · simp only [update_of_ne hm]
    exact hsmall m

theorem holds_of_counted (hused : entry.used = true) (hcounted : entry.counted = true)
    (hmp : entry.mp = some mp) : entry.holds m = hold mp m := by
  unfold FdEntry.holds hold
  by_cases hm : mp = m
  · rw [if_pos hm]
    exact if_pos ⟨⟨hused, hm ▸ hmp⟩, hcounted⟩
  · rw [if_neg hm]
    exact if_neg fun hon => hm (Option.some.inj (hmp.symm.trans hon.1.2))

theorem holds_of_not_counted (hnot : ¬(entry.used = true ∧ entry.counted = true)) :
    entry.holds m = 0 := if_neg fun h => hnot ⟨h.1.1, h.2⟩

theorem holds_of_no_mp (hmp : entry.mp = none) : entry.holds m = 0 :=
  if_neg fun h => Option.some_ne_none m (h.1.2.symm.trans hmp)

theorem holds_of_isOpen (hopen : d.isOpen = true) (hmp : d.mp = some mp) : d.holds m = hold mp m := by
  unfold Dir.holds hold
  by_cases hm : mp = m
  · rw [if_pos hm]
    exact if_pos ⟨hopen, hm ▸ hmp⟩
  · rw [if_neg hm]
    exact if_neg fun hon => hm (Option.some.inj (hmp.symm.trans hon.2))

theorem holds_of_closed (hclosed : d.isOpen = false) : d.holds m = 0 :=
  if_neg fun h => Bool.false_ne_true (hclosed.symm.trans h.1)

variable [Fintype D]

/-- What the open files and streams hold of `m`. -/
def World.openOn (w : World M D N n) (m : M) : Nat :=
  (∑ fd, (w.fds fd).holds m) + ∑ dir, (w.dirs dir).holds m

theorem setFd_openOn : (w.setFd fd entry).openOn m + (w.fds fd).holds m = w.openOn m + entry.holds m := by
  have hsum := sum_update_add (f := w.fds) (g := FdEntry.holds m) (i := fd) (x := entry)
  unfold openOn setFd
  dsimp only
  omega

theorem setDir_openOn [DecidableEq D] : (w.setDir dir d).openOn m + (w.dirs dir).holds m = w.openOn m + d.holds m := by
  have hsum := sum_update_add (f := w.dirs) (g := Dir.holds m) (i := dir) (x := d)
  unfold openOn setDir
  dsimp only
  omega

/-- The invariant of orderly runs. -/
structure World.Inv (cfg : M → Mount) (w : World M D N n) : Prop where
  balance : ∀ m, w.openFiles m = w.openOn m + ∑ t, (w.pc t).holds m
  small : ∀ m, w.openFiles m < 2 ^ 16
  ok : ∀ t, (w.pc t).Ok cfg w.fds w.dirs
  aloneFd : ∀ t t' fd, t' ≠ t → (w.pc t).usesFd = some fd → (w.pc t').usesFd ≠ some fd
  aloneDir : ∀ t t' dir, t' ≠ t → (w.pc t).usesDir = some dir → (w.pc t').usesDir ≠ some dir
  freed : ∀ fd, (w.fds fd).used = true → (w.fds fd).counted = false →
    ∃ t ret, w.pc t = .freeMark fd ret

/-! ## One thread moves -/

/-- Thread `t` goes on at `pc`, and what the files and streams hold, what the thread holds and
the counters change by the same. -/
theorem World.Inv.move (inv : w.Inv cfg) (balance : ∀ m, w'.openFiles m + w.openOn m + (w.pc t).holds m
      = w.openFiles m + w'.openOn m + pc.holds m)
    (small : ∀ m, w'.openFiles m < 2 ^ 16)
    (ok : pc.Ok cfg w'.fds w'.dirs)
    (others : ∀ t' ≠ t, (w.pc t').Ok cfg w'.fds w'.dirs)
    (aloneFd : ∀ fd, pc.usesFd = some fd → ∀ t' ≠ t, (w.pc t').usesFd ≠ some fd)
    (aloneDir : ∀ dir, pc.usesDir = some dir → ∀ t' ≠ t, (w.pc t').usesDir ≠ some dir)
    (freed : ∀ fd, (w'.fds fd).used = true → (w'.fds fd).counted = false →
      (∃ ret, pc = .freeMark fd ret) ∨ ((w.fds fd).used = true ∧ (w.fds fd).counted = false ∧
        ∀ ret, w.pc t ≠ .freeMark fd ret)) :
    World.Inv cfg { w' with pc := update w.pc t pc } where
  balance m := by
    have hsum := sum_update_add (f := w.pc) (g := Pc.holds m) (i := t) (x := pc)
    have hold := inv.balance m
    have hnew := balance m
    show w'.openFiles m = w'.openOn m + ∑ t', (update w.pc t pc t').holds m
    omega
  small := small
  ok t' := by
    show (update w.pc t pc t').Ok cfg w'.fds w'.dirs
    by_cases ht : t' = t
    · rw [ht, update_self]
      exact ok
    · rw [update_of_ne ht]
      exact others t' ht
  aloneFd _ _ _ := alone_update inv.aloneFd aloneFd
  aloneDir _ _ _ := alone_update inv.aloneDir aloneDir
  freed fd hused hcounted := by
    show ∃ t' ret, update w.pc t pc t' = .freeMark fd ret
    rcases freed fd hused hcounted with ⟨ret, hpc⟩ | ⟨hused, hcounted, hnot⟩
    · exact ⟨t, ret, by rw [update_self, hpc]⟩
    · obtain ⟨t', ret, hpc⟩ := inv.freed fd hused hcounted
      have hne : t' ≠ t := fun heq => hnot ret (heq ▸ hpc)
      exact ⟨t', ret, by rw [update_of_ne hne, hpc]⟩

theorem World.Inv.move_holds (inv : w.Inv cfg) (hpc : w.pc t = pc) (hfds : w'.fds = w.fds)
    (hdirs : w'.dirs = w.dirs) (balance : ∀ m, w'.openFiles m + pc.holds m = w.openFiles m + pc'.holds m)
    (small : ∀ m, w'.openFiles m < 2 ^ 16) (g : pc.Goes cfg w pc') :
    World.Inv cfg { w' with pc := update w.pc t pc' } := by
  subst hpc
  have hopen : ∀ m, w'.openOn m = w.openOn m := by
    intro m
    unfold openOn
    rw [hfds, hdirs]
  refine inv.move ?_ small ?_ ?_ (fun fd huses t' hne => inv.aloneFd t t' fd hne (g.fd fd huses))
    (fun dir huses t' hne => inv.aloneDir t t' dir hne (g.dir dir huses)) ?_
  · intro m
    have := balance m
    have := hopen m
    omega
  · rw [hfds, hdirs]
    exact g.ok (inv.ok t)
  · intro t' hne
    rw [hfds, hdirs]
    exact inv.ok t'
  · rw [hfds]
    exact fun fd hused hcounted => .inr ⟨hused, hcounted, g.unmarked fd⟩

theorem World.Inv.stay (inv : w.Inv cfg) (hpc : w.pc t = pc) (hholds : ∀ m, pc'.holds m = pc.holds m)
    (g : pc.Goes cfg w pc') : World.Inv cfg { w with pc := update w.pc t pc' } :=
  inv.move_holds hpc rfl rfl (fun m => by rw [hholds m]) inv.small g

theorem World.Inv.get (inv : w.Inv cfg) (hpc : w.pc t = pc) (hget : w.get mp = some w')
    (hholds : ∀ m, pc'.holds m = pc.holds m + hold mp m) (g : pc.Goes cfg w pc') :
    World.Inv cfg { w' with pc := update w.pc t pc' } := by
  obtain ⟨hlt, hw'⟩ := get_eq_some hget
  refine inv.move_holds hpc (by rw [hw']) (by rw [hw']) ?_ ?_ g
  · intro m
    have := get_openFiles hget m
    have := hholds m
    omega
  · intro m
    have hget := get_openFiles hget m
    unfold hold at hget
    have := inv.small m
    by_cases hm : mp = m
    · rw [if_pos hm] at hget
      subst hm
      omega
    · rw [if_neg hm] at hget
      omega

theorem World.Inv.openFiles_pos (inv : w.Inv cfg) (hholds : 0 < (w.pc t).holds mp) : 0 < w.openFiles mp := by
  have hle := le_sum (f := w.pc) (g := Pc.holds mp) t
  have := inv.balance mp
  omega

theorem World.Inv.give (inv : w.Inv cfg) (hpc : w.pc t = pc)
    (hholds : ∀ m, pc.holds m = pc'.holds m + hold mp m) (g : pc.Goes cfg w pc') :
    World.Inv cfg { w.put mp with pc := update w.pc t pc' } := by
  have hone : hold mp mp = 1 := if_pos rfl
  have hpos : 0 < w.openFiles mp := inv.openFiles_pos (t := t) (by have := hholds mp; rw [hpc]; omega)
  refine @World.Inv.move_holds _ _ _ _ _ w (w.put mp) t pc pc' _ _ inv hpc rfl rfl ?_ (put_openFiles_lt inv.small) g
  intro m
  have := put_openFiles hpos (inv.small mp) m
  have := hholds m
  omega

end Riot.Vfs
