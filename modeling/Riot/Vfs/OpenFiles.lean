import Riot.Vfs.Ledger

/-!
# Runs of the virtual file system

Every step of a run that keeps to the rules keeps the accounts; between calls
`open_files` of a mount is then the number of files and directory streams open on it.
-/

namespace Riot.Vfs

open Riot.Lib Function Option Nat Bool Finset World

variable {M D : Type} {N n : Nat} [DecidableEq M] [DecidableEq D] [Fintype D]
  {cfg : M → Mount} {w w' : World M D N n} {t t' : Fin n} {m mp mpTo next : M} {fd : Fin N}
  {dir : D} {caller : Caller M D} {ret res : Int} {stale : Option M} {name toPath : Path}
  {op : FsOp} {force : Bool} {r : World M D N n × Pc M D N}

omit [DecidableEq D] [Fintype D] in
theorem find_cases {k : Option M → Pc M D N} (h : w.find cfg name k = some r) :
    (findMount cfg w name = none ∧ r = (w, k none)) ∨
      ∃ mp w1, findMount cfg w name = some mp ∧ w.get mp = some w1 ∧ r = (w1, k (some mp)) := by
  unfold find at h
  split at h
  · cases h
  · split at h
    next hfind => exact .inl ⟨hfind, (some.inj h).symm⟩
    next mp hfind =>
      obtain ⟨w1, hget, hr⟩ := map_eq_some_iff.mp h
      exact .inr ⟨mp, w1, hfind, hget, hr.symm⟩

/-- The next step of `t` keeps the accounts. -/
def World.Keeps (cfg : M → Mount) (w : World M D N n) (t : Fin n) (res : Int) (stale : Option M) : Prop :=
  ∀ r, w.progress cfg res stale (w.pc t) = some r → World.Inv cfg { r.1 with pc := update w.pc t r.2 }

/-- A driver has been called, or nothing that others see. -/
theorem World.Inv.driver (inv : w.Inv cfg) {pc pc' : Pc M D N} (hpc : w.pc t = pc)
    (hstep : w.progress cfg res stale pc = some (w, pc')) (hholds : ∀ m, pc'.holds m = pc.holds m)
    (g : pc.Goes cfg w pc') : w.Keeps cfg t res stale := by
  intro r h
  cases hstep.symm.trans (hpc ▸ h)
  exact inv.stay hpc hholds g

omit [DecidableEq D] in
/-- A mount is looked up. -/
theorem World.Inv.find (inv : w.Inv cfg) {pc : Pc M D N} {k : Option M → Pc M D N} (hpc : w.pc t = pc)
    (h : w.find cfg name k = some r)
    (hnone : (∀ m, (k none).holds m = pc.holds m) ∧ pc.Goes cfg w (k none))
    (hsome : ∀ mp ∈ findMount cfg w name,
      (∀ m, (k (some mp)).holds m = pc.holds m + hold mp m) ∧ pc.Goes cfg w (k (some mp))) :
    World.Inv cfg { r.1 with pc := update w.pc t r.2 } := by
  rcases find_cases h with ⟨-, rfl⟩ | ⟨mp, w1, hfind, hget, rfl⟩
  · exact inv.stay hpc hnone.1 hnone.2
  · obtain ⟨hholds, g⟩ := hsome mp hfind
    exact inv.get hpc hget hholds g

/-! ## `vfs_open` and `vfs_close` -/

theorem World.Inv.openFind (inv : w.Inv cfg) (hpc : w.pc t = .openFind name) : w.Keeps cfg t res stale := by
  intro r h
  rw [hpc, progress] at h
  refine inv.find hpc h ?_ fun _ _ => ?_
  · exact ⟨fun _ => rfl, id, nofun, nofun, nofun⟩
  · exact ⟨fun _ => (zero_add _).symm, id, nofun, nofun, nofun⟩

omit [DecidableEq M] [DecidableEq D] [Fintype D] in
theorem unusedFd_unused (h : w.unusedFd = some fd) : (w.fds fd).used = false := by
  have := List.find?_some h
  simp only [and_eq_true, not_eq_true'] at this
  exact this.2

omit [DecidableEq D] in
theorem World.Inv.unused (inv : w.Inv cfg) (hfree : (w.fds fd).used = false) (t : Fin n) :
    (w.pc t).usesFd ≠ some fd := by
  intro huses
  have hok := inv.ok t
  cases hpc : w.pc t with
  | openDriver fd' | closeDriver fd' | freeCount fd' ret | freeMark fd' ret =>
    rw [hpc] at huses hok
    cases huses
    exact false_ne_true (hfree.symm.trans hok.1)
  | _ =>
    rw [hpc] at huses
    cases huses

omit [DecidableEq D] in
theorem World.Inv.newFd (inv : w.Inv cfg) (hpc : w.pc t = .openInit mp)
    (hfree : (w.fds fd).used = false) {fOp : FileOps} {pc : Pc M D N}
    (hholds : ∀ m, pc.holds m = 0)
    (hok : pc.Ok cfg (w.setFd fd ⟨true, some mp, some fOp, true⟩).fds w.dirs)
    (hfd : ∀ fd', pc.usesFd = some fd' → fd' = fd) (hdir : pc.usesDir = none) :
    World.Inv cfg { w.setFd fd ⟨true, some mp, some fOp, true⟩ with
      pc := update w.pc t pc } := by
  refine inv.move ?_ inv.small hok (fun t' _ => (inv.ok t').update_fd (inv.unused hfree t'))
    (fun fd' huses t' _ => hfd fd' huses ▸ inv.unused hfree t') (hdir ▸ nofun) ?_
  · intro m
    have hset : (w.setFd fd ⟨true, some mp, some fOp, true⟩).openOn m + (w.fds fd).holds m
        = w.openOn m + FdEntry.holds m ⟨true, some mp, some fOp, true⟩ := setFd_openOn
    have hnew : FdEntry.holds m ⟨true, some mp, some fOp, true⟩ = hold mp m :=
      holds_of_counted rfl rfl rfl
    have hnone : (w.fds fd).holds m = 0 :=
      holds_of_not_counted fun hand => false_ne_true (hfree.symm.trans hand.1)
    have hpc0 := hholds m
    rw [hpc]
    show w.openFiles m + w.openOn m + hold mp m
      = w.openFiles m + (w.setFd fd ⟨true, some mp, some fOp, true⟩).openOn m + pc.holds m
    omega
  · intro fd' hused hcounted
    by_cases hfd' : fd' = fd
    · rw [hfd'] at hcounted
      simp [setFd] at hcounted
    · simp only [setFd, update_of_ne hfd'] at hused hcounted
      exact .inr ⟨hused, hcounted, fun _ heq => nomatch hpc.symm.trans heq⟩

theorem World.Inv.openInit (inv : w.Inv cfg) (hpc : w.pc t = .openInit mp) : w.Keeps cfg t res stale := by
  intro r h
  rw [hpc, progress] at h
  split at h
  next => cases h
  next =>
    cases h
    exact inv.stay hpc (fun _ => rfl) ⟨id, nofun, nofun, nofun⟩
  next fs fd hfs hunused =>
    have hfree := unusedFd_unused hunused
    split at h
    next => cases h
    next fOp hfOp =>
      split at h
      · cases h
        refine inv.newFd hpc hfree (fun m => rfl) ?_ (fun fd' huses => (some.inj huses).symm) rfl
        show ((update w.fds fd _) fd).used = true ∧ ((update w.fds fd _) fd).counted = true
        rw [update_self]
        exact ⟨rfl, rfl⟩
      · cases h
        exact inv.newFd hpc hfree (fun m => rfl) True.intro nofun rfl

theorem World.Inv.openDriver (inv : w.Inv cfg) (hpc : w.pc t = .openDriver fd) : w.Keeps cfg t res stale := by
  intro r h
  rw [hpc, progress] at h
  split at h
  · cases h
    exact inv.stay hpc (fun _ => rfl) ⟨id, fun _ => id, nofun, nofun⟩
  · cases h
    exact inv.stay hpc (fun _ => rfl) ⟨fun _ => True.intro, nofun, nofun, nofun⟩

theorem World.Inv.closeCheck (inv : w.Inv cfg) {fd : Nat} (hpc : w.pc t = .closeCheck fd)
    (halone : ∀ fd' : Fin N, fd'.val = fd → ∀ t, (w.pc t).usesFd ≠ some fd') : w.Keeps cfg t res stale := by
  have hidle : ∀ ret, World.Inv cfg { w with pc := update w.pc t (.idle ret) } :=
    fun ret => inv.stay hpc (fun _ => rfl) ⟨id, nofun, nofun, nofun⟩
  intro r h
  rw [hpc, progress] at h
  split at h
  next hlt =>
    split at h
    next hused =>
      have huses := halone ⟨fd, hlt⟩ rfl
      -- the entry is counted: no other call is just freeing it
      have hcounted : (w.fds ⟨fd, hlt⟩).counted = true := by
        by_contra hnot
        obtain ⟨t', ret, hpc'⟩ := inv.freed ⟨fd, hlt⟩ hused (not_eq_true _ ▸ hnot)
        exact huses t' (by rw [hpc']; rfl)
      split at h
      next =>
        cases h
        exact hidle _
      next fOp hfOp =>
        split at h
        all_goals
          cases h
          refine inv.move (fun m => by rw [hpc]; rfl) inv.small ⟨hused, hcounted⟩ (fun t' _ => inv.ok t') ?_
            nofun (fun fd' hused' hcounted' => .inr ⟨hused', hcounted', fun _ heq => nomatch hpc.symm.trans heq⟩)
          exact fun fd' hfd' t' _ => some.inj hfd' ▸ huses t'
    next =>
      cases h
      exact hidle _
  next =>
    cases h
    exact hidle _

omit [DecidableEq D] in
theorem World.Inv.openFiles_pos_of_counted (inv : w.Inv cfg) (hused : (w.fds fd).used = true)
    (hcounted : (w.fds fd).counted = true) (hmp : (w.fds fd).mp = some mp) :
    0 < w.openFiles mp := by
  have hle := le_sum (f := w.fds) (g := FdEntry.holds mp) fd
  have hone : (w.fds fd).holds mp = 1 := (holds_of_counted hused hcounted hmp).trans (if_pos rfl)
  have hbalance := inv.balance mp
  unfold openOn at hbalance
  omega

theorem World.Inv.freeCount (inv : w.Inv cfg) (hpc : w.pc t = .freeCount fd ret) : w.Keeps cfg t res stale := by
  intro r h
  have hok := inv.ok t
  rw [hpc] at h hok
  have hmine : ∀ t' ≠ t, (w.pc t').usesFd ≠ some fd := fun t' hne =>
    inv.aloneFd t t' fd hne (by rw [hpc]; rfl)
  have hset : ∀ m, (w.setFd fd { w.fds fd with counted := false }).openOn m + (w.fds fd).holds m
      = w.openOn m + 0 := by
    intro m
    have hnone : FdEntry.holds m { w.fds fd with counted := false } = 0 :=
      holds_of_not_counted fun hand => false_ne_true hand.2
    rw [← hnone]
    exact setFd_openOn
  have hafter : (update w.fds fd { w.fds fd with counted := false } fd).used = true ∧
      (update w.fds fd { w.fds fd with counted := false } fd).counted = false := by
    rw [update_self]
    exact ⟨hok.1, rfl⟩
  have hfreed : ∀ fd', (update w.fds fd { w.fds fd with counted := false } fd').used = true →
      (update w.fds fd { w.fds fd with counted := false } fd').counted = false →
      (∃ ret', (Pc.freeMark fd ret : Pc M D N) = .freeMark fd' ret') ∨
        ((w.fds fd').used = true ∧ (w.fds fd').counted = false ∧
          ∀ ret', w.pc t ≠ .freeMark fd' ret') := by
    intro fd' hused hcounted
    by_cases hfd' : fd' = fd
    · exact .inl ⟨ret, hfd' ▸ rfl⟩
    · rw [update_of_ne hfd'] at hused hcounted
      exact .inr ⟨hused, hcounted, fun _ heq => nomatch hpc.symm.trans heq⟩
  rw [progress] at h
  split at h
  next hmp =>
    cases h
    refine inv.move ?_ inv.small hafter (fun t' hne => (inv.ok t').update_fd (hmine t' hne))
      (fun fd' huses => some.inj huses ▸ hmine) nofun hfreed
    intro m
    have := hset m
    have : (w.fds fd).holds m = 0 := holds_of_no_mp hmp
    rw [hpc]
    show w.openFiles m + w.openOn m + 0
      = w.openFiles m + (w.setFd fd { w.fds fd with counted := false }).openOn m + 0
    omega
  next mp hmp =>
    cases h
    refine inv.move ?_ (put_openFiles_lt inv.small) hafter
      (fun t' hne => (inv.ok t').update_fd (hmine t' hne)) (fun fd' huses => some.inj huses ▸ hmine)
      nofun hfreed
    intro m
    have hsetm := hset m
    have hheld : (w.fds fd).holds m = hold mp m := holds_of_counted hok.1 hok.2 hmp
    have hput := put_openFiles (inv.openFiles_pos_of_counted hok.1 hok.2 hmp) (inv.small mp) m
    have hsame : ((w.put mp).setFd fd { w.fds fd with counted := false }).openOn m
        = (w.setFd fd { w.fds fd with counted := false }).openOn m := rfl
    rw [hpc]
    show (w.put mp).openFiles m + w.openOn m + 0
      = w.openFiles m + ((w.put mp).setFd fd { w.fds fd with counted := false }).openOn m + 0
    omega

theorem World.Inv.freeMark (inv : w.Inv cfg) (hpc : w.pc t = .freeMark fd ret) : w.Keeps cfg t res stale := by
  intro r h
  have hok := inv.ok t
  rw [hpc] at h hok
  cases h
  refine inv.move ?_ inv.small True.intro
    (fun t' hne => (inv.ok t').update_fd (inv.aloneFd t t' fd hne (by rw [hpc]; rfl))) nofun nofun ?_
  · intro m
    have hset : (w.setFd fd { w.fds fd with used := false }).openOn m + (w.fds fd).holds m
        = w.openOn m + FdEntry.holds m { w.fds fd with used := false } := setFd_openOn
    have hnone : FdEntry.holds m { w.fds fd with used := false } = 0 :=
      holds_of_not_counted fun hand => false_ne_true hand.1
    have hzero : (w.fds fd).holds m = 0 :=
      holds_of_not_counted fun hand => false_ne_true (hok.2.symm.trans hand.2)
    rw [hpc]
    show w.openFiles m + w.openOn m + 0
      = w.openFiles m + (w.setFd fd { w.fds fd with used := false }).openOn m + 0
    omega
  · intro fd' hused hcounted
    by_cases hfd' : fd' = fd
    · rw [hfd'] at hused
      simp [setFd] at hused
    · simp only [setFd, update_of_ne hfd'] at hused hcounted
      refine .inr ⟨hused, hcounted, fun ret' heq => hfd' ?_⟩
      have := hpc.symm.trans heq
      cases this
      rfl

/-! ## `vfs_opendir` and `vfs_closedir` -/

theorem World.Inv.opendirFind (inv : w.Inv cfg) (hpc : w.pc t = .opendirFind dir name caller)
    (hdirs : ∀ mp ∈ findMount cfg w name, (cfg mp).hasDirs) : w.Keeps cfg t res stale := by
  have hok := inv.ok t
  rw [hpc] at hok
  intro r h
  rw [hpc, progress] at h
  refine inv.find hpc h ?_ fun mp hfind => ?_
  · exact ⟨fun _ => resume_holds, fun hok => resume_ok hok.2.ok, by simp, fun dir' => by simp [hok.2.usesDir], nofun⟩
  · exact ⟨fun _ => add_comm _ _, fun hok => ⟨hok.1, hok.2, hdirs mp hfind⟩, nofun, fun _ => id, nofun⟩

theorem World.Inv.moveDir (inv : w.Inv cfg) {pc : Pc M D N} (hpc : w.pc t = pc) (huses : pc.usesDir = some dir)
    {d : Dir M} {pc' : Pc M D N} (balance : ∀ m, pc.holds m + (w.dirs dir).holds m = d.holds m + pc'.holds m)
    (hok : pc'.Ok cfg w.fds (w.setDir dir d).dirs) (hfd : pc'.usesFd = none)
    (hdir : ∀ dir', pc'.usesDir = some dir' → dir' = dir) (unmarked : ∀ fd ret, pc ≠ .freeMark fd ret) :
    World.Inv cfg { w.setDir dir d with pc := update w.pc t pc' } := by
  subst hpc
  have hmine : ∀ t' ≠ t, (w.pc t').usesDir ≠ some dir := fun t' hne => inv.aloneDir t t' dir hne huses
  refine inv.move ?_ inv.small hok (fun t' hne => (inv.ok t').update_dir (hmine t' hne)) (hfd ▸ nofun)
    (fun dir' hdir' => hdir dir' hdir' ▸ hmine) (fun fd hused hcounted => .inr ⟨hused, hcounted, unmarked fd⟩)
  intro m
  have hset : (w.setDir dir d).openOn m + (w.dirs dir).holds m = w.openOn m + d.holds m := setDir_openOn
  have := balance m
  show w.openFiles m + w.openOn m + (w.pc t).holds m
    = w.openFiles m + (w.setDir dir d).openOn m + pc'.holds m
  omega

theorem World.Inv.opendirInit (inv : w.Inv cfg) (hpc : w.pc t = .opendirInit dir mp caller) :
    w.Keeps cfg t res stale := by
  intro r h
  have hok := inv.ok t
  rw [hpc] at hok
  obtain ⟨hclosed, hopens, hhas⟩ := hok
  have hzero : ∀ m, (w.dirs dir).holds m = 0 := fun m => holds_of_closed hclosed
  rw [hpc, progress] at h
  split at h
  next => cases h
  next fs hfs =>
    split at h
    next hdOp =>
      -- the driver of the mount has directories
      unfold Mount.hasDirs at hhas
      rw [hfs, bind_some, hdOp] at hhas
      cases hhas
    next dOp hdOp =>
      split at h
      · cases h
        refine inv.moveDir hpc rfl (fun m => ?_) ⟨?_, ?_, hopens⟩ rfl
          (fun dir' huses' => (some.inj huses').symm) nofun
        · rw [hzero, holds_of_closed rfl]
          exact add_comm _ _
        all_goals
          simp only [setDir, update_self]
      · cases h
        refine inv.moveDir hpc rfl (fun m => ?_) (resume_ok hopens.ok) resume_usesFd
          (fun dir' => by simp [hopens.usesDir]) nofun
        rw [hzero, holds_of_isOpen rfl rfl, resume_holds]
        rfl

theorem World.Inv.opendirDriver (inv : w.Inv cfg) (hpc : w.pc t = .opendirDriver dir mp caller) :
    w.Keeps cfg t res stale := by
  intro r h
  have hok := inv.ok t
  rw [hpc] at hok
  obtain ⟨hclosed, hmp, hopens⟩ := hok
  rw [hpc, progress] at h
  split at h
  · cases h
    exact inv.stay hpc (fun _ => rfl) ⟨fun _ => hopens.ok, nofun, by simp [Pc.usesDir, hopens.usesDir], nofun⟩
  · cases h
    refine inv.moveDir hpc rfl (fun m => ?_) (resume_ok hopens.ok) resume_usesFd
      (fun dir' => by simp [hopens.usesDir]) nofun
    have hnew : Dir.holds m { w.dirs dir with isOpen := true } = hold mp m := holds_of_isOpen rfl hmp
    rw [holds_of_closed hclosed, hnew, resume_holds]
    rfl

theorem World.Inv.closedirCheck (inv : w.Inv cfg) (hpc : w.pc t = .closedirCheck dir caller) :
    w.Keeps cfg t res stale := by
  intro r h
  have hok := inv.ok t
  rw [hpc] at hok
  obtain ⟨hsound, hon⟩ := hok
  unfold Dir.Sound at hsound
  rw [hpc, progress] at h
  split at h
  next hmp =>
    cases h
    rw [hmp] at hsound
    refine inv.stay hpc (fun _ => resume_holds) ⟨fun _ => resume_ok (hon.ok hsound), by simp, ?_, nofun⟩
    intro dir' huses'
    rw [hon.usesDir dir' (resume_usesDir.symm.trans huses')]
    rfl
  next mp hmp =>
    rw [hmp] at hsound
    split at h
    all_goals
      cases h
      exact inv.stay hpc (fun _ => rfl) ⟨fun _ => ⟨hsound, hmp, hon⟩, nofun, fun _ => id, nofun⟩

theorem World.Inv.closedirClear (inv : w.Inv cfg) (hpc : w.pc t = .closedirClear dir mp ret caller) :
    w.Keeps cfg t res stale := by
  intro r h
  have hok := inv.ok t
  rw [hpc] at h hok
  obtain ⟨hopen, hmp, hon⟩ := hok
  cases h
  refine inv.moveDir hpc rfl (fun m => ?_) (hon.ok ?_) rfl hon.usesDir nofun
  · rw [holds_of_isOpen hopen hmp, holds_of_closed rfl, zero_add]
    exact add_comm _ _
  · simp only [setDir, update_self]

/-! ## Giving a mount back -/

theorem World.Inv.put (inv : w.Inv cfg) (hpc : w.pc t = .put mp ret caller) : w.Keeps cfg t res stale := by
  intro r h
  rw [hpc] at h
  cases h
  refine inv.give hpc (fun m => ?_) ⟨resume_ok, by simp, fun dir' huses => resume_usesDir.symm.trans huses, nofun⟩
  rw [resume_holds]
  exact add_comm _ _

theorem World.Inv.put2 (inv : w.Inv cfg) (hpc : w.pc t = .put2 mp mpTo ret) : w.Keeps cfg t res stale := by
  intro r h
  rw [hpc] at h
  cases h
  exact inv.give hpc (fun m => add_comm _ _) ⟨id, nofun, nofun, nofun⟩

/-! ## The calls on file systems -/

theorem World.Inv.fsFind (inv : w.Inv cfg) (hpc : w.pc t = .fsFind op name) : w.Keeps cfg t res stale := by
  intro r h
  rw [hpc, progress] at h
  refine inv.find hpc h ?_ fun mp _ => ?_
  · exact ⟨fun _ => rfl, id, nofun, nofun, nofun⟩
  dsimp only
  split
  · exact ⟨fun _ => (zero_add _).symm, id, nofun, nofun, nofun⟩
  · exact ⟨fun _ => add_comm _ _, id, nofun, nofun, nofun⟩

theorem World.Inv.renameFrom (inv : w.Inv cfg) (hpc : w.pc t = .renameFrom name toPath) :
    w.Keeps cfg t res stale := by
  intro r h
  rw [hpc, progress] at h
  refine inv.find hpc h ?_ fun mp _ => ?_
  · exact ⟨fun _ => rfl, id, nofun, nofun, nofun⟩
  dsimp only
  split
  · exact ⟨fun _ => (zero_add _).symm, id, nofun, nofun, nofun⟩
  · exact ⟨fun _ => add_comm _ _, id, nofun, nofun, nofun⟩

theorem World.Inv.renameTo (inv : w.Inv cfg) (hpc : w.pc t = .renameTo mp toPath) : w.Keeps cfg t res stale := by
  intro r h
  rw [hpc, progress] at h
  refine inv.find hpc h ?_ fun mpTo _ => ?_
  · exact ⟨fun _ => rfl, id, nofun, nofun, nofun⟩
  dsimp only
  split
  all_goals
    exact ⟨fun _ => rfl, id, nofun, nofun, nofun⟩

/-! ## `vfs_iterate_mount_dirs` -/

theorem World.Inv.iterateNext (inv : w.Inv cfg) (hpc : w.pc t = .iterateNext dir) : w.Keeps cfg t res stale := by
  intro r h
  rw [hpc, progress] at h
  split at h
  next => cases h
  next =>
    cases h
    exact inv.stay hpc (fun _ => rfl) ⟨fun hok => ⟨hok, True.intro⟩, nofun, fun _ => id, nofun⟩
  next next _ =>
    cases h
    exact inv.stay hpc (fun _ => rfl) ⟨id, nofun, fun _ => id, nofun⟩

theorem World.Inv.iterateHold (inv : w.Inv cfg) (hpc : w.pc t = .iterateHold dir next) :
    w.Keeps cfg t res stale := by
  intro r h
  rw [hpc] at h
  obtain ⟨w1, hget, rfl⟩ := map_eq_some_iff.mp h
  exact inv.get hpc hget (fun _ => (zero_add _).symm) ⟨fun hok => ⟨hok, rfl⟩, nofun, fun _ => id, nofun⟩

/-! ## `vfs_mount` and `vfs_umount` -/

/-- The calls that mount and unmount. -/
def Pc.Mounts : Pc M D N → Prop
  | .mountCheck _ | .mountDriver _ | .umountCheck _ _ | .umountCount _ _ | .umountDriver _
  | .umountRemove _ => True
  | _ => False

omit [Fintype D] in
theorem progress_mounts {pc : Pc M D N} (hpc : pc.Mounts) (h : w.progress cfg res stale pc = some r) :
    r.1.fds = w.fds ∧ r.1.dirs = w.dirs ∧ r.1.openFiles = w.openFiles ∧
      (∀ m, pc.holds m = 0) ∧ (∀ m, r.2.holds m = 0) ∧ (∀ fds dirs, r.2.Ok cfg fds dirs) ∧
      r.2.usesFd = none ∧ r.2.usesDir = none := by
  cases pc with
  | mountCheck mp | mountDriver mp | umountCheck mp force | umountCount mp force
  | umountDriver mp | umountRemove mp =>
    rw [progress] at h
    repeat' split at h
    all_goals
      cases h <;> exact ⟨rfl, rfl, rfl, fun _ => rfl, fun _ => rfl, fun _ _ => True.intro, rfl, rfl⟩
  | _ => exact absurd hpc id

theorem World.Inv.mounts (inv : w.Inv cfg) (hpc : (w.pc t).Mounts) : w.Keeps cfg t res stale := by
  intro r h
  obtain ⟨hfds, hdirs, hcount, hbefore, hafter, hok, hfd, hdir⟩ := progress_mounts hpc h
  refine inv.move_holds rfl hfds hdirs (fun m => by rw [hcount, hbefore m, hafter m])
    (fun m => by rw [hcount]; exact inv.small m) ⟨fun _ => hok _ _, hfd ▸ nofun, hdir ▸ nofun, ?_⟩
  intro fd ret heq
  rw [heq] at hpc
  exact hpc

/-! ## Runs -/

theorem World.Inv.progress (inv : w.Inv cfg) (hord : w.Orderly cfg (.progress t res stale)) :
    w.Keeps cfg t res stale := by
  cases hpc : w.pc t with
  | idle ret =>
    intro r h
    rw [hpc] at h
    cases h
  | openFind name => exact inv.openFind hpc
  | openInit mp => exact inv.openInit hpc
  | openDriver fd => exact inv.openDriver hpc
  | closeCheck fd =>
    simp only [World.Orderly, hpc] at hord
    exact inv.closeCheck hpc hord
  | closeDriver fd => exact inv.driver hpc rfl (fun _ => rfl) ⟨id, fun _ => id, nofun, nofun⟩
  | freeCount fd ret => exact inv.freeCount hpc
  | freeMark fd ret => exact inv.freeMark hpc
  | opendirFind dir name caller =>
    simp only [World.Orderly, hpc] at hord
    exact inv.opendirFind hpc hord
  | opendirInit dir mp caller => exact inv.opendirInit hpc
  | opendirDriver dir mp caller => exact inv.opendirDriver hpc
  | closedirCheck dir caller => exact inv.closedirCheck hpc
  | closedirDriver dir mp caller => exact inv.driver hpc rfl (fun _ => rfl) ⟨id, nofun, fun _ => id, nofun⟩
  | closedirClear dir mp ret caller => exact inv.closedirClear hpc
  | put mp ret caller => exact inv.put hpc
  | put2 mp mpTo ret => exact inv.put2 hpc
  | fsFind op name => exact inv.fsFind hpc
  | fsDriver op mp => exact inv.driver hpc rfl (fun _ => rfl) ⟨id, nofun, nofun, nofun⟩
  | renameFrom name toPath => exact inv.renameFrom hpc
  | renameTo mp toPath => exact inv.renameTo hpc
  | renameDriver mp mpTo => exact inv.driver hpc rfl (fun _ => rfl) ⟨id, nofun, nofun, nofun⟩
  | iterateNext dir => exact inv.iterateNext hpc
  | iterateHold dir next => exact inv.iterateHold hpc
  | mountCheck mp | mountDriver mp | umountCheck mp force | umountCount mp force
  | umountDriver mp | umountRemove mp => exact inv.mounts (hpc ▸ True.intro)

omit [DecidableEq D] in
theorem World.Inv.call (inv : w.Inv cfg) {c : Call M D N} (hpc : w.pc t = .idle ret)
    (hord : w.Orderly cfg (.call t c)) :
    World.Inv cfg { w with pc := update w.pc t c.start } := by
  -- a call that is given no stream
  have hplain : c.start.Ok cfg w.fds w.dirs → (∀ m, c.start.holds m = 0) →
      c.start.usesFd = none → c.start.usesDir = none →
      World.Inv cfg { w with pc := update w.pc t c.start } :=
    fun hok hholds hfd hdir => inv.stay hpc hholds ⟨fun _ => hok, hfd ▸ nofun, hdir ▸ nofun, nofun⟩
  -- a call that is given a stream that no other call uses
  have hstream : ∀ dir, (∀ t, (w.pc t).usesDir ≠ some dir) → c.start.usesDir = some dir →
      c.start.Ok cfg w.fds w.dirs → (∀ m, c.start.holds m = 0) → c.start.usesFd = none →
      World.Inv cfg { w with pc := update w.pc t c.start } := by
    intro dir hfree huses hok hholds hfd
    refine inv.move (fun m => by rw [hpc, hholds]; rfl) inv.small hok (fun t' _ => inv.ok t') (hfd ▸ nofun) ?_
      (fun fd hused hcounted => .inr ⟨hused, hcounted, fun _ heq => nomatch hpc.symm.trans heq⟩)
    intro dir' hdir' t' _
    rw [some.inj (hdir'.symm.trans huses)]
    exact hfree t'
  cases c with
  | «open» name => cases name <;> exact hplain True.intro (fun _ => rfl) rfl rfl
  | close fd => exact hplain True.intro (fun _ => rfl) rfl rfl
  | opendir dir name =>
    cases dir with
    | none => exact hplain True.intro (fun _ => rfl) rfl rfl
    | some dir =>
      cases name with
      | none => exact hplain True.intro (fun _ => rfl) rfl rfl
      | some name => exact hstream dir hord.2 rfl ⟨hord.1, True.intro⟩ (fun _ => rfl) rfl
  | closedir dir =>
    cases dir with
    | none => exact hplain True.intro (fun _ => rfl) rfl rfl
    | some dir => exact hstream dir hord.2 rfl ⟨hord.1, True.intro⟩ (fun _ => rfl) rfl
  | fs op name => cases name <;> exact hplain True.intro (fun _ => rfl) rfl rfl
  | rename fromPath toPath => cases fromPath <;> cases toPath <;> exact hplain True.intro (fun _ => rfl) rfl rfl
  | iterateMountDirs dir => exact hstream dir hord.2 rfl hord.1 (fun _ => rfl) rfl
  | mount mp => cases mp <;> exact hplain True.intro (fun _ => rfl) rfl rfl
  | umount mp force => cases mp <;> exact hplain True.intro (fun _ => rfl) rfl rfl

theorem World.Inv.step (inv : w.Inv cfg) {e : Event M D N n} (hord : w.Orderly cfg e)
    (h : w.step cfg e = some w') : w'.Inv cfg := by
  cases e with
  | call t c =>
    simp only [World.step] at h
    split at h
    next ret hpc =>
      cases h
      exact inv.call hpc hord
    next => cases h
  | progress t res stale =>
    obtain ⟨r, hr, rfl⟩ := map_eq_some_iff.mp h
    exact inv.progress hord r hr

omit [DecidableEq D] in
theorem inv_init : (init : World M D N n).Inv cfg where
  balance m := by
    have hfds : ∑ fd : Fin N, FdEntry.holds m ((init : World M D N n).fds fd) = 0 :=
      sum_eq_zero fun _ _ => holds_of_not_counted fun hand => nomatch hand.1
    have hdirs : ∑ dir : D, Dir.holds m ((init : World M D N n).dirs dir) = 0 :=
      sum_eq_zero fun _ _ => holds_of_closed rfl
    have hpcs : ∑ t : Fin n, Pc.holds m ((init : World M D N n).pc t) = 0 :=
      sum_eq_zero fun _ _ => rfl
    unfold openOn
    rw [hfds, hdirs, hpcs]
    rfl
  small m := by
    show 0 < 2 ^ 16
    omega
  ok _ := True.intro
  aloneFd _ _ _ _ h := nomatch h
  aloneDir _ _ _ _ h := nomatch h
  freed _ h := nomatch h

/-! ## What the counters say -/

/-- The number of files open on a mount. -/
def World.filesOpen (w : World M D N n) (m : M) : Nat :=
  (Finset.univ.filter fun fd => (w.fds fd).OpenOn m).card

/-- The number of directory streams open on a mount. -/
def World.dirsOpen (w : World M D N n) (m : M) : Nat :=
  (Finset.univ.filter fun dir => (w.dirs dir).OpenOn m).card

/-- No call is in progress, but for that of the threads left out. -/
def World.Quiet (w : World M D N n) (except : Fin n → Prop) : Prop :=
  ∀ t, ¬except t → ∃ ret, w.pc t = .idle ret

/-- The mount whose counter the next step of a call decrements. -/
def Pc.gives (fds : Fin N → FdEntry M) : Pc M D N → Option M
  | .freeCount fd _ => (fds fd).mp
  | .put mp _ _ | .put2 mp _ _ => some mp
  | _ => none

/-- **The accounts are right**: between calls `open_files` is the number of files and streams
open on the mount, no decrement underflows, and `vfs_umount` of a mounted file system fails
with `-EBUSY` exactly if it is not forced and something is open, or held by another call. -/
structure World.Accounted (cfg : M → Mount) (w : World M D N n) : Prop where
  counts : w.Quiet (fun _ => False) → ∀ m, w.openFiles m = w.filesOpen m + w.dirsOpen m
  gives : ∀ t m, (w.pc t).gives w.fds = some m → 0 < w.openFiles m
  busy : ∀ t mp force res stale w', w.pc t = .umountCount mp force → w.Quiet (· = t) →
    w.step cfg (.progress t res stale) = some w' →
    (w'.pc t = .idle (-EBUSY) ↔ force = false ∧ 0 < w.filesOpen mp + w.dirsOpen mp)
  busyHeld : ∀ t mp force res stale w', w.pc t = .umountCount mp force →
    w.step cfg (.progress t res stale) = some w' →
    (w'.pc t = .idle (-EBUSY) ↔ force = false ∧ ((∃ fd, 0 < (w.fds fd).holds mp) ∨
      (∃ dir, (w.dirs dir).OpenOn mp) ∨ ∃ t', 0 < (w.pc t').holds mp))

omit [DecidableEq D] in
theorem World.Inv.openOn_eq (inv : w.Inv cfg) (hfree : ∀ t fd ret, w.pc t ≠ .freeMark fd ret) :
    w.openOn m = w.filesOpen m + w.dirsOpen m := by
  have hcounted : ∀ fd, (w.fds fd).OpenOn m → (w.fds fd).counted = true := by
    intro fd hon
    by_contra hnot
    obtain ⟨t, ret, hpc⟩ := inv.freed fd hon.1 (not_eq_true _ ▸ hnot)
    exact hfree t fd ret hpc
  have hfiles : ∑ fd, (w.fds fd).holds m = w.filesOpen m := by
    unfold filesOpen
    rw [card_filter]
    refine sum_congr rfl fun fd _ => ?_
    unfold FdEntry.holds
    by_cases hon : (w.fds fd).OpenOn m
    · rw [if_pos ⟨hon, hcounted fd hon⟩, if_pos hon]
    · rw [if_neg fun hand => hon hand.1, if_neg hon]
  have hdirs : ∑ dir, (w.dirs dir).holds m = w.dirsOpen m := (card_filter _ _).symm
  unfold openOn
  rw [hfiles, hdirs]

omit [DecidableEq D] in
/-- A mount is counted as open exactly if a file, a stream or a call holds it. -/
theorem World.Inv.openFiles_pos_iff (inv : w.Inv cfg) : 0 < w.openFiles m ↔
    (∃ fd, 0 < (w.fds fd).holds m) ∨ (∃ dir, (w.dirs dir).OpenOn m) ∨
      ∃ t, 0 < (w.pc t).holds m := by
  have hfds := sum_pos_iff (f := w.fds) (g := FdEntry.holds m)
  have hdirs := sum_pos_iff (f := w.dirs) (g := Dir.holds m)
  have hpcs := sum_pos_iff (f := w.pc) (g := Pc.holds m)
  have hdir : ∀ dir, 0 < (w.dirs dir).holds m ↔ (w.dirs dir).OpenOn m := by
    intro dir
    unfold Dir.holds
    by_cases hon : (w.dirs dir).OpenOn m
    · simp [hon]
    · simp [hon]
  have hbalance := inv.balance m
  unfold openOn at hbalance
  rw [← exists_congr hdir, ← hfds, ← hdirs, ← hpcs]
  omega

omit [Fintype D] in
theorem umountCount_busy (hpc : w.pc t = .umountCount mp force)
    (h : w.step cfg (.progress t res stale) = some w') :
    w'.pc t = .idle (-EBUSY) ↔ force = false ∧ 0 < w.openFiles mp := by
  obtain ⟨r, hr, rfl⟩ := map_eq_some_iff.mp h
  rw [hpc, progress] at hr
  show update w.pc t r.2 t = .idle (-EBUSY) ↔ _
  rw [update_self]
  split at hr
  next hbusy =>
    cases hr
    exact ⟨fun _ => hbusy.symm, fun _ => rfl⟩
  next hnot =>
    split at hr
    all_goals
      cases hr
      exact ⟨fun heq => (nomatch heq), fun hand => absurd hand.symm hnot⟩

theorem World.Inv.accounted (inv : w.Inv cfg) : w.Accounted cfg where
  counts hquiet m := by
    have hidle : ∀ t, ∃ ret, w.pc t = .idle ret := fun t => hquiet t id
    have hpcs : ∑ t, (w.pc t).holds m = 0 := by
      refine sum_eq_zero fun t _ => ?_
      obtain ⟨ret, hpc⟩ := hidle t
      rw [hpc]
      rfl
    have hfree : ∀ t fd ret, w.pc t ≠ .freeMark fd ret := by
      intro t fd ret hpc
      obtain ⟨ret', hpc'⟩ := hidle t
      cases hpc.symm.trans hpc'
    rw [inv.balance, hpcs, inv.openOn_eq hfree, add_zero]
  gives t m hgives := by
    have hok := inv.ok t
    cases hpc : w.pc t with
    | freeCount fd ret =>
      rw [hpc] at hok hgives
      exact inv.openFiles_pos_of_counted hok.1 hok.2 hgives
    | put mp ret caller | put2 mp mpTo ret =>
      rw [hpc] at hgives
      obtain rfl := some.inj hgives
      refine inv.openFiles_pos (t := t) ?_
      have hone : hold mp mp = 1 := if_pos rfl
      rw [hpc]
      show 0 < hold mp mp + _
      omega
    | _ =>
      rw [hpc] at hgives
      cases hgives
  busy t mp force res stale w' hpc hquiet h := by
    have hidle : ∀ t', (∃ ret, w.pc t' = .idle ret) ∨ w.pc t' = .umountCount mp force := by
      intro t'
      by_cases ht : t' = t
      · exact .inr (ht ▸ hpc)
      · exact .inl (hquiet t' ht)
    have hpcs : ∑ t', (w.pc t').holds mp = 0 := by
      refine sum_eq_zero fun t' _ => ?_
      rcases hidle t' with ⟨ret, hpc'⟩ | hpc'
      · rw [hpc']
        rfl
      · rw [hpc']
        rfl
    have hfree : ∀ t' fd ret, w.pc t' ≠ .freeMark fd ret := by
      intro t' fd ret hmark
      rcases hidle t' with ⟨ret', hpc'⟩ | hpc'
      · cases hmark.symm.trans hpc'
      · cases hmark.symm.trans hpc'
    rw [umountCount_busy hpc h, inv.balance, hpcs, inv.openOn_eq hfree, add_zero]
  busyHeld t mp force res stale w' hpc h := by
    rw [umountCount_busy hpc h, inv.openFiles_pos_iff]

/-- **Orderly runs keep the accounts.** -/
theorem vfs_accounted (es : List (Event M D N n))
    (h : Along (World.step cfg) (World.Orderly cfg) World.init es) :
    Always (World.step cfg) (World.Accounted cfg) World.init es :=
  always_of_along (fun _ inv => World.Inv.accounted inv)
    (fun _ _ _ inv hord hstep => inv.step hord hstep) es inv_init h

/-- A root file system with files, and with directories or without. -/
def rootMount (dOp : Option DirOps) : Unit → Mount := fun _ =>
  ⟨some ⟨some ⟨true, true⟩, dOp, none⟩, some ['/']⟩

/-- Mounting it, opening a directory stream, and going on for two steps. -/
def openRoot : List (Event Unit Unit 4 1) :=
  [.call 0 (.mount (some ())), .progress 0 0 none,
    .call 0 (.opendir (some ()) (some ['/'])), .progress 0 0 none, .progress 0 0 none]

/-- A stream opened and closed again. -/
theorem vfs_accounted_openRoot :
    Always (World.step (rootMount (some ⟨false, false⟩)))
      (World.Accounted (rootMount (some ⟨false, false⟩))) World.init
      (openRoot ++ [.call 0 (.closedir (some ())), .progress 0 0 none, .progress 0 0 none,
        .progress 0 0 none]) := by
  refine vfs_accounted _ ⟨True.intro, True.intro, ⟨rfl, fun t => ?_⟩, fun mp _ => rfl, True.intro,
    ⟨rfl, fun t => ?_⟩, True.intro, True.intro, True.intro, True.intro⟩
  all_goals
    rw [Subsingleton.elim t 0]
    exact nofun

/-- A driver without directories: `vfs_opendir` fails and keeps its hold on the mount. -/
theorem not_vfs_accounted : ¬Always (World.step (rootMount none)) (World.Accounted (rootMount none))
    World.init openRoot := by
  intro h
  have hrun : (run (World.step (rootMount none)) World.init openRoot).any (fun w =>
      decide (w.pc 0 = .idle (-EINVAL)) && decide (w.openFiles () ≠ w.filesOpen () + w.dirsOpen ()))
        = true := by decide +kernel
  obtain ⟨w, hw, hbad⟩ := (Option.any_eq_true _ _).mp hrun
  simp only [Bool.and_eq_true, decide_eq_true_eq] at hbad
  refine hbad.2 ((h.last hw).counts (fun t _ => ⟨-EINVAL, ?_⟩) ())
  rw [Subsingleton.elim t 0]
  exact hbad.1

end Riot.Vfs
