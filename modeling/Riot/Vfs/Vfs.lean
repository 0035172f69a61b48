import Mathlib

/-!
# The virtual file system

`sys/vfs/vfs.c`: mounts, file descriptors and directory streams, and the calls that
hold a mount while they work on it. A call is a sequence of steps between which other
threads run; a step is what runs under one of the mutexes, one operation on an atomic
counter, or one call into the file system driver, whose result is arbitrary. `none`
is a thread that waits for the mutex, a dereference of `NULL`, or a failed `expect`.
The path that is passed on to the driver is left out.
-/

namespace Riot.Vfs

open Function

abbrev Path := List Char

/-- The operations of `vfs_file_system_ops_t`. -/
inductive FsOp where
  | mount
  | umount
  | rename
  | unlink
  | mkdir
  | rmdir
  | stat
  | statvfs
  deriving DecidableEq

/-- `vfs_file_ops_t`: which of `open` and `close` the driver has. -/
structure FileOps where
  hasOpen : Bool
  hasClose : Bool

/-- `vfs_dir_ops_t` -/
structure DirOps where
  hasOpendir : Bool
  hasClosedir : Bool

/-- `vfs_file_system_t` -/
structure FileSystem where
  fOp : Option FileOps
  dOp : Option DirOps
  fsOp : Option (FsOp → Bool)

/-- What a `vfs_mount_t` is set up with. -/
structure Mount where
  fs : Option FileSystem
  mountPoint : Option Path

/-- The driver of a mount has an operation. -/
def Mount.has (mount : Mount) (op : FsOp) : Bool :=
  match mount.fs.bind FileSystem.fsOp with
  | none => false
  | some ops => ops op

/-- `mountp->mount_point`, its length `mount_point_len`. -/
def Mount.point (mount : Mount) : Path := mount.mountPoint.getD []

def EPERM : Int := 1
def ENOENT : Int := 2
def EBADF : Int := 9
def EBUSY : Int := 16
def EEXIST : Int := 17
def EXDEV : Int := 18
def EINVAL : Int := 22
def ENFILE : Int := 23
def EROFS : Int := 30

/-- What a call returns if the driver lacks the operation. -/
def FsOp.missing : FsOp → Int
  | .stat | .statvfs => -EPERM
  | _ => -EROFS

variable {M D : Type} {N n : Nat}

/-- `vfs_file_t`. `used` is `pid != KERNEL_PID_UNDEF`; `counted` says that the entry's share
of `open_files` has not been given back yet (no field of the source). -/
structure FdEntry (M : Type) where
  used : Bool
  mp : Option M
  fOp : Option FileOps
  counted : Bool

/-- `vfs_DIR`. `isOpen` says that the stream was opened and not closed since (no field of
the source). -/
structure Dir (M : Type) where
  mp : Option M
  dOp : Option DirOps
  isOpen : Bool

/-- Who called `vfs_opendir` or `vfs_closedir`: the user, or `vfs_iterate_mount_dirs` at one
of its calls of them. -/
inductive Caller (M D : Type) where
  | user
  | iterateEnd
  | iterateClosed (dir : D) (next : M)
  | iterateOpened (next : M)
  deriving DecidableEq

/-- Where a thread is. -/
inductive Pc (M D : Type) (N : Nat) where
  | idle (ret : Int)
  | openFind (name : Path)
  | openInit (mp : M)
  | openDriver (fd : Fin N)
  | closeCheck (fd : Nat)
  | closeDriver (fd : Fin N)
  | freeCount (fd : Fin N) (ret : Int)
  | freeMark (fd : Fin N) (ret : Int)
  | opendirFind (dir : D) (name : Path) (caller : Caller M D)
  | opendirInit (dir : D) (mp : M) (caller : Caller M D)
  | opendirDriver (dir : D) (mp : M) (caller : Caller M D)
  | closedirCheck (dir : D) (caller : Caller M D)
  | closedirDriver (dir : D) (mp : M) (caller : Caller M D)
  | closedirClear (dir : D) (mp : M) (ret : Int) (caller : Caller M D)
  | put (mp : M) (ret : Int) (caller : Caller M D)
  | put2 (mp mpTo : M) (ret : Int)
  | fsFind (op : FsOp) (name : Path)
  | fsDriver (op : FsOp) (mp : M)
  | renameFrom (fromPath toPath : Path)
  | renameTo (mp : M) (toPath : Path)
  | renameDriver (mp mpTo : M)
  | iterateNext (dir : D)
  | iterateHold (dir : D) (next : M)
  | mountCheck (mp : M)
  | mountDriver (mp : M)
  | umountCheck (mp : M) (force : Bool)
  | umountCount (mp : M) (force : Bool)
  | umountDriver (mp : M)
  | umountRemove (mp : M)
  deriving DecidableEq

/-- The calls. -/
inductive Call (M D : Type) (N : Nat) where
  | open (name : Option Path)
  | close (fd : Nat)
  | opendir (dir : Option D) (name : Option Path)
  | closedir (dir : Option D)
  | fs (op : FsOp) (name : Option Path)
  | rename (fromPath toPath : Option Path)
  | iterateMountDirs (dir : D)
  | mount (mp : Option M)
  | umount (mp : Option M) (force : Bool)

/-- `_mount_mutex`, the mounts in list order, their `open_files`, the table of open files,
the streams, and the threads. -/
structure World (M D : Type) (N n : Nat) where
  locked : Bool
  mounts : List M
  openFiles : M → Nat
  fds : Fin N → FdEntry M
  dirs : D → Dir M
  pc : Fin n → Pc M D N

/-- The start of a call, up to where it touches anything shared: the `NULL` checks. -/
def Call.start : Call M D N → Pc M D N
  | .open none => .idle (-EINVAL)
  | .open (some name) => .openFind name
  | .close fd => .closeCheck fd
  | .opendir (some dir) (some name) => .opendirFind dir name .user
  | .opendir _ _ => .idle (-EINVAL)
  | .closedir none => .idle (-EINVAL)
  | .closedir (some dir) => .closedirCheck dir .user
  | .fs _ none => .idle (-EINVAL)
  | .fs op (some name) => .fsFind op name
  | .rename (some fromPath) (some toPath) => .renameFrom fromPath toPath
  | .rename _ _ => .idle (-EINVAL)
  | .iterateMountDirs dir => .iterateNext dir
  | .mount none => .idle (-EINVAL)
  | .mount (some mp) => .mountCheck mp
  | .umount none _ => .idle (-EINVAL)
  | .umount (some mp) force => .umountCheck mp force

/-- The loop of `_find_mount`: the mounts left, the longest match so far and its mount. -/
def findMountLoop (cfg : M → Mount) (name : Path) : List M → (longestMatch : Nat) → Option M → Option M
  | [], _, mountp => mountp
  | it :: mounts, longestMatch, mountp =>
    let len := (cfg it).point.length
    if len < longestMatch then findMountLoop cfg name mounts longestMatch mountp
    else if name.length < len then findMountLoop cfg name mounts longestMatch mountp
    else if 1 < len ∧ len < name.length ∧ name[len]? ≠ some '/' then
      findMountLoop cfg name mounts longestMatch mountp
    else if name.take len = (cfg it).point then
      findMountLoop cfg name mounts (if 1 < len then len else longestMatch) (some it)
    else findMountLoop cfg name mounts longestMatch mountp

/-- The mount `_find_mount` finds. -/
def findMount (cfg : M → Mount) (w : World M D N n) (name : Path) : Option M :=
  findMountLoop cfg name w.mounts 0 none

variable [DecidableEq M] [DecidableEq D]

/-- `atomic_fetch_add_u16(&mountp->open_files, 1)` and the `expect` behind it. -/
def World.get (w : World M D N n) (mp : M) : Option (World M D N n) :=
  if w.openFiles mp < 2 ^ 16 - 1 then
    some { w with openFiles := update w.openFiles mp (w.openFiles mp + 1) }
  else none

/-- `atomic_fetch_sub_u16(&mountp->open_files, 1)` -/
def World.put (w : World M D N n) (mp : M) : World M D N n :=
  { w with openFiles := update w.openFiles mp ((w.openFiles mp + (2 ^ 16 - 1)) % 2 ^ 16) }

/-- `_find_mount`, under `_mount_mutex`: what to do without a mount, and with the mount that
is found and counted as open. -/
def World.find (cfg : M → Mount) (w : World M D N n) (name : Path) (pc : Option M → Pc M D N) :
    Option (World M D N n × Pc M D N) :=
  if w.locked then none
  else
    match findMount cfg w name with
    | none => some (w, pc none)
    | some mp => (w.get mp).map fun w => (w, pc (some mp))

def World.setFd (w : World M D N n) (fd : Fin N) (entry : FdEntry M) : World M D N n :=
  { w with fds := update w.fds fd entry }

def World.setDir (w : World M D N n) (dir : D) (d : Dir M) : World M D N n :=
  { w with dirs := update w.dirs dir d }

/-- The search of `_allocate_fd(VFS_ANY_FD)`, which leaves out the numbers of stdio. -/
def World.unusedFd (w : World M D N n) : Option (Fin N) :=
  (List.finRange N).find? fun fd => decide (2 < fd.val) && !(w.fds fd).used

/-- Where a thread goes on when `vfs_opendir` or `vfs_closedir` returns. -/
def Caller.resume (cfg : M → Mount) (ret : Int) : Caller M D → Pc M D N
  | .user => .idle ret
  | .iterateEnd => .idle 0
  | .iterateClosed dir next => .opendirFind dir (cfg next).point (.iterateOpened next)
  | .iterateOpened next => .put next (if ret = 0 then 1 else 0) .user

/-- `vfs_iterate_mounts`. Behind a mount that is not listed any more it follows a stale
link, to `stale`; it reads the first mount to know the end, which must be there. -/
def iterateMounts (mounts : List M) (cur stale : Option M) : Option (Option M) :=
  match cur with
  | none => some mounts.head?
  | some mp =>
    if mounts = [] then none
    else if mp ∈ mounts then some ((mounts.dropWhile fun m => decide (m ≠ mp)).tail.head?)
    else some stale

/-- The next step of a call. `res` is what the driver returns if the step calls it. -/
def World.progress (cfg : M → Mount) (w : World M D N n) (res : Int) (stale : Option M) :
    Pc M D N → Option (World M D N n × Pc M D N)
  | .idle _ => none
  -- vfs_open
  | .openFind name =>
    w.find cfg name fun
      | none => .idle (-ENOENT)
      | some mp => .openInit mp
  | .openInit mp =>
    match (cfg mp).fs, w.unusedFd with
    | none, _ => none
    | some _, none => some (w, .put mp (-ENFILE) .user)
    | some fs, some fd =>
      match fs.fOp with
      | none => none
      | some fOp =>
        let w := w.setFd fd ⟨true, some mp, some fOp, true⟩
        if fOp.hasOpen then some (w, .openDriver fd) else some (w, .idle fd.val)
  | .openDriver fd => if res < 0 then some (w, .freeCount fd res) else some (w, .idle fd.val)
  -- vfs_close
  | .closeCheck fd =>
    if h : fd < N then
      if (w.fds ⟨fd, h⟩).used then
        match (w.fds ⟨fd, h⟩).fOp with
        | none => some (w, .idle (-EBADF))
        | some fOp =>
          if fOp.hasClose then some (w, .closeDriver ⟨fd, h⟩) else some (w, .freeCount ⟨fd, h⟩ 0)
      else some (w, .idle (-EBADF))
    else some (w, .idle (-EBADF))
  | .closeDriver fd => some (w, .freeCount fd res)
  -- _free_fd
  | .freeCount fd ret =>
    match (w.fds fd).mp with
    | none => some (w.setFd fd { w.fds fd with counted := false }, .freeMark fd ret)
    | some mp => some ((w.put mp).setFd fd { w.fds fd with counted := false }, .freeMark fd ret)
  | .freeMark fd ret => some (w.setFd fd { w.fds fd with used := false }, .idle ret)
  -- vfs_opendir
  | .opendirFind dir name caller =>
    w.find cfg name fun
      | none => caller.resume cfg (-ENOENT)
      | some mp => .opendirInit dir mp caller
  | .opendirInit dir mp caller =>
    match (cfg mp).fs with
    | none => none
    | some fs =>
      match fs.dOp with
      -- open_files is not decremented here
      | none => some (w, caller.resume cfg (-EINVAL))
      | some dOp =>
        if dOp.hasOpendir then
          some (w.setDir dir ⟨some mp, some dOp, false⟩, .opendirDriver dir mp caller)
        else some (w.setDir dir ⟨some mp, some dOp, true⟩, caller.resume cfg 0)
  | .opendirDriver dir mp caller =>
    if res < 0 then some (w, .put mp res caller)
    else some (w.setDir dir { w.dirs dir with isOpen := true }, caller.resume cfg 0)
  -- vfs_closedir
  | .closedirCheck dir caller =>
    match (w.dirs dir).mp with
    | none => some (w, caller.resume cfg (-EBADF))
    | some mp =>
      if ((w.dirs dir).dOp.map DirOps.hasClosedir).getD false then
        some (w, .closedirDriver dir mp caller)
      else some (w, .closedirClear dir mp 0 caller)
  | .closedirDriver dir mp caller => some (w, .closedirClear dir mp res caller)
  | .closedirClear dir mp ret caller =>
    some (w.setDir dir ⟨none, none, false⟩, .put mp ret caller)
  -- atomic_fetch_sub_u16(&mountp->open_files, 1) ahead of a return
  | .put mp ret caller => some (w.put mp, caller.resume cfg ret)
  | .put2 mp mpTo ret => some (w.put mp, .put mpTo ret .user)
  -- vfs_unlink, vfs_mkdir, vfs_rmdir, vfs_stat, vfs_statvfs
  | .fsFind op name =>
    w.find cfg name fun
      | none => .idle (-ENOENT)
      | some mp => if (cfg mp).has op then .fsDriver op mp else .put mp op.missing .user
  | .fsDriver _ mp => some (w, .put mp res .user)
  -- vfs_rename
  | .renameFrom fromPath toPath =>
    w.find cfg fromPath fun
      | none => .idle (-ENOENT)
      | some mp => if (cfg mp).has .rename then .renameTo mp toPath else .put mp (-EROFS) .user
  | .renameTo mp toPath =>
    w.find cfg toPath fun
      | none => .put mp (-ENOENT) .user
      | some mpTo => if mpTo ≠ mp then .put2 mp mpTo (-EXDEV) else .renameDriver mp mpTo
  | .renameDriver mp mpTo => some (w, .put2 mp mpTo res)
  -- vfs_iterate_mount_dirs
  | .iterateNext dir =>
    match iterateMounts w.mounts (w.dirs dir).mp stale with
    | none => none
    | some none => some (w, .closedirCheck dir .iterateEnd)
    | some (some next) => some (w, .iterateHold dir next)
  | .iterateHold dir next =>
    (w.get next).map fun w => (w, .closedirCheck dir (.iterateClosed dir next))
  -- vfs_mount: check_mount leaves the mutex locked
  | .mountCheck mp =>
    if (cfg mp).fs.isNone ∨ (cfg mp).point.head? ≠ some '/' then some (w, .idle (-EINVAL))
    else if w.locked then none
    else if mp ∈ w.mounts then some (w, .idle (-EBUSY))
    else if (cfg mp).has .mount then some ({ w with locked := true }, .mountDriver mp)
    else some ({ w with mounts := w.mounts ++ [mp] }, .idle 0)
  | .mountDriver mp =>
    if res < 0 then some ({ w with locked := false }, .idle res)
    else some ({ w with locked := false, mounts := w.mounts ++ [mp] }, .idle 0)
  -- vfs_umount: check_mount has unlocked the mutex if the file system is mounted
  | .umountCheck mp force =>
    if (cfg mp).fs.isNone ∨ (cfg mp).point.head? ≠ some '/' then some (w, .idle (-EINVAL))
    else if w.locked then none
    else if mp ∈ w.mounts then some (w, .umountCount mp force)
    else some (w, .idle (-EINVAL))
  | .umountCount mp force =>
    if 0 < w.openFiles mp ∧ force = false then some ({ w with locked := false }, .idle (-EBUSY))
    else if (cfg mp).has .umount then some (w, .umountDriver mp)
    else some (w, .umountRemove mp)
  | .umountDriver mp =>
    if res < 0 then some ({ w with locked := false }, .idle res) else some (w, .umountRemove mp)
  | .umountRemove mp =>
    if mp ∈ w.mounts then
      some ({ w with locked := false, mounts := w.mounts.erase mp }, .idle 0)
    else some ({ w with locked := false }, .idle (-EINVAL))

/-- A thread makes a call, or takes the next step of the one it is in. -/
inductive Event (M D : Type) (N n : Nat) where
  | call (t : Fin n) (c : Call M D N)
  | progress (t : Fin n) (res : Int) (stale : Option M)

def World.step (cfg : M → Mount) (w : World M D N n) : Event M D N n → Option (World M D N n)
  | .call t c =>
    match w.pc t with
    | .idle _ => some { w with pc := update w.pc t c.start }
    | _ => none
  | .progress t res stale =>
    (w.progress cfg res stale (w.pc t)).map fun r => { r.1 with pc := update w.pc t r.2 }

/-- Nothing is mounted or open. -/
def World.init : World M D N n where
  locked := false
  mounts := []
  openFiles _ := 0
  fds _ := ⟨false, none, none, false⟩
  dirs _ := ⟨none, none, false⟩
  pc _ := .idle 0

end Riot.Vfs
