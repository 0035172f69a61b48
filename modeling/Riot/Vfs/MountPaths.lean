import Riot.Vfs.Vfs

/-!
# Which mount a path belongs to

`_find_mount` with the relative path it yields. One pass over the mounts keeps the
best match; the root mount counts as a match of length zero.
-/

namespace Riot.Vfs

open List

variable {M : Type}

/-- The loop of `_find_mount`, with `longest_match` as it ends. -/
def findMountMatchLoop (cfg : M → Mount) (name : Path) : List M → Nat → Option M → Option M × Nat
  | [], longestMatch, mountp => (mountp, longestMatch)
  | it :: mounts, longestMatch, mountp =>
    let len := (cfg it).point.length
    if len < longestMatch then findMountMatchLoop cfg name mounts longestMatch mountp
    else if name.length < len then findMountMatchLoop cfg name mounts longestMatch mountp
    else if 1 < len ∧ len < name.length ∧ name[len]? ≠ some '/' then
      findMountMatchLoop cfg name mounts longestMatch mountp
    else if name.take len = (cfg it).point then
      findMountMatchLoop cfg name mounts (if 1 < len then len else longestMatch) (some it)
    else findMountMatchLoop cfg name mounts longestMatch mountp

/-- `_find_mount`: the mount and `*rel_path`, or `none` for `-ENOENT`; `wantAbsPath` is
`fs->flags & VFS_FS_FLAG_WANT_ABS_PATH` of a mount. -/
def findMountRel (cfg : M → Mount) (wantAbsPath : M → Bool) (mounts : List M) (name : Path) :
    Option (M × Path) :=
  match findMountMatchLoop cfg name mounts 0 none with
  | (none, _) => none
  | (some mp, longestMatch) => some (mp, if wantAbsPath mp then name else name.drop longestMatch)

/-- The mount point is the path, or a part of it that ends where a component does. -/
def Mount.Covers (mount : Mount) (name : Path) : Prop :=
  mount.point = ['/'] ∨ ∃ rest, name = mount.point ++ rest ∧ (rest = [] ∨ rest.head? = some '/')

/-- What is left of the path; all of it below the root mount. -/
def Mount.remainder (mount : Mount) (name : Path) : Path :=
  if mount.point = ['/'] then name else name.drop mount.point.length

/-- The file systems that are mounted passed the check of `vfs_mount`. -/
def Absolute (cfg : M → Mount) (mounts : List M) : Prop :=
  ∀ m ∈ mounts, (cfg m).point.head? = some '/'

/-- **The mount with the longest mount point.** -/
def Longest (cfg : M → Mount) (mounts : List M) (name : Path) (mp : M) : Prop :=
  mp ∈ mounts ∧ (cfg mp).Covers name ∧
    ∀ m ∈ mounts, (cfg m).Covers name → (cfg m).point.length ≤ (cfg mp).point.length

variable {cfg : M → Mount} {name : Path} {wantAbsPath : M → Bool} {mounts seen : List M}

theorem covers_iff {mount : Mount} (hname : name.head? = some '/')
    (hpoint : mount.point.head? = some '/') : mount.Covers name ↔ mount.point.length ≤ name.length ∧
      ¬(1 < mount.point.length ∧ mount.point.length < name.length ∧ name[mount.point.length]? ≠ some '/') ∧
      name.take mount.point.length = mount.point := by
  obtain ⟨cs, rfl⟩ := head?_eq_some_iff.mp hname
  obtain ⟨ps, hps⟩ := head?_eq_some_iff.mp hpoint
  constructor
  · rintro (hroot | ⟨rest, hrest, hend⟩)
    · rw [hroot]
      simp
    · refine ⟨by rw [hrest]; simp, ?_, by rw [hrest]; simp⟩
      rintro ⟨-, hlt, hne⟩
      rcases hend with rfl | hhead
      · rw [hrest] at hlt
        simp at hlt
      · refine hne ?_
        rw [hrest, getElem?_append_right le_rfl, Nat.sub_self, ← head?_eq_getElem?, hhead]
  · rintro ⟨hle, hend, htake⟩
    by_cases hone : 1 < mount.point.length
    · refine .inr ⟨_, ((congrArg (· ++ _) htake).symm.trans (take_append_drop _ _)).symm, ?_⟩
      rw [drop_eq_nil_iff, head?_drop]
      rcases Nat.lt_or_ge mount.point.length ('/' :: cs).length with hlt | hge
      · exact .inr (Decidable.not_not.mp fun hne => hend ⟨hone, hlt, hne⟩)
      · exact .inl hge
    · refine .inl ?_
      rw [hps, length_cons] at hone
      rw [hps, length_eq_zero_iff.mp (by omega : ps.length = 0)]

/-- What the loop has found among the mounts it has seen. -/
def Found (cfg : M → Mount) (name : Path) (seen : List M) (longestMatch : Nat) : Option M → Prop
  | none => longestMatch = 0 ∧ ∀ m ∈ seen, ¬(cfg m).Covers name
  | some mp => Longest cfg seen name mp ∧
      longestMatch = if 1 < (cfg mp).point.length then (cfg mp).point.length else 0

theorem Found.skip {longestMatch : Nat} {mountp : Option M} {it : M}
    (h : Found cfg name seen longestMatch mountp)
    (hskip : (cfg it).Covers name → (cfg it).point.length < longestMatch) :
    Found cfg name (seen ++ [it]) longestMatch mountp := by
  cases mountp with
  | none =>
    obtain ⟨hzero, hno⟩ := h
    refine ⟨hzero, fun m hm hcovers => ?_⟩
    rcases mem_append.mp hm with hm | hm
    · exact hno m hm hcovers
    · rw [mem_singleton.mp hm] at hcovers
      have := hskip hcovers
      omega
  | some mp =>
    obtain ⟨⟨hmem, hcovers, hmax⟩, hlen⟩ := h
    refine ⟨⟨mem_append_left _ hmem, hcovers, fun m hm hm' => ?_⟩, hlen⟩
    rcases mem_append.mp hm with hm | hm
    · exact hmax m hm hm'
    · rw [mem_singleton.mp hm] at hm' ⊢
      have := hskip hm'
      split at hlen
      · omega
      · omega

theorem Found.take {longestMatch : Nat} {mountp : Option M} {it : M}
    (h : Found cfg name seen longestMatch mountp) (hcovers : (cfg it).Covers name)
    (hpos : 0 < (cfg it).point.length) (hle : longestMatch ≤ (cfg it).point.length) :
    Found cfg name (seen ++ [it])
      (if 1 < (cfg it).point.length then (cfg it).point.length else longestMatch) (some it) := by
  -- a mount found before is no longer
  have hbefore : ∀ m ∈ seen, (cfg m).Covers name → (cfg m).point.length ≤ (cfg it).point.length := by
    intro m hm hm'
    cases mountp with
    | none => exact absurd hm' (h.2 m hm)
    | some mp =>
      obtain ⟨⟨-, -, hmax⟩, hlen⟩ := h
      have := hmax m hm hm'
      split at hlen
      · omega
      · omega
  refine ⟨⟨by simp, hcovers, fun m hm hm' => ?_⟩, ?_⟩
  · rcases mem_append.mp hm with hm | hm
    · exact hbefore m hm hm'
    · rw [mem_singleton.mp hm]
  · split
    · rfl
    · cases mountp with
      | none => exact h.1
      | some mp =>
        have := h.2
        split at this
        · omega
        · exact this

theorem found_loop (hname : name.head? = some '/') : ∀ {mounts seen : List M} {longestMatch : Nat}
    {mountp : Option M}, Absolute cfg mounts → Found cfg name seen longestMatch mountp →
    Found cfg name (seen ++ mounts) (findMountMatchLoop cfg name mounts longestMatch mountp).2
      (findMountMatchLoop cfg name mounts longestMatch mountp).1
  | [], _, _, _, _, h => by
    rw [append_nil]
    exact h
  | it :: mounts, seen, longestMatch, mountp, habs, h => by
    have hpoint := habs it mem_cons_self
    have hrest : Absolute cfg mounts := fun m hm => habs m (mem_cons_of_mem _ hm)
    have hpos : 0 < (cfg it).point.length :=
      length_pos_iff.mpr fun hnil => by rw [hnil] at hpoint; exact nomatch hpoint
    have hiff := covers_iff hname hpoint
    have hsplit : seen ++ it :: mounts = seen ++ [it] ++ mounts := by simp
    rw [hsplit]
    unfold findMountMatchLoop
    dsimp only
    split
    next hlt => exact found_loop hname hrest (h.skip fun _ => hlt)
    next hlt =>
      split
      next hlong => exact found_loop hname hrest (h.skip fun hc => by have := (hiff.mp hc).1; omega)
      next hlong =>
        split
        next hend => exact found_loop hname hrest (h.skip fun hc => absurd hend (hiff.mp hc).2.1)
        next hend =>
          split
          next htake =>
            exact found_loop hname hrest
              (h.take (hiff.mpr ⟨by omega, hend, htake⟩) hpos (Nat.le_of_not_lt hlt))
          next htake =>
            exact found_loop hname hrest (h.skip fun hc => absurd (hiff.mp hc).2.2 htake)

/-- **Mount resolution**, whatever the order of the mounts. -/
theorem findMountRel_longest (cfg : M → Mount) (wantAbsPath : M → Bool) (mounts : List M) (name : Path)
    (habs : Absolute cfg mounts) (hname : name.head? = some '/') :
    (findMountRel cfg wantAbsPath mounts name = none ↔ ∀ m ∈ mounts, ¬(cfg m).Covers name) ∧
      ∀ mp rel, findMountRel cfg wantAbsPath mounts name = some (mp, rel) →
        Longest cfg mounts name mp ∧
          rel = if wantAbsPath mp then name else (cfg mp).remainder name := by
  have hnone : Found cfg name [] 0 none := ⟨rfl, nofun⟩
  have hfound := found_loop hname habs hnone
  rw [List.nil_append] at hfound
  unfold findMountRel
  generalize findMountMatchLoop cfg name mounts 0 none = r at hfound ⊢
  obtain ⟨mountp, longestMatch⟩ := r
  cases mountp with
  | none => exact ⟨iff_of_true rfl hfound.2, nofun⟩
  | some mp =>
    obtain ⟨hlongest, hlen⟩ := hfound
    refine ⟨iff_of_false nofun fun hno => hno mp hlongest.1 hlongest.2.1, ?_⟩
    rintro mp' rel h
    cases h
    refine ⟨hlongest, ?_⟩
    obtain ⟨ps, hps⟩ := List.head?_eq_some_iff.mp (habs mp hlongest.1)
    dsimp only at hlen ⊢
    unfold Mount.remainder
    by_cases hroot : (cfg mp).point = ['/']
    · rw [if_pos hroot, hlen, hroot]
      rfl
    · have hone : 1 < (cfg mp).point.length := by
        rw [hps] at hroot ⊢
        cases ps with
        | nil => exact absurd rfl hroot
        | cons _ _ => simp
      rw [if_neg hroot, hlen, if_pos hone]

/-- A root mount and a mount below it. -/
def rootAndSub : Bool → Mount
  | true => ⟨none, some ['/']⟩
  | false => ⟨none, some ['/', 'm']⟩

theorem findMountRel_longest_sub : Longest rootAndSub [true, false] ['/', 'm', '/', 'f'] false ∧
    ['/', 'f'] = (rootAndSub false).remainder ['/', 'm', '/', 'f'] :=
  (findMountRel_longest rootAndSub (fun _ => false) [true, false] ['/', 'm', '/', 'f']
    (by unfold Absolute; decide) rfl).2 false ['/', 'f'] (by decide)

/-- A file system that asks for absolute paths gets the whole path. -/
theorem not_findMountRel_remainder : ¬∀ (cfg : Bool → Mount) (wantAbsPath : Bool → Bool)
    (mounts : List Bool) (name : Path), Absolute cfg mounts → name.head? = some '/' →
    ∀ mp rel, findMountRel cfg wantAbsPath mounts name = some (mp, rel) →
      Longest cfg mounts name mp ∧ rel = (cfg mp).remainder name := by
  intro h
  have hrel := (h rootAndSub (fun _ => true) [true, false] ['/', 'm', '/', 'f']
    (by unfold Absolute; decide) rfl false ['/', 'm', '/', 'f'] (by decide)).2
  exact absurd hrel (by decide)

end Riot.Vfs
