import Riot.Mtd.Flash

/-!
# Page writes

What `mtd_write_page` leaves on a device that can only clear bits and that
erases whole sectors. The loop over sectors is described by `sectorWrite`, where a
sector that the data covers from its first to its last byte is combined with what
it held, because the fast path does not erase it.
-/

namespace Riot.Mtd

open Riot.Lib Riot.Lib.Memory List Option Nat Prod Int

variable {σ : Type}

/-! ## One sector -/

/-- What a write into one sector leaves: all of the sector at once without erasing it,
anything less by way of the work area. -/
def oneSector (S : Nat) (m : Memory Byte) (sector offset : Nat) (d : List Byte) : Memory Byte :=
  if offset = 0 ∧ d.length = S then combine (· &&& ·) m (sector * S) d
  else store m (sector * S + offset) d

theorem int32_of_nonneg {n : Nat} (hn : n < 2 ^ 32) (h : 0 ≤ int32 n) : int32 n = n := by
  unfold int32 at h ⊢
  rw [BitVec.toInt_eq_toNat_cond, BitVec.toNat_ofNat] at h ⊢
  split at h <;> split <;> omega

section

variable {fd : FlashDriver σ} {s s' : σ}

theorem writeBack_spec {page len : Nat} {work : List Byte} {w : Int}
    (hwork : fd.sectorSize ≤ work.length) (hpage : page < 2 ^ 32) (hlen : len < 2 ^ 32)
    (h : writeBack fd.dev s work page len = some (w, s')) (hw : 0 ≤ w) :
    w = len ∧ page < fd.pages ∧ fd.content s' = combine (· &&& ·) (fd.content s) (page * fd.pageSize)
        (work.take fd.sectorSize) := by
  unfold writeBack at h
  rw [fd.dev_sectorSize] at h
  split at h
  next => exact absurd h (by simp)
  next res t hraw =>
    split at h
    next hneg =>
      simp only [some.injEq, mk.injEq] at h
      omega
    next hneg =>
      obtain ⟨rfl, rfl⟩ := h
      obtain ⟨hcont, hp⟩ := mtdWritePageRaw_spec fd.toGeometry.sectorSize_lt' hwork hpage hraw
        (not_lt.mp hneg)
      exact ⟨int32_of_nonneg hlen hw, hp fd.toGeometry.sectorSize_pos, hcont⟩

/-- The slow path stores the data and leaves the rest of the sector as it was. -/
theorem modifySector_spec {sector offset n : Nat} {data : List Byte} {w : Int}
    (hsector : sector * fd.pagesPerSector < 2 ^ 32) (hn : n < 2 ^ 32) (hdata : n ≤ data.length)
    (h : modifySector fd.dev s data sector (sector * fd.pagesPerSector) offset n = some (w, s'))
    (hw : 0 ≤ w) :
    w = n ∧ offset + n ≤ fd.sectorSize ∧ sector < fd.sectorCount ∧
      fd.content s' = store (fd.content s) (sector * fd.sectorSize + offset) (data.take n) := by
  unfold modifySector at h
  rw [fd.dev_sectorSize] at h
  split at h
  next => exact absurd h (by simp)
  next res work t hread =>
    split at h
    next hneg =>
      simp only [some.injEq, mk.injEq] at h
      omega
    next hneg =>
      obtain ⟨hwork, hsame⟩ := mtdReadPage_spec fd.toGeometry.sectorSize_lt' hsector hread (not_lt.mp hneg)
      rw [Geometry.sectorPage_mul] at hwork
      generalize herase : mtdEraseSector fd.dev t sector 1 = e at h
      obtain ⟨res', t'⟩ := e
      dsimp only at h
      split at h
      next hneg' =>
        simp only [some.injEq, mk.injEq] at h
        omega
      next hneg' =>
        split at h
        next => exact absurd h (by simp)
        next hfits =>
          obtain ⟨hlt, herased⟩ := mtdEraseSector_spec (fd.toGeometry.sector_lt hsector) (by decide)
            herase (not_lt.mp hneg')
          rw [one_mul] at herased
          have hd : (data.take n).length = n := length_take_of_le hdata
          have hlenwork : work.length = fd.sectorSize := by
            rw [hwork, length_slice]
          have hpatch := store_splice (m := fd.content s) (a := sector * fd.sectorSize)
            (n := fd.sectorSize) (k := offset) (t := data.take n) (by omega)
          rw [hd, ← hwork] at hpatch
          generalize hnew : work.take offset ++ data.take n ++ work.drop (offset + n) = new at h hpatch
          have hlennew : new.length = fd.sectorSize := by
            rw [← hnew, length_append, length_append, length_take, length_drop, hd]
            omega
          obtain ⟨hwn, -, hcont⟩ := writeBack_spec hlennew.ge hsector hn h hw
          have hones := combine_ones (m := fd.content s) (a := sector * fd.sectorSize) (d := new)
          rw [hlennew] at hones
          refine ⟨hwn, by omega, hlt, ?_⟩
          rw [hcont, take_of_length_le (by omega), herased, hsame, Geometry.sectorPage_mul,
            hones, hpatch]

/-- **One pass over a sector**: an offset past its end writes nothing and reports
everything as written; otherwise what fits is written. -/
theorem writeSector_spec {sector offset len : Nat} {data : List Byte} {w : Int}
    (hsector : sector * fd.pagesPerSector < 2 ^ 32) (hlen : len < 2 ^ 32)
    (hdata : len ≤ data.length)
    (h : writeSector fd.dev s data sector offset len = some (w, s')) (hw : 0 ≤ w) :
    if fd.sectorSize ≤ offset then w = len ∧ s' = s
    else
      w = (min len (fd.sectorSize - offset) : Nat) ∧ sector < fd.sectorCount ∧
        fd.content s' = oneSector fd.sectorSize (fd.content s) sector offset
          (data.take (min len (fd.sectorSize - offset))) := by
  have hpage : u32 (sector * fd.dev.pagesPerSector) = sector * fd.pagesPerSector := mod_eq_of_lt hsector
  unfold writeSector at h
  dsimp only at h
  rw [fd.dev_sectorSize, hpage] at h
  split at h
  next hout =>
    obtain ⟨rfl, rfl⟩ := h
    rw [if_pos hout]
    exact ⟨int32_of_nonneg hlen hw, rfl⟩
  next hin =>
    rw [if_neg hin]
    generalize hn : (if fd.sectorSize < u32 (offset + len) then fd.sectorSize - offset else len) = n
      at h
    -- the sum wraps only where it asks the memcpy to go past the work area
    have hmin : offset + n ≤ fd.sectorSize → n = min len (fd.sectorSize - offset) := by
      intro hle
      unfold u32 at hn
      split at hn <;> omega
    have hle : n ≤ len := by
      split at hn <;> omega
    split at h
    next hfast =>
      obtain ⟨rfl, hall⟩ := hfast
      obtain ⟨hwn, hp, hcont⟩ := writeBack_spec (by omega) hsector (by omega) h hw
      have hlen' : (data.take n).length = fd.sectorSize := by
        rw [length_take]
        omega
      rw [← hmin (by omega)]
      refine ⟨hwn, Nat.lt_of_mul_lt_mul_right hp, ?_⟩
      rw [hcont, oneSector, if_pos ⟨rfl, hlen'⟩, hall, Geometry.sectorPage_mul]
    next hslow =>
      obtain ⟨hwn, hfits, hlt, hcont⟩ := modifySector_spec hsector (by omega) (by omega) h hw
      have hlen' : (data.take n).length = n := length_take_of_le (by omega)
      rw [← hmin hfits]
      refine ⟨hwn, hlt, ?_⟩
      rw [hcont, oneSector, if_neg (by rw [hlen']; exact hslow)]

end

/-! ## All sectors -/

/-- The sector of the byte at `x` lies, from its first to its last byte, in the `n`
bytes from `a` on. -/
def Covered (S a n x : Nat) : Prop := a ≤ x / S * S ∧ x / S * S + S ≤ a + n

instance (S a n x : Nat) : Decidable (Covered S a n x) := inferInstanceAs (Decidable (_ ∧ _))

/-- What writing `d` from `a` on leaves: sectors covered as a whole keep the bits that
were clear. -/
def sectorWrite (S : Nat) (m : Memory Byte) (a : Nat) (d : List Byte) : Memory Byte := fun x =>
  if a ≤ x then
    match d[x - a]? with
    | some b => if Covered S a d.length x then m x &&& b else b
    | none => m x
  else m x

section

variable {S a : Nat} {m : Memory Byte} {d : List Byte}

theorem sectorWrite_outside {x : Nat} (h : x < a ∨ a + d.length ≤ x) : sectorWrite S m a d x = m x := by
  unfold sectorWrite
  split
  next ha => rw [getElem?_eq_none (by omega)]
  next => rfl

theorem sectorWrite_inside {i : Nat} (h : i < d.length) : sectorWrite S m a d (a + i) =
      if Covered S a d.length (a + i) then m (a + i) &&& d[i] else d[i] := by
  unfold sectorWrite
  rw [if_pos (by omega), Nat.add_sub_cancel_left, getElem?_eq_getElem h]

theorem sectorWrite_nil : sectorWrite S m a [] = m := funext fun _ => sectorWrite_outside (by simp; omega)

theorem oneSector_outside {sector offset x : Nat}
    (h : x < sector * S + offset ∨ sector * S + offset + d.length ≤ x) :
    oneSector S m sector offset d x = m x := by
  unfold oneSector
  split
  next hall => exact combine_outside (by omega)
  next => exact store_outside h

theorem oneSector_inside {sector offset i : Nat} (h : i < d.length) :
    oneSector S m sector offset d (sector * S + offset + i) =
      if offset = 0 ∧ d.length = S then m (sector * S + offset + i) &&& d[i] else d[i] := by
  unfold oneSector
  split
  next hall =>
    obtain ⟨rfl, -⟩ := hall
    exact combine_inside h
  next => exact store_inside h

theorem sectorWrite_split {sector offset n : Nat} (hoff : offset < S) (hn : n = min d.length (S - offset)) :
    sectorWrite S (oneSector S m sector offset (d.take n)) ((sector + 1) * S) (d.drop n) =
      sectorWrite S m (sector * S + offset) d := by
  have hnext : (sector + 1) * S = sector * S + S := succ_mul _ _
  have htake : (d.take n).length = n := length_take_of_le (by omega)
  have hdrop : (d.drop n).length = d.length - n := length_drop
  funext x
  by_cases hout : x < sector * S + offset ∨ sector * S + offset + d.length ≤ x
  · rw [sectorWrite_outside hout, sectorWrite_outside (by omega), oneSector_outside (by omega)]
  obtain ⟨i, rfl⟩ : ∃ i, x = sector * S + offset + i := ⟨x - (sector * S + offset), by omega⟩
  have hi : i < d.length := by omega
  rw [sectorWrite_inside hi]
  by_cases hfirst : i < n
  · -- within the first sector: it is covered just when the chunk is a whole sector
    have hdiv : (sector * S + offset + i) / S = sector := Nat.div_eq_of_lt_le (by omega) (by omega)
    rw [sectorWrite_outside (by omega), oneSector_inside (by omega), getElem_take]
    refine if_congr ?_ rfl rfl
    rw [Covered, hdiv]
    omega
  · obtain ⟨j, hj⟩ : ∃ j, sector * S + offset + i = (sector + 1) * S + j :=
      ⟨sector * S + offset + i - (sector + 1) * S, by omega⟩
    have hsector : sector + 1 ≤ (sector * S + offset + i) / S := by
      rw [le_div_iff_mul_le (by omega)]
      omega
    have hstart := mul_le_mul_right S hsector
    rw [hj, sectorWrite_inside (by omega), oneSector_outside (by omega), getElem_drop]
    have hidx : n + j = i := by omega
    simp only [hidx]
    refine if_congr ?_ rfl rfl
    rw [Covered, Covered, ← hj, hdrop]
    omega

end

section

variable {fd : FlashDriver σ}

/-- **The loop over sectors** that starts within a sector and returns zero. -/
theorem mtdWritePageLoop_spec {fuel : Nat} : ∀ {s s' : σ} {src : List Byte}
    {sector offset len : Nat}, sector * fd.pagesPerSector < 2 ^ 32 → offset < fd.sectorSize →
    len < 2 ^ 32 → src.length = len →
    mtdWritePageLoop fd.dev fuel s src sector offset len = some (0, s') →
    fd.content s' = sectorWrite fd.sectorSize (fd.content s) (sector * fd.sectorSize + offset) src ∧
      (0 < len → sector * fd.sectorSize + offset + len ≤ fd.size) := by
  induction fuel with
  | zero =>
    intro s s' src sector offset len hsector hoff hlen hsrc h
    cases len with
    | zero =>
      simp only [mtdWritePageLoop, some.injEq, mk.injEq, true_and] at h
      rw [eq_nil_of_length_eq_zero hsrc, sectorWrite_nil, h]
      exact ⟨rfl, by simp⟩
    | succ len => simp only [mtdWritePageLoop, reduceCtorEq] at h
  | succ fuel ih =>
    intro s s' src sector offset len hsector hoff hlen hsrc h
    cases len with
    | zero =>
      simp only [mtdWritePageLoop, some.injEq, mk.injEq, true_and] at h
      rw [eq_nil_of_length_eq_zero hsrc, sectorWrite_nil, h]
      exact ⟨rfl, by simp⟩
    | succ len =>
      simp only [mtdWritePageLoop] at h
      split at h
      next => exact absurd h (by simp)
      next w t hwrite =>
        split at h
        next hneg =>
          simp only [some.injEq, mk.injEq] at h
          omega
        next hneg =>
          have hspec := writeSector_spec hsector hlen hsrc.ge hwrite (not_lt.mp hneg)
          rw [if_neg (by omega)] at hspec
          obtain ⟨rfl, hlt, hcont⟩ := hspec
          generalize hn : min (len + 1) (fd.sectorSize - offset) = n at h hcont
          have hleft : u32 (len + 1 + 2 ^ 32 - (n : Int).toNat) = len + 1 - n := by
            rw [toNat_natCast]
            unfold u32
            omega
          rw [hleft, toNat_natCast] at h
          have hnext : (sector + 1) * fd.pagesPerSector < 2 ^ 32 :=
            lt_of_le_of_lt (mul_le_mul_right _ hlt) fd.toGeometry.pages_lt'
          have hnum : u32 (sector + 1) = sector + 1 := by
            exact mod_eq_of_lt (fd.toGeometry.sector_lt hnext)
          rw [hnum] at h
          obtain ⟨hrest, hend⟩ := ih hnext fd.toGeometry.sectorSize_pos (by omega)
            (by rw [length_drop, hsrc]) h
          have hsucc : (sector + 1) * fd.sectorSize = sector * fd.sectorSize + fd.sectorSize := succ_mul _ _
          have hsize : (sector + 1) * fd.sectorSize ≤ fd.size := mul_le_mul_right _ hlt
          constructor
          · rw [hrest, hcont]
            exact sectorWrite_split hoff (by rw [hsrc, hn])
          · intro _
            omega

theorem mtdWritePageLoop_past {s s' : σ} {fuel sector offset len : Nat} {src : List Byte}
    (hsector : sector * fd.pagesPerSector < 2 ^ 32) (hoff : fd.sectorSize ≤ offset)
    (hlen : len < 2 ^ 32) (hsrc : src.length = len)
    (h : mtdWritePageLoop fd.dev fuel s src sector offset len = some (0, s')) : s' = s := by
  cases len with
  | zero =>
    rw [mtdWritePageLoop] at h
    exact (congrArg snd (some.inj h)).symm
  | succ len =>
    cases fuel with
    | zero => simp only [mtdWritePageLoop, reduceCtorEq] at h
    | succ fuel =>
      simp only [mtdWritePageLoop] at h
      split at h
      next => exact absurd h (by simp)
      next w t hwrite =>
        split at h
        next hneg =>
          simp only [some.injEq, mk.injEq] at h
          omega
        next hneg =>
          have hspec := writeSector_spec hsector hlen hsrc.ge hwrite (not_lt.mp hneg)
          rw [if_pos hoff] at hspec
          obtain ⟨rfl, rfl⟩ := hspec
          have hleft : u32 (len + 1 + 2 ^ 32 - ((len + 1 : Nat) : Int).toNat) = 0 := by
            rw [toNat_natCast]
            unfold u32
            omega
          rw [hleft, mtdWritePageLoop] at h
          exact (congrArg snd (some.inj h)).symm

end

/-! ## When the data ends up where it should -/

namespace FlashDriver

variable (fd : FlashDriver σ)

/-- The `n` bytes from `a` on lie on the device. -/
def OnDevice (a n : Nat) : Prop := 0 < n → a + n ≤ fd.size

/-- The content before with `d` in place of the bytes from `a` on. -/
def Patched (s s' : σ) (a : Nat) (d : List Byte) : Prop :=
  fd.OnDevice a d.length ∧ fd.content s' = store (fd.content s) a d

/-- The offset from the start of the sector that `page` is in. -/
def sectorOffset (page offset : Nat) : Nat := offset + page % fd.pagesPerSector * fd.pageSize

/-- The write starts in the sector of `page` and sets no bit in a sector it covers as a
whole, or it starts behind that sector and changes nothing: the data is there already,
and where the 32-bit offset wraps back into the sector of `page`, so is what is written
there. -/
def WritesThrough (s : σ) (page offset : Nat) (d : List Byte) : Prop :=
  let m := fd.content s
  let a := page * fd.pageSize + offset
  let o := fd.sectorOffset page offset
  let wrapped := page / fd.pagesPerSector * fd.sectorSize + o % 2 ^ 32
  fd.OnDevice a d.length ∧
    (o < fd.sectorSize ∧
        (∀ i (h : i < d.length), Covered fd.sectorSize a d.length (a + i) →
          m (a + i) &&& d[i] = d[i]) ∨
      fd.sectorSize ≤ o ∧ Holds m a d ∧
        (o % 2 ^ 32 < fd.sectorSize → ∀ i (h : i < d.length),
          (if Covered fd.sectorSize wrapped d.length (wrapped + i) then m (wrapped + i) &&& d[i]
            else d[i]) = m (wrapped + i)))

end FlashDriver

section

variable {S a : Nat} {m : Memory Byte} {d : List Byte}

theorem sectorWrite_eq_store_iff : sectorWrite S m a d = store m a d ↔
    ∀ i (h : i < d.length), Covered S a d.length (a + i) → m (a + i) &&& d[i] = d[i] := by
  constructor
  · intro heq i hi hcov
    have hat := congrFun heq (a + i)
    rwa [sectorWrite_inside hi, if_pos hcov, store_inside hi] at hat
  · intro hclear
    funext x
    by_cases hout : x < a ∨ a + d.length ≤ x
    · rw [sectorWrite_outside hout, store_outside hout]
    obtain ⟨i, rfl⟩ : ∃ i, x = a + i := ⟨x - a, by omega⟩
    have hi : i < d.length := by omega
    rw [sectorWrite_inside hi, store_inside hi]
    split
    next hcov => exact hclear i hi hcov
    next => rfl

theorem sectorWrite_eq_self_iff : sectorWrite S m a d = m ↔ ∀ i (h : i < d.length),
      (if Covered S a d.length (a + i) then m (a + i) &&& d[i] else d[i]) = m (a + i) := by
  constructor
  · intro heq i hi
    have hat := congrFun heq (a + i)
    rwa [sectorWrite_inside hi] at hat
  · intro hsame
    funext x
    by_cases hout : x < a ∨ a + d.length ≤ x
    · exact sectorWrite_outside hout
    obtain ⟨i, rfl⟩ : ∃ i, x = a + i := ⟨x - a, by omega⟩
    have hi : i < d.length := by omega
    rw [sectorWrite_inside hi, hsame i hi]

/-- Written elsewhere, the data is where it should be only if nothing was to be done. -/
theorem sectorWrite_eq_store_elsewhere {b : Nat} (h : b + d.length ≤ a) :
    sectorWrite S m b d = store m a d ↔ Holds m a d ∧ sectorWrite S m b d = m := by
  constructor
  · intro heq
    have hself : sectorWrite S m b d = m := by
      funext x
      by_cases hout : x < b ∨ b + d.length ≤ x
      · exact sectorWrite_outside hout
      · rw [heq, store_outside (.inl (by omega))]
    rw [hself, eq_comm, store_eq_self_iff] at heq
    exact ⟨heq, hself⟩
  · intro ⟨hholds, hself⟩
    rw [hself, hholds.store_eq]

end

theorem address_eq (fd : FlashDriver σ) (page offset : Nat) :
    page / fd.pagesPerSector * fd.sectorSize + fd.sectorOffset page offset = page * fd.pageSize + offset := by
  have hpage := div_add_mod' page fd.pagesPerSector
  have hmul : page / fd.pagesPerSector * fd.sectorSize +
      page % fd.pagesPerSector * fd.pageSize = page * fd.pageSize := by
    rw [← fd.toGeometry.sectorPage_mul, ← add_mul, hpage]
  unfold FlashDriver.sectorOffset
  omega

theorem mtdWritePage_loop {fd : FlashDriver σ} {s s' : σ} {page offset len : Nat} {d : List Byte}
    (hpage : page < 2 ^ 32) (h : mtdWritePage fd.dev s d page offset len = some (0, s')) :
    mtdWritePageLoop fd.dev len s d (page / fd.pagesPerSector)
      (fd.sectorOffset page offset % 2 ^ 32) len = some (0, s') := by
  have hmul := div_mul_le_self page fd.pagesPerSector
  have hmod : page - page / fd.pagesPerSector * fd.pagesPerSector = page % fd.pagesPerSector := by
    have := div_add_mod' page fd.pagesPerSector
    omega
  have hsector : u32 (page / fd.pagesPerSector * fd.pagesPerSector) =
      page / fd.pagesPerSector * fd.pagesPerSector := mod_eq_of_lt (by omega)
  unfold mtdWritePage at h
  dsimp only [FlashDriver.dev] at h
  split at h
  next => simp_all
  next =>
    have hzero : (-EOVERFLOW : Int) = 0 := congrArg fst (some.inj h)
    exact absurd hzero (by decide)
  next =>
    rw [if_neg (by simp), hsector, hmod] at h
    exact h

/-- **A page write that reports success has patched the content just when it starts in
the sector of its page and needs no erase where it covers a sector, or has nothing to
do.** -/
theorem mtdWritePage_patched_iff (fd : FlashDriver σ) (s s' : σ) (d : List Byte)
    (page offset : Nat) (hpage : page < 2 ^ 32) (hlen : d.length < 2 ^ 32)
    (h : mtdWritePage fd.dev s d page offset d.length = some (0, s')) :
    fd.Patched s s' (page * fd.pageSize + offset) d ↔ fd.WritesThrough s page offset d := by
  have hloop := mtdWritePage_loop hpage h
  have hsector : page / fd.pagesPerSector * fd.pagesPerSector < 2 ^ 32 :=
    Nat.lt_of_le_of_lt (Nat.div_mul_le_self _ _) hpage
  have haddr := address_eq fd page offset
  have hmod := Nat.mod_le (fd.sectorOffset page offset) (2 ^ 32)
  unfold FlashDriver.Patched FlashDriver.WritesThrough
  by_cases hin : fd.sectorOffset page offset % 2 ^ 32 < fd.sectorSize
  · obtain ⟨hcont, hend⟩ := mtdWritePageLoop_spec hsector hin hlen rfl hloop
    rw [hcont]
    by_cases hfirst : fd.sectorOffset page offset < fd.sectorSize
    · rw [Nat.mod_eq_of_lt (by have := fd.toGeometry.sectorSize_lt'; omega), haddr,
        sectorWrite_eq_store_iff]
      refine and_congr_right fun _ => ?_
      constructor
      · intro hclear
        exact .inl ⟨hfirst, hclear⟩
      · intro hcond
        rcases hcond with ⟨-, hclear⟩ | ⟨hpast, -⟩
        · exact hclear
        · omega
    · -- the offset wrapped: the data went to an address below the right one
      have hbelow : page / fd.pagesPerSector * fd.sectorSize +
          fd.sectorOffset page offset % 2 ^ 32 + d.length ≤ page * fd.pageSize + offset := by
        omega
      rw [sectorWrite_eq_store_elsewhere hbelow, sectorWrite_eq_self_iff]
      refine and_congr_right fun _ => ?_
      constructor
      · intro ⟨hholds, hself⟩
        exact .inr ⟨by omega, hholds, fun _ => hself⟩
      · intro hcond
        rcases hcond with ⟨hlt, -⟩ | ⟨-, hholds, hself⟩
        · exact absurd hlt hfirst
        · exact ⟨hholds, hself hin⟩
  · obtain rfl := mtdWritePageLoop_past hsector (Nat.not_lt.mp hin) hlen rfl hloop
    refine and_congr_right fun _ => ?_
    rw [eq_comm, store_eq_self_iff]
    constructor
    · intro hholds
      exact .inr ⟨by omega, hholds, fun hlt => absurd hlt hin⟩
    · intro hcond
      rcases hcond with ⟨hlt, -⟩ | ⟨-, hholds, -⟩
      · omega
      · exact hholds

/-- Two sectors of one page of two bytes. -/
def twoSectors : Geometry where
  pageBits := 1
  pagesPerSector := 1
  sectorCount := 2
  pageBits_le := by decide
  pagesPerSector_pos := by decide
  sectorCount_pos := by decide
  pages_lt := by decide
  sectorSize_lt := by decide

/-- A byte in the middle of the device of zeros is set. -/
theorem mtdWritePage_patched_one : ∃ s', mtdWritePage (simulated twoSectors).dev (fun _ => 0#8)
      [5#8] 1 0 1 = some (0, s') ∧
    (simulated twoSectors).Patched (fun _ => 0#8) s' (1 * (simulated twoSectors).pageSize + 0)
      [5#8] := by
  have hrun : (mtdWritePage (simulated twoSectors).dev (fun _ => 0#8) [5#8] 1 0 1).map Prod.fst =
      some 0 := by decide +kernel
  obtain ⟨⟨r, s'⟩, hrun, rfl⟩ := Option.map_eq_some_iff.mp hrun
  refine ⟨s', hrun, (mtdWritePage_patched_iff (simulated twoSectors) (fun _ => 0#8) s' [5#8] 1 0
    (by decide) (by decide) hrun).mpr ⟨fun _ => by decide, .inl ⟨by decide, ?_⟩⟩⟩
  decide

/-- **The write of a whole sector does not erase it**: over zeros nothing is written. -/
theorem not_mtdWritePage_patched : ¬∀ (σ : Type) (fd : FlashDriver σ) (s s' : σ) (d : List Byte)
    (page offset : Nat), page < 2 ^ 32 → offset < 2 ^ 32 → d.length < 2 ^ 32 →
    mtdWritePage fd.dev s d page offset d.length = some (0, s') →
    fd.Patched s s' (page * fd.pageSize + offset) d := by
  intro hall
  have hrun : (mtdWritePage (simulated twoSectors).dev (fun _ => 0#8) [1#8, 1#8] 0 0 2).map
      (fun r => (r.1, r.2 0)) = some (0, 0#8) := by decide +kernel
  obtain ⟨⟨r, s'⟩, hrun, heq⟩ := Option.map_eq_some_iff.mp hrun
  obtain ⟨rfl, hbyte⟩ := Prod.mk.inj heq
  have hpatched := (hall _ (simulated twoSectors) (fun _ => 0#8) s' [1#8, 1#8] 0 0 (by decide)
    (by decide) (by decide) hrun).2
  have hone : s' 0 = 1#8 := congrFun hpatched 0
  rw [show s' 0 = 0#8 from hbyte] at hone
  exact absurd hone (by decide)

end Riot.Mtd
