import Riot.Mtd.Device

/-!
# Flash devices

Drivers whose writes only clear bits and whose erase sets whole sectors to ones,
and what the loops over pages do on them: reading returns a slice of the content,
writing is a run of adjacent combinations.
-/

namespace Riot.Mtd

open Riot.Core Riot.Lib Riot.Lib.Memory Nat List

/-- Pages of a power of two of bytes and sectors that fit the work area. -/
structure Geometry where
  pageBits : Nat
  pagesPerSector : Nat
  sectorCount : Nat
  /-- `assert(mtd->page_size <= INT_MAX)` -/
  pageBits_le : pageBits ≤ 30
  pagesPerSector_pos : 0 < pagesPerSector
  sectorCount_pos : 0 < sectorCount
  /-- `assert(pages_numof >= mtd->sector_count)`: every page has a number -/
  pages_lt : sectorCount * pagesPerSector < 2 ^ 32
  /-- the size of the work area is a `uint32_t` -/
  sectorSize_lt : pagesPerSector * 2 ^ pageBits < 2 ^ 32

namespace Geometry

def pageSize (g : Geometry) : Nat := 2 ^ g.pageBits

def pages (g : Geometry) : Nat := g.sectorCount * g.pagesPerSector

def sectorSize (g : Geometry) : Nat := g.pagesPerSector * g.pageSize

/-- The number of bytes on the device. -/
def size (g : Geometry) : Nat := g.sectorCount * g.sectorSize

end Geometry

/-- A driver call for up to `size` bytes of a page: it fails, or handles a positive
number of them up to the end of the page. -/
def Geometry.Handles (g : Geometry) (page offset size : Nat) (r : Int) (done : Nat → Prop) : Prop :=
  0 ≤ r → ∃ n : Nat, r = n ∧ 0 < n ∧ n ≤ size ∧ offset + n ≤ g.pageSize ∧ page < g.pages ∧ done n

/-- A driver without `MTD_DRIVER_FLAG_DIRECT_WRITE`: writing only clears bits and
erasing sets whole sectors to ones. `content` is what the device holds. -/
structure FlashDriver (σ : Type) extends Geometry where
  content : σ → Memory Byte
  read : Option (σ → (addr size : Nat) → Int × List Byte × σ)
  readPage : σ → (page offset size : Nat) → Int × List Byte × σ
  writePage : σ → (buff : List Byte) → (page offset size : Nat) → Int × σ
  erase : Option (σ → (addr size : Nat) → Int × σ)
  eraseSector : σ → (sector count : Nat) → Int × σ
  readPage_spec : ∀ s page offset n, offset < toGeometry.pageSize → 0 < n →
    toGeometry.Handles page offset n (readPage s page offset n).1 fun r =>
      (readPage s page offset n).2.1.take r =
          slice (content s) (page * toGeometry.pageSize + offset) r ∧
        content (readPage s page offset n).2.2 = content s
  writePage_spec : ∀ s buff page offset n, offset < toGeometry.pageSize → 0 < n →
    n ≤ buff.length →
    toGeometry.Handles page offset n (writePage s buff page offset n).1 fun r =>
      content (writePage s buff page offset n).2 =
        combine (· &&& ·) (content s) (page * toGeometry.pageSize + offset) (buff.take r)
  eraseSector_spec : ∀ s sector n, 0 ≤ (eraseSector s sector n).1 →
    content (eraseSector s sector n).2 =
      store (content s) (sector * toGeometry.sectorSize)
        (List.replicate (n * toGeometry.sectorSize) (BitVec.allOnes 8))

variable {σ : Type}

/-- The device descriptor of a driver. -/
def FlashDriver.dev (fd : FlashDriver σ) : MtdDev σ where
  driver := some ⟨fd.read, some fd.readPage, some fd.writePage, fd.erase, some fd.eraseSector, false⟩
  sectorCount := fd.sectorCount
  pagesPerSector := fd.pagesPerSector
  pageSize := fd.pageSize

/-! ## The geometry as the code computes it -/

namespace Geometry

variable (g : Geometry)

theorem pageSize_pos : 0 < g.pageSize := Nat.two_pow_pos _

theorem pageSize_lt : g.pageSize < 2 ^ 31 := Nat.pow_lt_pow_right (by omega) (by have := g.pageBits_le; omega)

theorem sectorSize_pos : 0 < g.sectorSize := mul_pos g.pagesPerSector_pos g.pageSize_pos

theorem pages_lt' : g.pages < 2 ^ 32 := g.pages_lt

theorem sectorSize_lt' : g.sectorSize < 2 ^ 32 := g.sectorSize_lt

theorem sector_lt {sector : Nat} (h : sector * g.pagesPerSector < 2 ^ 32) : sector < 2 ^ 32 :=
  Nat.lt_of_le_of_lt (Nat.le_mul_of_pos_right _ g.pagesPerSector_pos) h

theorem sectorPage_mul (sector : Nat) : sector * g.pagesPerSector * g.pageSize = sector * g.sectorSize := by
  rw [sectorSize, mul_assoc]

end Geometry

namespace FlashDriver

variable (fd : FlashDriver σ)

@[simp] theorem dev_pageShift : fd.dev.pageShift = fd.pageBits :=
  bitarithmMsb_twoPow (by have := fd.pageBits_le; omega)

@[simp] theorem dev_sectorSize : fd.dev.sectorSize = fd.sectorSize := mod_eq_of_lt fd.sectorSize_lt

theorem shift_eq (x : Nat) : x >>> fd.dev.pageShift = x / fd.pageSize := by
  rw [dev_pageShift, shiftRight_eq_div_pow, Geometry.pageSize]

theorem mask_eq (x : Nat) : x &&& fd.dev.pageMask = x % fd.pageSize := by
  have hmask : fd.dev.pageMask = 2 ^ fd.pageBits - 1 := by
    have h1 := fd.toGeometry.pageSize_pos
    have h2 := fd.toGeometry.pageSize_lt
    show (fd.pageSize + (2 ^ 32 - 1)) % 2 ^ 32 = fd.pageSize - 1
    omega
  rw [hmask, and_two_pow_sub_one_eq_mod, Geometry.pageSize]

@[simp] theorem dev_pageSizeOk : fd.dev.pageSizeOk = true := by
  have hbits := bitarithmBitsSet_twoPow ⟨fd.pageBits, by have := fd.pageBits_le; omega⟩
  unfold MtdDev.pageSizeOk
  rw [Bool.and_eq_true, decide_eq_true_eq, decide_eq_true_eq]
  exact ⟨fd.toGeometry.pageSize_lt, hbits⟩

theorem next_place {page offset n : Nat} (hoff : offset + n ≤ fd.pageSize) (hpage : page < fd.pages) :
    u32 (page + (offset + n) >>> fd.dev.pageShift) * fd.pageSize +
        ((offset + n) &&& fd.dev.pageMask) = page * fd.pageSize + offset + n ∧
      u32 (page + (offset + n) >>> fd.dev.pageShift) < 2 ^ 32 ∧
      ((offset + n) &&& fd.dev.pageMask) < fd.pageSize := by
  have hpos := fd.toGeometry.pageSize_pos
  have hlt := fd.toGeometry.pages_lt'
  have hdiv : (offset + n) / fd.pageSize ≤ 1 := by
    rw [← Nat.div_self hpos]
    exact Nat.div_le_div_right hoff
  rw [shift_eq, mask_eq, u32, mod_eq_of_lt (by omega)]
  refine ⟨?_, by omega, mod_lt _ hpos⟩
  rw [add_mul, add_assoc, add_assoc, mul_comm (_ / _), div_add_mod]

end FlashDriver

/-! ## Reading and writing pages -/

theorem combine_ones {m : Memory Byte} {a : Nat} {d : List Byte} :
    combine (· &&& ·) (store m a (replicate d.length (BitVec.allOnes 8))) a d = store m a d := by
  rw [combine_eq_store, store_store (by rw [length_replicate])]
  intro i hi
  rw [store_inside (by rw [length_replicate]; exact hi), getElem_replicate,
    BitVec.allOnes_and]

section

variable {fd : FlashDriver σ} {s s' : σ}

theorem mtdReadPageLoop_spec {fuel : Nat} : ∀ {s s' : σ} {page offset count : Nat} {r : Int}
    {bytes : List Byte}, count < 2 ^ 32 → offset < fd.pageSize → page < 2 ^ 32 →
    mtdReadPageLoop fd.dev fd.readPage fuel s page offset count = some (r, bytes, s') → 0 ≤ r →
    bytes = slice (fd.content s) (page * fd.pageSize + offset) count ∧ fd.content s' = fd.content s := by
  induction fuel with
  | zero =>
    intro s s' page offset count r bytes hcount hoff hpage h hr
    cases count with
    | zero =>
      obtain ⟨rfl, rfl, rfl⟩ := h
      exact ⟨rfl, rfl⟩
    | succ count => simp only [mtdReadPageLoop, reduceCtorEq] at h
  | succ fuel ih =>
    intro s s' page offset count r bytes hcount hoff hpage h hr
    cases count with
    | zero =>
      obtain ⟨rfl, rfl, rfl⟩ := h
      exact ⟨rfl, rfl⟩
    | succ count =>
      simp only [mtdReadPageLoop] at h
      split at h
      next hneg =>
        simp only [Option.some.injEq, Prod.mk.injEq] at h
        omega
      next hneg =>
        obtain ⟨n, hn, hpos, hle, hend, hp, hbytes, hcont⟩ :=
          fd.readPage_spec s page offset (count + 1) hoff (by omega) (Int.not_lt.mp hneg)
        obtain ⟨⟨r', rest, t⟩, hrun, heq⟩ := Option.map_eq_some_iff.mp h
        obtain ⟨rfl, rfl, rfl⟩ := heq
        rw [hn, Int.toNat_natCast] at hrun ⊢
        obtain ⟨haddr, hpage', hoff'⟩ := fd.next_place hend hp
        have hleft : u32 (count + 1 + 2 ^ 32 - n) = count + 1 - n := by
          unfold u32
          omega
        rw [hleft] at hrun
        obtain ⟨hrest, hsame⟩ := ih (by omega) hoff' hpage' hrun hr
        rw [hbytes, hrest, hsame, hcont, haddr]
        refine ⟨?_, rfl⟩
        rw [← slice_add]
        congr 1
        omega

theorem mtdWritePageRawLoop_spec {fuel : Nat} : ∀ {s s' : σ} {src : List Byte}
    {page offset count : Nat} {r : Int}, count < 2 ^ 32 → count ≤ src.length →
    offset < fd.pageSize → page < 2 ^ 32 →
    mtdWritePageRawLoop fd.dev fd.writePage fuel s src page offset count = some (r, s') → 0 ≤ r →
    fd.content s' = combine (· &&& ·) (fd.content s) (page * fd.pageSize + offset)
        (src.take count) ∧ (0 < count → page < fd.pages) := by
  induction fuel with
  | zero =>
    intro s s' src page offset count r hcount hsrc hoff hpage h hr
    cases count with
    | zero =>
      obtain ⟨rfl, rfl⟩ := h
      exact ⟨by simp, by simp⟩
    | succ count => simp only [mtdWritePageRawLoop, reduceCtorEq] at h
  | succ fuel ih =>
    intro s s' src page offset count r hcount hsrc hoff hpage h hr
    cases count with
    | zero =>
      obtain ⟨rfl, rfl⟩ := h
      exact ⟨by simp, by simp⟩
    | succ count =>
      simp only [mtdWritePageRawLoop] at h
      split at h
      next hneg =>
        simp only [Option.some.injEq, Prod.mk.injEq] at h
        omega
      next hneg =>
        obtain ⟨n, hn, hpos, hle, hend, hp, hcont⟩ :=
          fd.writePage_spec s src page offset (count + 1) hoff (by omega) hsrc (Int.not_lt.mp hneg)
        rw [hn, Int.toNat_natCast] at h
        obtain ⟨haddr, hpage', hoff'⟩ := fd.next_place hend hp
        have hleft : u32 (count + 1 + 2 ^ 32 - n) = count + 1 - n := by
          unfold u32
          omega
        rw [hleft] at h
        obtain ⟨hrest, -⟩ := ih (by omega) (by rw [length_drop]; omega) hoff' hpage' h hr
        refine ⟨?_, fun _ => hp⟩
        have hlen : (src.take n).length = n := by
          rw [length_take]
          omega
        have hsplit : src.take n ++ (src.drop n).take (count + 1 - n) = src.take (count + 1) := by
          rw [← take_add]
          congr 1
          omega
        rw [hrest, hcont, haddr, ← hsplit, ← combine_append, hlen]

theorem mtdReadPage_spec {page count : Nat} {r : Int} {bytes : List Byte} (hcount : count < 2 ^ 32)
    (hpage : page < 2 ^ 32)
    (h : mtdReadPage fd.dev s page 0 count = some (r, bytes, s')) (hr : 0 ≤ r) :
    bytes = slice (fd.content s) (page * fd.pageSize) count ∧ fd.content s' = fd.content s := by
  unfold mtdReadPage at h
  dsimp only [FlashDriver.dev] at h
  split at h
  next => simp_all
  next hout =>
    simp only [Option.some.injEq, Prod.mk.injEq] at h
    exact absurd hr (by rw [← h.1]; decide)
  next hin =>
    change (if fd.dev.pageSizeOk then _ else _) = _ at h
    rw [fd.dev_pageSizeOk, if_pos rfl] at h
    have hplace : u32 (page + 0 >>> fd.dev.pageShift) = page := by
      rw [zero_shiftRight, add_zero, u32, mod_eq_of_lt hpage]
    have hmask : 0 &&& fd.dev.pageMask = 0 := zero_and _
    change mtdReadPageLoop fd.dev fd.readPage count s (u32 (page + 0 >>> fd.dev.pageShift))
      (0 &&& fd.dev.pageMask) count = _ at h
    rw [hplace, hmask] at h
    exact mtdReadPageLoop_spec hcount fd.toGeometry.pageSize_pos hpage h hr

theorem mtdWritePageRaw_spec {page count : Nat} {src : List Byte} {r : Int}
    (hcount : count < 2 ^ 32) (hsrc : count ≤ src.length) (hpage : page < 2 ^ 32)
    (h : mtdWritePageRaw fd.dev s src page 0 count = some (r, s')) (hr : 0 ≤ r) :
    fd.content s' = combine (· &&& ·) (fd.content s) (page * fd.pageSize) (src.take count) ∧
      (0 < count → page < fd.pages) := by
  unfold mtdWritePageRaw at h
  dsimp only [FlashDriver.dev] at h
  split at h
  next => simp_all
  next hout =>
    simp only [Option.some.injEq, Prod.mk.injEq] at h
    exact absurd hr (by rw [← h.1]; decide)
  next hin =>
    change (if fd.dev.pageSizeOk then _ else _) = _ at h
    rw [fd.dev_pageSizeOk, if_pos rfl] at h
    have hplace : u32 (page + 0 >>> fd.dev.pageShift) = page := by
      rw [zero_shiftRight, add_zero, u32, mod_eq_of_lt hpage]
    have hmask : 0 &&& fd.dev.pageMask = 0 := zero_and _
    change mtdWritePageRawLoop fd.dev fd.writePage count s src
      (u32 (page + 0 >>> fd.dev.pageShift)) (0 &&& fd.dev.pageMask) count = _ at h
    rw [hplace, hmask] at h
    exact mtdWritePageRawLoop_spec hcount hsrc fd.toGeometry.pageSize_pos hpage h hr

theorem mtdEraseSector_spec {sector count : Nat} {r : Int} (hsector : sector < 2 ^ 32)
    (hcount : count < 2 ^ 32)
    (h : mtdEraseSector fd.dev s sector count = (r, s')) (hr : 0 ≤ r) :
    sector + count ≤ fd.sectorCount ∧ fd.content s' = store (fd.content s) (sector * fd.sectorSize)
        (replicate (count * fd.sectorSize) (BitVec.allOnes 8)) := by
  have herase : mtdEraseSector fd.dev s sector count =
      if fd.sectorCount < u32 (sector + count) then (-EOVERFLOW, s)
      else if u32 (sector + count) < sector then (-EOVERFLOW, s)
      else fd.eraseSector s sector count := rfl
  have hfail : ¬(-EOVERFLOW, s) = (r, s') := by
    intro heq
    rw [← (Prod.mk.inj heq).1] at hr
    exact absurd hr (by decide)
  rw [herase] at h
  by_cases hout : fd.sectorCount < u32 (sector + count)
  · rw [if_pos hout] at h
    exact absurd h hfail
  by_cases hwrap : u32 (sector + count) < sector
  · rw [if_neg hout, if_pos hwrap] at h
    exact absurd h hfail
  rw [if_neg hout, if_neg hwrap] at h
  have hspec := fd.eraseSector_spec s sector count (by rw [h]; exact hr)
  rw [h] at hspec
  refine ⟨?_, hspec⟩
  unfold u32 at hout hwrap
  omega

end

/-! ## A device in memory -/

/-- A driver for any geometry: each call goes up to the end of the page. -/
def simulated (g : Geometry) : FlashDriver (Memory Byte) where
  toGeometry := g
  content := id
  read := none
  readPage m page offset n :=
    if page < g.pages then
      let k := min n (g.pageSize - offset)
      (k, slice m (page * g.pageSize + offset) k, m)
    else (-1, [], m)
  writePage m buff page offset n :=
    if page < g.pages then
      let k := min n (g.pageSize - offset)
      (k, combine (· &&& ·) m (page * g.pageSize + offset) (buff.take k))
    else (-1, m)
  erase := none
  eraseSector m sector n :=
    (0, store m (sector * g.sectorSize) (List.replicate (n * g.sectorSize) (BitVec.allOnes 8)))
  readPage_spec m page offset n hoff hn hr := by
    by_cases hp : page < g.pages
    · refine ⟨min n (g.pageSize - offset), by rw [if_pos hp], by omega, by omega, by omega, hp, ?_⟩
      rw [if_pos hp]
      exact ⟨List.take_of_length_le length_slice.le, rfl⟩
    · rw [if_neg hp] at hr
      exact absurd (show (0 : Int) ≤ -1 from hr) (by decide)
  writePage_spec m buff page offset n hoff hn hbuff hr := by
    by_cases hp : page < g.pages
    · refine ⟨min n (g.pageSize - offset), by rw [if_pos hp], by omega, by omega, by omega, hp, ?_⟩
      rw [if_pos hp]
      rfl
    · rw [if_neg hp] at hr
      exact absurd (show (0 : Int) ≤ -1 from hr) (by decide)
  eraseSector_spec _ _ _ _ := rfl

end Riot.Mtd
