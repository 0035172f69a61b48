import Riot.Core.Bitarithm
import Riot.Lib.Memory

/-!
# Memory technology devices

`drivers/mtd/mtd.c`: paged reads and writes, sector erase, and the page write
that reads a sector, erases it and writes it back. A driver works on a device
state of its own; `none` is a failed assertion, a write past the work area, or a
driver that keeps the caller in its loop by handling no byte.
-/

namespace Riot.Mtd

open Riot.Core

abbrev Byte := BitVec 8

/-- `uint32_t` arithmetic. -/
def u32 (x : Nat) : Nat := x % 2 ^ 32

/-- An unsigned 32-bit result read as an `int`. -/
def int32 (x : Nat) : Int := (BitVec.ofNat 32 x).toInt

def ENODEV : Int := 19
def EOVERFLOW : Int := 75
def ENOTSUP : Int := 95

/-- `mtd_desc_t`. A read returns the bytes it left in the buffer. -/
structure MtdDesc (σ : Type) where
  read : Option (σ → (addr size : Nat) → Int × List Byte × σ)
  readPage : Option (σ → (page offset size : Nat) → Int × List Byte × σ)
  writePage : Option (σ → (buff : List Byte) → (page offset size : Nat) → Int × σ)
  erase : Option (σ → (addr size : Nat) → Int × σ)
  eraseSector : Option (σ → (sector count : Nat) → Int × σ)
  /-- `flags & MTD_DRIVER_FLAG_DIRECT_WRITE` -/
  directWrite : Bool

/-- `mtd_dev_t`; the fields are `uint32_t`. -/
structure MtdDev (σ : Type) where
  driver : Option (MtdDesc σ)
  sectorCount : Nat
  pagesPerSector : Nat
  pageSize : Nat

variable {σ : Type}

/-- `bitarithm_msb(mtd->page_size)` -/
def MtdDev.pageShift (mtd : MtdDev σ) : Nat := bitarithmMsb (BitVec.ofNat 32 mtd.pageSize)

/-- `mtd->page_size - 1` -/
def MtdDev.pageMask (mtd : MtdDev σ) : Nat := u32 (mtd.pageSize + (2 ^ 32 - 1))

/-- `mtd->pages_per_sector * mtd->page_size`, as computed. -/
def MtdDev.sectorSize (mtd : MtdDev σ) : Nat := u32 (mtd.pagesPerSector * mtd.pageSize)

def outOfBounds (mtd : MtdDev σ) (page offset len : Nat) : Option Bool :=
  let pagesNumof := u32 (mtd.sectorCount * mtd.pagesPerSector)
  -- assert(pages_numof >= mtd->sector_count)
  if pagesNumof < mtd.sectorCount then none
  else some (decide (pagesNumof ≤ u32 (page + u32 (offset + len + (2 ^ 32 - 1)) >>> mtd.pageShift)))

/-- `assert(page_size <= INT_MAX)` and `assert(bitarithm_bits_set(page_size) == 1)` -/
def MtdDev.pageSizeOk (mtd : MtdDev σ) : Bool :=
  decide (mtd.pageSize < 2 ^ 31) && decide (bitarithmBitsSet (BitVec.ofNat 32 mtd.pageSize) = 1)

/-- The loop of `mtd_read_page`. -/
def mtdReadPageLoop (mtd : MtdDev σ)
    (readPage : σ → (page offset size : Nat) → Int × List Byte × σ) :
    Nat → σ → (page offset count : Nat) → Option (Int × List Byte × σ)
  | _, s, _, _, 0 => some (0, [], s)
  | 0, _, _, _, _ => none
  | fuel + 1, s, page, offset, count =>
    match readPage s page offset count with
    | (readBytes, bytes, s) =>
      if readBytes < 0 then some (readBytes, bytes, s)
      else
        let n := readBytes.toNat
        (mtdReadPageLoop mtd readPage fuel s (u32 (page + (offset + n) >>> mtd.pageShift))
          ((offset + n) &&& mtd.pageMask) (u32 (count + 2 ^ 32 - n))).map
          fun r => (r.1, bytes.take n ++ r.2.1, r.2.2)

def mtdReadPage (mtd : MtdDev σ) (s : σ) (page offset count : Nat) :
    Option (Int × List Byte × σ) :=
  match mtd.driver with
  | none => some (-ENODEV, [], s)
  | some driver =>
    match outOfBounds mtd page offset count with
    | none => none
    | some true => some (-EOVERFLOW, [], s)
    | some false =>
      match driver.readPage, driver.read with
      | none, some read => some (read s (u32 (mtd.pageSize * page + offset)) count)
      | none, none => some (-ENOTSUP, [], s)
      | some readPage, _ =>
        if mtd.pageSizeOk then
          mtdReadPageLoop mtd readPage count s (u32 (page + offset >>> mtd.pageShift))
            (offset &&& mtd.pageMask) count
        else none

/-- The loop of `mtd_write_page_raw`. -/
def mtdWritePageRawLoop (mtd : MtdDev σ)
    (writePage : σ → (buff : List Byte) → (page offset size : Nat) → Int × σ) :
    Nat → σ → (src : List Byte) → (page offset count : Nat) → Option (Int × σ)
  | _, s, _, _, _, 0 => some (0, s)
  | 0, _, _, _, _, _ => none
  | fuel + 1, s, src, page, offset, count =>
    match writePage s src page offset count with
    | (written, s) =>
      if written < 0 then some (written, s)
      else
        let n := written.toNat
        mtdWritePageRawLoop mtd writePage fuel s (src.drop n)
          (u32 (page + (offset + n) >>> mtd.pageShift)) ((offset + n) &&& mtd.pageMask)
          (u32 (count + 2 ^ 32 - n))

def mtdWritePageRaw (mtd : MtdDev σ) (s : σ) (src : List Byte) (page offset count : Nat) :
    Option (Int × σ) :=
  match mtd.driver with
  | none => some (-ENODEV, s)
  | some driver =>
    match outOfBounds mtd page offset count with
    | none => none
    | some true => some (-EOVERFLOW, s)
    | some false =>
      match driver.writePage with
      | none => some (-ENOTSUP, s)
      | some writePage =>
        if mtd.pageSizeOk then
          mtdWritePageRawLoop mtd writePage count s src (u32 (page + offset >>> mtd.pageShift))
            (offset &&& mtd.pageMask) count
        else none

def mtdEraseSector (mtd : MtdDev σ) (s : σ) (sector count : Nat) : Int × σ :=
  match mtd.driver with
  | none => (-ENODEV, s)
  | some driver =>
    if mtd.sectorCount < u32 (sector + count) then (-EOVERFLOW, s)
    else if u32 (sector + count) < sector then (-EOVERFLOW, s)
    else
      match driver.eraseSector, driver.erase with
      | some eraseSector, _ => eraseSector s sector count
      | none, some erase => erase s (u32 (sector * mtd.sectorSize)) (u32 (count * mtd.sectorSize))
      | none, none => (-ENOTSUP, s)

/-- The write back at the end of `_write_sector`: `len` is what it reports. -/
def writeBack (mtd : MtdDev σ) (s : σ) (work : List Byte) (sectorPage len : Nat) :
    Option (Int × σ) :=
  match mtdWritePageRaw mtd s work sectorPage 0 mtd.sectorSize with
  | none => none
  | some (res, s) => if res < 0 then some (res, s) else some (int32 len, s)

/-- The slow path of `_write_sector`: the sector is read, erased, modified in the work
area and written back. -/
def modifySector (mtd : MtdDev σ) (s : σ) (data : List Byte) (sector sectorPage offset len : Nat) :
    Option (Int × σ) :=
  match mtdReadPage mtd s sectorPage 0 mtd.sectorSize with
  | none => none
  | some (res, work, s) =>
    if res < 0 then some (res, s)
    else
      match mtdEraseSector mtd s sector 1 with
      | (res, s) =>
        if res < 0 then some (res, s)
        -- memcpy(work + offset, data, len)
        else if mtd.sectorSize < offset + len then none
        else writeBack mtd s (work.take offset ++ data.take len ++ work.drop (offset + len))
          sectorPage len

/-- `_write_sector`, its `size_t` result as its caller reads it: as an `int`. -/
def writeSector (mtd : MtdDev σ) (s : σ) (data : List Byte) (sector offset len : Nat) :
    Option (Int × σ) :=
  let sectorPage := u32 (sector * mtd.pagesPerSector)
  if mtd.sectorSize ≤ offset then some (int32 len, s)
  else
    let len := if mtd.sectorSize < u32 (offset + len) then mtd.sectorSize - offset else len
    -- fast path: the sector is neither read nor erased
    if offset = 0 ∧ len = mtd.sectorSize then writeBack mtd s data sectorPage len
    else modifySector mtd s data sector sectorPage offset len

/-- The loop of `mtd_write_page`. -/
def mtdWritePageLoop (mtd : MtdDev σ) :
    Nat → σ → (src : List Byte) → (sector offset len : Nat) → Option (Int × σ)
  | _, s, _, _, _, 0 => some (0, s)
  | 0, _, _, _, _, _ => none
  | fuel + 1, s, src, sector, offset, len =>
    match writeSector mtd s src sector offset len with
    | none => none
    | some (written, s) =>
      if written < 0 then some (written, s)
      else
        mtdWritePageLoop mtd fuel s (src.drop written.toNat) (u32 (sector + 1)) 0
          (u32 (len + 2 ^ 32 - written.toNat))

/-- `mtd_write_page`, for `len` bytes of `data`. -/
def mtdWritePage (mtd : MtdDev σ) (s : σ) (data : List Byte) (page offset len : Nat) :
    Option (Int × σ) :=
  match mtd.driver with
  | none => some (-ENODEV, s)
  | some driver =>
    match driver.writePage with
    | none => some (-ENOTSUP, s)
    | some _ =>
      match outOfBounds mtd page offset len with
      | none => none
      | some true => some (-EOVERFLOW, s)
      | some false =>
        if driver.directWrite then mtdWritePageRaw mtd s data page offset len
        else
          let sector := page / mtd.pagesPerSector
          let sectorPage := u32 (sector * mtd.pagesPerSector)
          mtdWritePageLoop mtd len s data sector
            (u32 (offset + (page - sectorPage) * mtd.pageSize)) len

/-- `mtd_write_sector`; it reads the flags of a driver that must be there. -/
def mtdWriteSector (mtd : MtdDev σ) (s : σ) (data : List Byte) (sector count : Nat) :
    Option (Int × σ) :=
  match mtd.driver with
  | none => none
  | some driver =>
    let erased := if driver.directWrite then (0, s) else mtdEraseSector mtd s sector count
    if erased.1 ≠ 0 then some erased
    else
      mtdWritePageRaw mtd erased.2 data (u32 (sector * mtd.pagesPerSector)) 0
        (u32 (count * mtd.pagesPerSector * mtd.pageSize))

end Riot.Mtd
