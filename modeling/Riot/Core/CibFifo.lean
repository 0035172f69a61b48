import Riot.Core.Cib
import Riot.Lib.BoundedQueue
import Riot.Lib.Runs

/-!
# A circular integer buffer is a bounded FIFO

`cib_put` and `cib_get` hand out slots in ring order. The slots that are handed out for writing and not yet
for reading are a bounded queue, until a full buffer of 2^31 slots is asked for one more: its count is
negative as a signed number, and the oldest unread slot is handed out.
-/

namespace Riot.Core

open Riot.Lib List Nat BitVec

inductive CibOp where
  | put
  | get
deriving DecidableEq

def cibCall (cib : Cib) : CibOp → Option Nat × Cib
  | .put => cibPut cib
  | .get => cibGet cib

/-- The slots of a buffer: those that hold an unread element, and the one that is next in ring order. -/
structure SlotQueue (size : Nat) where
  unread : BoundedQueue Nat size
  next : Nat

variable {size : Nat}

/-- Hands out the next slot, unless all are unread. -/
def SlotQueue.put (q : SlotQueue size) : Option Nat × SlotQueue size :=
  if q.unread.items.length = size then (none, q)
  else (some q.next, { unread := q.unread.add [q.next], next := (q.next + 1) % size })

/-- Hands out the slot that is unread for the longest time. -/
def SlotQueue.get (q : SlotQueue size) : Option Nat × SlotQueue size :=
  (q.unread.pop.1, { q with unread := q.unread.pop.2 })

def SlotQueue.call (q : SlotQueue size) : CibOp → Option Nat × SlotQueue size
  | .put => q.put
  | .get => q.get

/-- The slots between the counters, in ring order. -/
def slotsOf (size start stored : Nat) : List Nat := ringItems id size start stored

/-- What is unread between two counters. -/
def SlotQueue.between (size : Nat) (readCount : BitVec 32) (stored : Nat) (h : stored ≤ size) : SlotQueue size where
  unread := ⟨slotsOf size readCount.toNat stored, by rw [slotsOf, ringItems_length]; exact h⟩
  next := (readCount.toNat + stored) % size

/-- The next slot is not unread, unless there is no room. -/
def SlotQueue.Free (q : SlotQueue size) : Prop :=
  q.unread.items.length < size → q.next < size ∧ q.next ∉ q.unread.items

/-- **When a call is right**: 2^31 elements are not stored when there is one more to put. -/
def PutAllowed (cib : Cib) : CibOp → Prop
  | .put => (cibAvail cib).toNat < 2 ^ 31
  | .get => True

instance (cib : Cib) (op : CibOp) : Decidable (PutAllowed cib op) := by
  cases op <;> unfold PutAllowed <;> infer_instance

/-! ## The queue -/

/-- The slots are those between two positions in the ring. -/
structure SlotQueue.Ring (q : SlotQueue size) (start : Nat) : Prop where
  items : q.unread.items = slotsOf size start q.unread.items.length
  next : q.next = (start + q.unread.items.length) % size

variable {start stored : Nat} {q : SlotQueue size}

theorem slotsOf_push : slotsOf size start (stored + 1) = slotsOf size start stored ++ [(start + stored) % size] := by
  unfold slotsOf ringItems
  rw [range_succ, map_append]
  rfl

theorem slotsOf_pop : slotsOf size start (stored + 1) = start % size :: slotsOf size (start + 1) stored :=
  ringItems_pop

theorem not_mem_slotsOf (h : stored < size) : (start + stored) % size ∉ slotsOf size start stored := by
  intro hmem
  obtain ⟨i, hi, heq⟩ := mem_map.mp hmem
  have hi : i < stored := mem_range.mp hi
  have hdvd : size ∣ (start + stored) - (start + i) := dvd_of_mod_eq_zero (sub_mod_eq_zero_of_mod_eq heq.symm)
  have := le_of_dvd (by omega) hdvd
  omega

theorem SlotQueue.Ring.free (h : q.Ring start) : q.Free := by
  intro hlt
  rw [h.next, h.items]
  rw [slotsOf, ringItems_length, ← slotsOf]
  exact ⟨mod_lt _ (by omega), not_mem_slotsOf hlt⟩

theorem SlotQueue.Ring.put (h : q.Ring start) : q.put.2.Ring start := by
  unfold SlotQueue.put
  split
  · exact h
  · have hle := q.unread.length_le
    have hitems : (q.unread.add [q.next]).items = q.unread.items ++ [q.next] := by
      rw [BoundedQueue.add_items, take_of_length_le (by rw [length_singleton]; omega)]
    constructor
    · rw [hitems, length_append, length_singleton, slotsOf_push, ← h.items, h.next]
    · rw [hitems, length_append, length_singleton, h.next, Nat.mod_add_mod, Nat.add_assoc]

theorem SlotQueue.Ring.get (h : q.Ring start) :
    q.get.2.Ring (if q.unread.items = [] then start else start + 1) := by
  have hitems : q.get.2.unread.items = q.unread.items.drop 1 := rfl
  have hnext : q.get.2.next = q.next := rfl
  split
  · rename_i hnil
    have hkeep : q.get.2.unread.items = q.unread.items := by rw [hitems, hnil]; rfl
    exact ⟨by rw [hkeep]; exact h.items, by rw [hkeep]; exact hnext.trans h.next⟩
  · rename_i hne
    obtain ⟨stored, hlen⟩ := exists_eq_succ_of_ne_zero (mt length_eq_zero_iff.mp hne)
    have htail : q.unread.items.drop 1 = slotsOf size (start + 1) stored := by
      rw [h.items, hlen, slotsOf_pop, drop_one, tail_cons]
    have hlen' : (q.unread.items.drop 1).length = stored := by rw [htail, slotsOf, ringItems_length]
    constructor
    · rw [hitems, hlen', htail]
    · rw [hitems, hlen', hnext, h.next, hlen]
      congr 1
      omega

theorem SlotQueue.Ring.call (h : q.Ring start) (op : CibOp) : ∃ start', (q.call op).2.Ring start' := by
  cases op with
  | put => exact ⟨start, h.put⟩
  | get => exact ⟨_, h.get⟩

theorem between_ring {readCount : BitVec 32} (h : stored ≤ size) :
    (SlotQueue.between size readCount stored h).Ring readCount.toNat := by
  have hlen : (SlotQueue.between size readCount stored h).unread.items.length = stored := ringItems_length
  constructor
  · rw [hlen]
    rfl
  · rw [hlen]
    rfl

theorem SlotQueue.Ring.congr {start' : Nat} (h : q.Ring start)
    (heq : start % size = start' % size) : q.Ring start' where
  items := h.items.trans (ringItems_congr heq)
  next := by
    rw [h.next, add_mod, heq, ← add_mod]

/-! ## The buffer and the queue -/

/-- The sizes that are documented. -/
def CibSize (size : Nat) : Prop := size = 0 ∨ ∃ k ≤ 31, size = 2 ^ k

/-- The buffer stores what the queue holds. -/
structure Stores (cib : Cib) (q : SlotQueue size) : Prop where
  mask : cib.mask = BitVec.ofNat 32 size - 1
  avail : (cibAvail cib).toNat = q.unread.items.length
  ring : q.Ring cib.readCount.toNat

variable {cib : Cib} {q : SlotQueue size} {k : Nat}

theorem Stores.sized {q : SlotQueue (2 ^ k)} (h : Stores cib q) (hk : k ≤ 31) : cib.Sized k := by
  refine ⟨hk, ?_⟩
  rw [h.mask]
  exact (cibInit_sized hk).2

theorem cibPut_full (h : cibFull cib = true) : cibPut cib = (none, cib) := by
  rw [cibPut_eq, if_pos h]

theorem cibPut_room (h : ¬ cibFull cib = true) : cibPut cib = (some (cibPutUnsafe cib).1, (cibPutUnsafe cib).2) := by
  rw [cibPut_eq, if_neg h]

theorem cibFull_iff_of_lt (hs : cib.Sized k) (hle : (cibAvail cib).toNat ≤ 2 ^ k) (hlt : (cibAvail cib).toNat < 2 ^ 31) :
    cibFull cib = true ↔ (cibAvail cib).toNat = 2 ^ k := by
  have hmask := hs.2
  have hk : 2 ^ k ≤ 2 ^ 31 := Nat.pow_le_pow_right (by omega) hs.1
  have hpos : 0 < 2 ^ k := Nat.two_pow_pos k
  unfold cibFull
  rw [decide_eq_true_eq, toInt_eq_toNat_cond, toInt_eq_toNat_cond]
  split <;> split <;> omega

theorem not_cibFull_of_eq (h : (cibAvail cib).toNat = 2 ^ 31) : ¬ cibFull cib = true := by
  unfold cibFull
  rw [decide_eq_true_eq, toInt_eq_toNat_cond, toInt_eq_toNat_cond]
  split <;> split <;> omega

theorem Stores.put_slot {q : SlotQueue (2 ^ k)} (h : Stores cib q) (hk : k ≤ 31) : (cibPutUnsafe cib).1 = q.next := by
  unfold cibPutUnsafe
  rw [and_mask (h.sized hk), writeCount_mod (h.sized hk), h.avail, h.ring.next]

theorem Stores.put_of_room {q : SlotQueue (2 ^ k)} (h : Stores cib q) (hk : k ≤ 31) (hroom : q.unread.items.length < 2 ^ k) :
    Stores (cibPutUnsafe cib).2 q.put.2 := by
  have hlt := (h.sized hk).lt
  have hput : q.put = (some q.next, { unread := q.unread.add [q.next], next := (q.next + 1) % 2 ^ k }) := by
    unfold SlotQueue.put
    rw [if_neg (by omega)]
  refine ⟨h.mask, ?_, h.ring.put⟩
  rw [cibAvail_put (by rw [h.avail]; omega), h.avail, hput]
  show _ = (q.unread.items ++ [q.next].take _).length
  rw [take_of_length_le (by rw [length_singleton]; omega), length_append, length_singleton]

theorem Stores.put_pow {q : SlotQueue (2 ^ k)} (h : Stores cib q) (hk : k ≤ 31) :
    ((cibAvail cib).toNat < 2 ^ 31 ↔ (cibPut cib).1 = q.put.1) ∧
      ((cibAvail cib).toNat < 2 ^ 31 → Stores (cibPut cib).2 q.put.2) := by
  have hs := h.sized hk
  have hle : (cibAvail cib).toNat ≤ 2 ^ k := h.avail.trans_le q.unread.length_le
  have hk' : 2 ^ k ≤ 2 ^ 31 := Nat.pow_le_pow_right (by omega) hk
  by_cases hroom : q.unread.items.length < 2 ^ k
  · have havail : (cibAvail cib).toNat < 2 ^ 31 := by rw [h.avail]; omega
    have hfull : ¬ cibFull cib = true := by
      rw [cibFull_iff_of_lt hs hle havail, h.avail]
      omega
    rw [cibPut_room hfull]
    have hres : q.put.1 = some q.next := by
      unfold SlotQueue.put
      rw [if_neg (by omega)]
    exact ⟨⟨fun _ => (congrArg some (h.put_slot hk)).trans hres.symm, fun _ => havail⟩, fun _ => h.put_of_room hk hroom⟩
  · have hfullq : q.unread.items.length = 2 ^ k := by
      have := q.unread.length_le
      omega
    have hput : q.put = (none, q) := by
      unfold SlotQueue.put
      rw [if_pos hfullq]
    by_cases havail : (cibAvail cib).toNat < 2 ^ 31
    · have hfull : cibFull cib = true := (cibFull_iff_of_lt hs hle havail).mpr (h.avail.trans hfullq)
      rw [cibPut_full hfull, hput]
      exact ⟨⟨fun _ => rfl, fun _ => havail⟩, fun _ => h⟩
    · have hmax : (cibAvail cib).toNat = 2 ^ 31 := by omega
      rw [cibPut_room (not_cibFull_of_eq hmax), hput]
      exact ⟨⟨fun hlt => absurd hlt havail, nofun⟩, fun hlt => absurd hlt havail⟩

theorem Stores.put_zero {q : SlotQueue 0} (h : Stores cib q) :
    ((cibAvail cib).toNat < 2 ^ 31 ↔ (cibPut cib).1 = q.put.1) ∧
      ((cibAvail cib).toNat < 2 ^ 31 → Stores (cibPut cib).2 q.put.2) := by
  have hlen : q.unread.items.length = 0 := le_zero.mp q.unread.length_le
  have havail : cibAvail cib = 0 := eq_of_toNat_eq (h.avail.trans hlen)
  have hfull : cibFull cib = true := by
    unfold cibFull
    rw [h.mask, havail]
    rfl
  have hput : q.put = (none, q) := by
    unfold SlotQueue.put
    rw [if_pos hlen]
  rw [cibPut_full hfull, hput, havail]
  exact ⟨⟨fun _ => rfl, fun _ => by decide⟩, fun _ => h⟩

theorem Stores.get_empty (h : Stores cib q) (hnil : q.unread.items = []) :
    (cibGet cib).1 = q.get.1 ∧ Stores (cibGet cib).2 q.get.2 := by
  have havail : cibAvail cib = 0 := by
    refine eq_of_toNat_eq (h.avail.trans ?_)
    rw [hnil]
    rfl
  have hget : q.get.2.unread.items = q.unread.items := by
    show q.unread.items.drop 1 = q.unread.items
    rw [hnil]
    rfl
  have hring := h.ring.get
  rw [if_pos hnil] at hring
  rw [cibGet_eq, if_pos havail]
  refine ⟨?_, h.mask, by rw [hget]; exact h.avail, hring⟩
  show none = q.unread.items.head?
  rw [hnil]
  rfl

theorem Stores.get_pow {q : SlotQueue (2 ^ k)} (h : Stores cib q) (hk : k ≤ 31) (hne : q.unread.items ≠ []) :
    (cibGet cib).1 = q.get.1 ∧ Stores (cibGet cib).2 q.get.2 := by
  have hs := h.sized hk
  obtain ⟨stored, hlen⟩ := exists_eq_succ_of_ne_zero (mt length_eq_zero_iff.mp hne)
  have havail : cibAvail cib ≠ 0 := by
    intro hzero
    have := h.avail
    rw [hzero, hlen] at this
    cases this
  have hring := h.ring.get
  rw [if_neg hne] at hring
  rw [cibGet_eq, if_neg havail]
  refine ⟨?_, h.mask, ?_, hring.congr ?_⟩
  · show some (cib.readCount &&& cib.mask).toNat = q.unread.items.head?
    rw [and_mask hs, h.ring.items, hlen, slotsOf_pop]
    rfl
  · have hget := cibAvail_get havail
    show (cibAvail (cibGetUnsafe cib).2).toNat = (q.unread.items.drop 1).length
    have := h.avail
    rw [length_drop]
    omega
  · show (cib.readCount.toNat + 1) % 2 ^ k = (cib.readCount + 1).toNat % 2 ^ k
    rw [toNat_add, mod_mod_of_dvd _ hs.dvd]
    rfl

theorem Stores.call (hsize : CibSize size) (h : Stores cib q) (op : CibOp) :
    (PutAllowed cib op ↔ (cibCall cib op).1 = (q.call op).1) ∧ (PutAllowed cib op → Stores (cibCall cib op).2 (q.call op).2) := by
  cases op with
  | put =>
    rcases hsize with rfl | ⟨k, hk, rfl⟩
    · exact h.put_zero
    · exact h.put_pow hk
  | get =>
    have hget : (cibGet cib).1 = q.get.1 ∧ Stores (cibGet cib).2 q.get.2 := by
      by_cases hnil : q.unread.items = []
      · exact h.get_empty hnil
      · rcases hsize with rfl | ⟨k, hk, rfl⟩
        · exact absurd (length_eq_zero_iff.mp (le_zero.mp q.unread.length_le)) hnil
        · exact h.get_pow hk hnil
    exact ⟨⟨fun _ => hget.1, fun _ => trivial⟩, fun _ => hget.2⟩

/-- `cib_init`, with other counters. -/
def cibStart (size : Nat) (readCount writeCount : BitVec 32) : Cib :=
  { cibInit (BitVec.ofNat 32 size) with readCount := readCount, writeCount := writeCount }

theorem between_stores {readCount writeCount : BitVec 32} (h : (writeCount - readCount).toNat ≤ size) :
    Stores (cibStart size readCount writeCount) (SlotQueue.between size readCount (writeCount - readCount).toNat h) :=
  ⟨rfl, ringItems_length.symm, between_ring h⟩

/-- **A circular integer buffer is a bounded FIFO** exactly as long as no full buffer of 2^31 slots is asked
for one more; and a bounded FIFO hands out no slot that is still unread. -/
theorem cib_refines_fifo_iff (size : Nat) (hsize : CibSize size) (readCount writeCount : BitVec 32)
    (hstored : (writeCount - readCount).toNat ≤ size) (ops : List CibOp) :
    (CallsMeet cibCall PutAllowed (cibStart size readCount writeCount) ops ↔
      results cibCall (cibStart size readCount writeCount) ops =
        results SlotQueue.call (SlotQueue.between size readCount (writeCount - readCount).toNat hstored) ops) ∧
    Always (fun q op => some (SlotQueue.call q op).2) SlotQueue.Free
      (SlotQueue.between size readCount (writeCount - readCount).toNat hstored) ops := by
  constructor
  · exact callsMeet_iff_results (fun _ _ op h => (h.call hsize op).1) (fun _ _ op h => (h.call hsize op).2) ops
      (between_stores hstored)
  · refine always_of_step (I := fun q => ∃ start, q.Ring start) ?_ ?_ ops ⟨_, between_ring hstored⟩
    · rintro q ⟨start, h⟩
      exact h.free
    · rintro q op q' ⟨start, h⟩ hstep
      cases hstep
      exact h.call op

/-- Counters that wrap, and a buffer that gets full. -/
theorem cib_refines_fifo_iff_wrapped :
    results cibCall (cibStart 2 0xFFFFFFFF 0xFFFFFFFF) [.put, .put, .put, .get, .put] =
      results SlotQueue.call (SlotQueue.between 2 0xFFFFFFFF 0 (by decide)) [.put, .put, .put, .get, .put] := by
  refine (cib_refines_fifo_iff 2 (.inr ⟨1, by decide, rfl⟩) 0xFFFFFFFF 0xFFFFFFFF (by decide)
    [.put, .put, .put, .get, .put]).1.mp ?_
  exact And.intro (by decide) (And.intro (by decide) (And.intro (by decide) (And.intro trivial (And.intro (by decide) trivial))))

/-- A full buffer of 2^31 slots hands out one more. -/
theorem not_cib_refines_fifo : ¬ ∀ (size : Nat), CibSize size → ∀ (readCount writeCount : BitVec 32)
    (hstored : (writeCount - readCount).toNat ≤ size) (ops : List CibOp),
    results cibCall (cibStart size readCount writeCount) ops =
      results SlotQueue.call (SlotQueue.between size readCount (writeCount - readCount).toNat hstored) ops := by
  intro hall
  have hstored : ((0x80000000 : BitVec 32) - 0).toNat ≤ 2 ^ 31 := by decide
  have hres := hall (2 ^ 31) (.inr ⟨31, by decide, rfl⟩) 0 0x80000000 hstored [.put]
  have hput := (List.cons.inj hres).1
  have hlt := ((between_stores hstored).put_pow (by decide)).1.mpr hput
  have hfull : ¬ (cibAvail (cibStart (2 ^ 31) 0 0x80000000)).toNat < 2 ^ 31 := by decide
  exact hfull hlt

end Riot.Core
