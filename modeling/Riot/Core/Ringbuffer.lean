import Riot.Lib.BoundedQueue
import Riot.Lib.RingBuffer
import Riot.Lib.Runs

/-!
# Ring buffers (`core/lib/ringbuffer.c`)

Bytes in an array, read from `start` on. Positions and counts are `unsigned`; an access outside of the
array has no result. What the calls return and copy is what a queue of that capacity returns.
-/

namespace Riot.Core

open Riot.Lib List Nat

/-- `ringbuffer_t` -/
structure Ringbuffer where
  buf : Nat → UInt8
  size : Nat
  start : Nat
  avail : Nat

namespace Ringbuffer

/-- `unsigned` -/
def wrap (n : Nat) : Nat := n % 2 ^ 32

/-- The difference of `unsigned` numbers. -/
def sub (a b : Nat) : Nat := (a + 2 ^ 32 - b) % 2 ^ 32

/-- `memcpy` out of the array -/
def read (rb : Ringbuffer) (pos n : Nat) : Option (List UInt8) :=
  if pos + n ≤ rb.size then some ((List.range n).map fun i => rb.buf (pos + i)) else none

def write (rb : Ringbuffer) (pos : Nat) (c : UInt8) : Option Ringbuffer :=
  if pos < rb.size then some { rb with buf := Function.update rb.buf pos c } else none

/-- `ringbuffer_init`, with what is in the array -/
def init (buf : Nat → UInt8) (size : Nat) : Ringbuffer := ⟨buf, size, 0, 0⟩

def empty (rb : Ringbuffer) : Bool := rb.avail = 0

def full (rb : Ringbuffer) : Bool := rb.avail = rb.size

def addTail (rb : Ringbuffer) (c : UInt8) : Option Ringbuffer :=
  let pos := wrap (rb.start + rb.avail)
  let pos := if rb.size ≤ pos then pos - rb.size else pos
  { rb with avail := wrap (rb.avail + 1) }.write pos c

def getHead (rb : Ringbuffer) : Option (UInt8 × Ringbuffer) :=
  (rb.read rb.start 1).map fun result =>
    let avail := sub rb.avail 1
    let start :=
      if avail = 0 then 0
      else if wrap (rb.start + 1) = rb.size then 0
      else wrap (rb.start + 1)
    (result.headD 0, { rb with start := start, avail := avail })

def add (rb : Ringbuffer) : List UInt8 → Option (Nat × Ringbuffer)
  | [] => some (0, rb)
  | c :: cs =>
    if rb.full then some (0, rb)
    else (rb.addTail c).bind fun rb => (rb.add cs).map fun (i, rb) => (i + 1, rb)

def addOne (rb : Ringbuffer) (c : UInt8) : Option (Int × Ringbuffer) :=
  if rb.full then rb.getHead.bind fun (head, rb) => (rb.addTail c).map fun rb => (head.toNat, rb)
  else (rb.addTail c).map fun rb => (-1, rb)

def getOne (rb : Ringbuffer) : Option (Int × Ringbuffer) :=
  if !rb.empty then rb.getHead.map fun (head, rb) => (head.toNat, rb) else some (-1, rb)

/-- `ringbuffer_get`: how many bytes, and which. -/
def get (rb : Ringbuffer) (n : Nat) : Option ((Nat × List UInt8) × Ringbuffer) :=
  let n := if rb.avail < n then rb.avail else n
  if 0 < n then
    let bytesTillEnd := sub rb.size rb.start
    if n ≤ bytesTillEnd then
      (rb.read rb.start n).map fun bytes =>
        let start := if bytesTillEnd = n then 0 else wrap (rb.start + n)
        ((n, bytes), { rb with start := start, avail := rb.avail - n })
    else
      (rb.read rb.start bytesTillEnd).bind fun bytes =>
        let start := n - bytesTillEnd
        (rb.read 0 start).map fun bytes' =>
          ((n, bytes ++ bytes'), { rb with start := start, avail := rb.avail - n })
  else some ((n, []), rb)

def remove (rb : Ringbuffer) (n : Nat) : Nat × Ringbuffer :=
  if rb.avail < n then (rb.avail, { rb with start := 0, avail := 0 })
  else
    let start := wrap (rb.start + n)
    let start := if rb.size ≤ start then start - rb.size else start
    (n, { rb with start := start, avail := rb.avail - n })

def peekOne (rb : Ringbuffer) : Option Int := rb.getOne.map fun r => r.1

def peek (rb : Ringbuffer) (n : Nat) : Option (Nat × List UInt8) := (rb.get n).map fun r => r.1

end Ringbuffer

/-! ## Calls -/

inductive RingbufferOp where
  | add (bytes : List UInt8)
  | addOne (c : UInt8)
  | get (n : Nat)
  | getOne
  | remove (n : Nat)
  | peek (n : Nat)
  | peekOne

/-- What is seen of a call: the return value, and the bytes that were copied. -/
abbrev Seen := Int × List UInt8

/-- A call, which has no result if it goes outside of the array. -/
def ringbufferCall (rb : Ringbuffer) (op : RingbufferOp) : Option Seen × Ringbuffer :=
  let result : Option (Seen × Ringbuffer) :=
    match op with
    | .add bytes => (rb.add bytes).map fun r => ((r.1, []), r.2)
    | .addOne c => (rb.addOne c).map fun r => ((r.1, []), r.2)
    | .get n => (rb.get n).map fun r => ((r.1.1, r.1.2), r.2)
    | .getOne => rb.getOne.map fun r => ((r.1, []), r.2)
    | .remove n => some (((rb.remove n).1, []), (rb.remove n).2)
    | .peek n => (rb.peek n).map fun r => ((r.1, r.2), rb)
    | .peekOne => rb.peekOne.map fun r => ((r, []), rb)
  (result.map fun r => r.1, (result.map fun r => r.2).getD rb)

variable {size : Nat}

/-- A byte, or -1. -/
def byteOr (c : Option UInt8) : Int := (c.map fun c => (c.toNat : Int)).getD (-1)

/-- What a queue of bytes does. -/
def queueCall (q : BoundedQueue UInt8 size) : RingbufferOp → Option Seen × BoundedQueue UInt8 size
  | .add bytes => (some ((min bytes.length (size - q.items.length) : Nat), []), q.add bytes)
  | .addOne c =>
    if q.items.length = size then (some (byteOr q.pop.1, []), q.pop.2.add [c]) else (some (-1, []), q.add [c])
  | .get n => (some ((BoundedQueue.popMany n q).1.length, (BoundedQueue.popMany n q).1), (BoundedQueue.popMany n q).2)
  | .getOne => (some (byteOr q.pop.1, []), q.pop.2)
  | .remove n => (some ((BoundedQueue.popMany n q).1.length, []), (BoundedQueue.popMany n q).2)
  | .peek n => (some ((BoundedQueue.popMany n q).1.length, (BoundedQueue.popMany n q).1), q)
  | .peekOne => (some (byteOr q.pop.1, []), q)

/-- The positions are in the array. -/
structure Ringbuffer.WellFormed (rb : Ringbuffer) : Prop where
  start_lt : rb.start < rb.size
  avail_le : rb.avail ≤ rb.size

/-! ## The ring and the queue -/

/-- The ring holds the items of the queue. -/
structure RingHolds (rb : Ringbuffer) (q : BoundedQueue UInt8 size) : Prop where
  pos : 0 < size
  le : size ≤ (2 ^ 32 - 1) / 2
  size_eq : rb.size = size
  start : rb.start < size
  avail : rb.avail = q.items.length
  items : q.items = ringItems rb.buf size rb.start rb.avail

variable {rb : Ringbuffer} {q : BoundedQueue UInt8 size} {c : UInt8} {n : Nat}

theorem RingHolds.avail_le (h : RingHolds rb q) : rb.avail ≤ size := h.avail.trans_le q.length_le

theorem RingHolds.wellFormed (h : RingHolds rb q) : rb.WellFormed :=
  ⟨by rw [h.size_eq]; exact h.start, by rw [h.size_eq]; exact h.avail_le⟩

theorem wrap_eq (h : n < 2 ^ 32) : Ringbuffer.wrap n = n := mod_eq_of_lt h

theorem sub_eq {a b : Nat} (hle : b ≤ a) (ha : a < 2 ^ 32) : Ringbuffer.sub a b = a - b := by
  unfold Ringbuffer.sub
  rw [show a + 2 ^ 32 - b = (a - b) + 2 ^ 32 by omega, add_mod_right, mod_eq_of_lt (by omega)]

/-- What is left when the oldest `n` items are gone, wherever an empty ring starts. -/
theorem RingHolds.dropped (start : Nat) (h : RingHolds rb q) (hn : n ≤ rb.avail) (hlt : start < size)
    (hstart : n = rb.avail ∨ start = (rb.start + n) % size) :
    RingHolds { rb with start := start, avail := rb.avail - n } (q.drop n) where
  pos := h.pos
  le := h.le
  size_eq := h.size_eq
  start := hlt
  avail := by
    rw [BoundedQueue.drop_items, length_drop, ← h.avail]
  items := by
    rw [BoundedQueue.drop_items, h.items, ringItems_drop hn]
    rcases hstart with rfl | rfl
    · rw [Nat.sub_self]
      rfl
    · exact ringItems_congr (mod_mod _ _).symm

theorem RingHolds.addTail (h : RingHolds rb q) (hroom : rb.avail < size) :
    ∃ rb', rb.addTail c = some rb' ∧ RingHolds rb' (q.add [c]) := by
  have hle := h.le
  have hstart := h.start
  have hpos : (if rb.size ≤ Ringbuffer.wrap (rb.start + rb.avail) then Ringbuffer.wrap (rb.start + rb.avail) - rb.size
      else Ringbuffer.wrap (rb.start + rb.avail)) = (rb.start + rb.avail) % size := by
    rw [wrap_eq (by omega), h.size_eq]
    split
    · rename_i hge
      rw [mod_eq_sub_mod hge, mod_eq_of_lt (by omega)]
    · rw [mod_eq_of_lt (by omega)]
  have hitems : (q.add [c]).items = q.items ++ [c] := by
    rw [BoundedQueue.add_items, take_of_length_le]
    rw [← h.avail, length_singleton]
    omega
  refine ⟨{ rb with avail := rb.avail + 1, buf := Function.update rb.buf ((rb.start + rb.avail) % size) c }, ?_, ?_⟩
  · unfold Ringbuffer.addTail
    dsimp only
    rw [hpos, wrap_eq (by omega)]
    unfold Ringbuffer.write
    rw [if_pos (by show _ < rb.size; rw [h.size_eq]; exact mod_lt _ h.pos)]
  · refine ⟨h.pos, h.le, h.size_eq, h.start, ?_, ?_⟩
    · rw [hitems, length_append, length_singleton, h.avail]
    · rw [hitems, h.items]
      exact (ringItems_push c hroom).symm

theorem RingHolds.getHead (h : RingHolds rb q) (hne : rb.avail ≠ 0) :
    ∃ head rb', rb.getHead = some (head, rb') ∧ q.items.head? = some head ∧ RingHolds rb' (q.drop 1) := by
  have hle := h.le
  have hstart := h.start
  have havail := h.avail_le
  have hhead : q.items.head? = some (rb.buf rb.start) := by
    obtain ⟨m, hm⟩ := exists_eq_succ_of_ne_zero hne
    rw [h.items, hm, ringItems_pop, mod_eq_of_lt h.start]
    rfl
  have hread : rb.read rb.start 1 = some [rb.buf rb.start] := by
    unfold Ringbuffer.read
    rw [if_pos (by rw [h.size_eq]; omega)]
    rfl
  have hsub : Ringbuffer.sub rb.avail 1 = rb.avail - 1 := sub_eq (by omega) (by omega)
  have hwrap : Ringbuffer.wrap (rb.start + 1) = rb.start + 1 := wrap_eq (by omega)
  refine ⟨rb.buf rb.start, _, ?_, hhead, RingHolds.dropped (if rb.avail - 1 = 0 then 0 else
    if rb.start + 1 = rb.size then 0 else rb.start + 1) h (by omega) ?_ ?_⟩
  · unfold Ringbuffer.getHead
    rw [hread, hsub, hwrap]
    rfl
  · split
    · exact h.pos
    split
    · exact h.pos
    · rename_i hend
      rw [h.size_eq] at hend
      omega
  · split
    · exact .inl (by omega)
    split
    · rename_i hend
      rw [h.size_eq] at hend
      rw [hend, mod_self]
      exact .inr rfl
    · rename_i hend
      rw [h.size_eq] at hend
      rw [mod_eq_of_lt (by omega)]
      exact .inr rfl

/-! ## Calls of both -/

theorem RingHolds.full_iff (h : RingHolds rb q) : rb.full = true ↔ q.items.length = size := by
  unfold Ringbuffer.full
  rw [decide_eq_true_eq, h.avail, h.size_eq]

theorem RingHolds.add {bytes : List UInt8} : ∀ {rb : Ringbuffer} {q : BoundedQueue UInt8 size}, RingHolds rb q →
    ∃ rb', rb.add bytes = some (min bytes.length (size - q.items.length), rb') ∧ RingHolds rb' (q.add bytes) := by
  induction bytes with
  | nil =>
    intro rb q h
    refine ⟨rb, congrArg some (Prod.ext (Nat.zero_min _).symm rfl), ?_⟩
    have hsame : q.add [] = q := BoundedQueue.ext (by rw [BoundedQueue.add_items, take_nil, append_nil])
    rw [hsame]
    exact h
  | cons c cs ih =>
    intro rb q h
    have hq := q.length_le
    by_cases hfull : rb.full = true
    · have hlen := h.full_iff.mp hfull
      have hsame : q.add (c :: cs) = q := by
        refine BoundedQueue.ext ?_
        rw [BoundedQueue.add_items, hlen, Nat.sub_self, take_zero, append_nil]
      refine ⟨rb, ?_, by rw [hsame]; exact h⟩
      rw [Ringbuffer.add, if_pos hfull, hlen, Nat.sub_self, Nat.min_zero]
    · have hlen := mt h.full_iff.mpr hfull
      obtain ⟨rb1, hadd, h1⟩ := h.addTail (c := c) (by rw [h.avail]; omega)
      obtain ⟨rb2, hadd', h2⟩ := ih h1
      have hitems : (q.add [c]).items = q.items ++ [c] := by
        rw [BoundedQueue.add_items, take_of_length_le (by rw [length_singleton]; omega)]
      have hlen1 : (q.add [c]).items.length = q.items.length + 1 := by
        rw [hitems, length_append, length_singleton]
      have hboth : (q.add [c]).add cs = q.add (c :: cs) := by
        refine BoundedQueue.ext ?_
        obtain ⟨room, hroom⟩ := exists_eq_succ_of_ne_zero (show size - q.items.length ≠ 0 by omega)
        rw [BoundedQueue.add_items, hlen1, hitems, BoundedQueue.add_items, hroom, take_succ_cons,
          show size - (q.items.length + 1) = room by omega, append_assoc]
        rfl
      refine ⟨rb2, ?_, by rw [← hboth]; exact h2⟩
      rw [Ringbuffer.add, if_neg hfull, hadd, Option.bind_some, hadd', Option.map_some, hlen1, length_cons]
      refine congrArg some (Prod.ext ?_ rfl)
      dsimp only
      omega

theorem RingHolds.empty_iff (h : RingHolds rb q) : rb.avail = 0 ↔ q.items = [] := by
  rw [h.avail, length_eq_zero_iff]

theorem RingHolds.getOne (h : RingHolds rb q) :
    ∃ rb', rb.getOne = some (byteOr q.pop.1, rb') ∧ RingHolds rb' q.pop.2 := by
  unfold Ringbuffer.getOne Ringbuffer.empty
  by_cases hnil : rb.avail = 0
  · have hitems := h.empty_iff.mp hnil
    have hsame : q.pop.2 = q := by
      refine BoundedQueue.ext ?_
      show q.items.drop 1 = q.items
      rw [hitems]
      rfl
    refine ⟨rb, ?_, by rw [hsame]; exact h⟩
    rw [if_neg (by simp [hnil])]
    unfold BoundedQueue.pop
    rw [hitems]
    rfl
  · obtain ⟨head, rb', hget, hhead, h'⟩ := h.getHead hnil
    refine ⟨rb', ?_, h'⟩
    rw [if_pos (by simp [hnil]), hget]
    unfold BoundedQueue.pop
    rw [hhead]
    rfl

theorem RingHolds.addOne (h : RingHolds rb q) :
    ∃ rb', ringbufferCall rb (.addOne c) = ((queueCall q (.addOne c)).1, rb') ∧ RingHolds rb' (queueCall q (.addOne c)).2 := by
  have hq := q.length_le
  unfold ringbufferCall queueCall Ringbuffer.addOne
  by_cases hfull : rb.full = true
  · have hlen := h.full_iff.mp hfull
    obtain ⟨head, rb1, hget, hhead, h1⟩ := h.getHead (by rw [h.avail]; have := h.pos; omega)
    have hroom : rb1.avail < size := by
      have := h.pos
      rw [h1.avail, BoundedQueue.drop_items, length_drop]
      omega
    obtain ⟨rb2, hadd, h2⟩ := h1.addTail (c := c) hroom
    refine ⟨rb2, ?_, by dsimp only; rw [if_pos hlen]; exact h2⟩
    dsimp only
    rw [if_pos hfull, if_pos hlen, hget, Option.bind_some]
    rw [hadd]
    unfold BoundedQueue.pop
    rw [hhead]
    rfl
  · have hlen := mt h.full_iff.mpr hfull
    obtain ⟨rb1, hadd, h1⟩ := h.addTail (c := c) (by rw [h.avail]; omega)
    refine ⟨rb1, ?_, by dsimp only; rw [if_neg hlen]; exact h1⟩
    dsimp only
    rw [if_neg hfull, if_neg hlen, hadd]
    rfl

theorem RingHolds.get (h : RingHolds rb q) :
    ∃ rb', rb.get n = some (((BoundedQueue.popMany n q).1.length, (BoundedQueue.popMany n q).1), rb') ∧
      RingHolds rb' (BoundedQueue.popMany n q).2 := by
  have hle := h.le
  have hstart := h.start
  have havail := h.avail_le
  rw [BoundedQueue.popMany_eq]
  -- what is taken of the queue depends on what there is
  obtain ⟨m, hm, hclip, htake, hdrop⟩ : ∃ m ≤ rb.avail, (if rb.avail < n then rb.avail else n) = m ∧
      q.items.take n = q.items.take m ∧ q.items.drop n = q.items.drop m := by
    by_cases hlt : rb.avail < n
    · refine ⟨rb.avail, le_refl _, if_pos hlt, ?_, ?_⟩
      · rw [take_of_length_le (by rw [← h.avail]; omega), take_of_length_le (by rw [← h.avail])]
      · rw [drop_of_length_le (by rw [← h.avail]; omega), drop_of_length_le (by rw [← h.avail])]
    · exact ⟨n, by omega, if_neg hlt, rfl, rfl⟩
  have hqueue : q.drop n = q.drop m := BoundedQueue.ext hdrop
  have hbytes : q.items.take m = ringItems rb.buf size rb.start m := by
    rw [h.items, ringItems_take hm]
  have hlen : (q.items.take m).length = m := by rw [hbytes, ringItems_length]
  have htill : Ringbuffer.sub rb.size rb.start = size - rb.start := by
    rw [h.size_eq]
    exact sub_eq (by omega) (by omega)
  rw [htake, hqueue, hlen, hbytes]
  unfold Ringbuffer.get
  dsimp only
  rw [hclip, htill]
  by_cases hpos : 0 < m
  · rw [if_pos hpos]
    by_cases hend : m ≤ size - rb.start
    · have hread : rb.read rb.start m = some (ringItems rb.buf size rb.start m) := by
        unfold Ringbuffer.read
        rw [if_pos (by rw [h.size_eq]; omega), ringItems_inside (by omega)]
      rw [if_pos hend, hread]
      refine ⟨_, rfl, RingHolds.dropped _ h hm ?_ (.inr ?_)⟩
      · split
        · exact h.pos
        · rw [wrap_eq (by omega)]
          omega
      · split
        · rw [show rb.start + m = size by omega, mod_self]
        · rw [wrap_eq (by omega), mod_eq_of_lt (by omega)]
    · have hread : rb.read rb.start (size - rb.start) = some (ringItems rb.buf size rb.start (size - rb.start)) := by
        unfold Ringbuffer.read
        rw [if_pos (by rw [h.size_eq]; omega), ringItems_inside (by omega)]
      have hread' : rb.read 0 (m - (size - rb.start)) =
          some (ringItems rb.buf size (rb.start + (size - rb.start)) (m - (size - rb.start))) := by
        have hzero : (rb.start + (size - rb.start)) % size = 0 % size := by
          rw [show rb.start + (size - rb.start) = size by omega, mod_self, zero_mod]
        unfold Ringbuffer.read
        rw [if_pos (by rw [h.size_eq]; omega), ringItems_congr hzero, ringItems_inside (by omega)]
      have hboth : ringItems rb.buf size rb.start m = ringItems rb.buf size rb.start (size - rb.start) ++
          ringItems rb.buf size (rb.start + (size - rb.start)) (m - (size - rb.start)) := by
        rw [← ringItems_append]
        congr 1
        omega
      rw [if_neg hend, hread, Option.bind_some, hread', Option.map_some, hboth]
      refine ⟨_, rfl, RingHolds.dropped _ h hm (by omega) (.inr ?_)⟩
      rw [show rb.start + m = (m - (size - rb.start)) + size by omega, add_mod_right, mod_eq_of_lt (by omega)]
  · obtain rfl : m = 0 := by omega
    refine ⟨rb, rfl, ?_⟩
    have hsame : q.drop 0 = q := BoundedQueue.ext rfl
    exact h

theorem RingHolds.remove (h : RingHolds rb q) :
    (rb.remove n).1 = (BoundedQueue.popMany n q).1.length ∧ RingHolds (rb.remove n).2 (BoundedQueue.popMany n q).2 := by
  have hle := h.le
  have hstart := h.start
  have havail := h.avail_le
  rw [BoundedQueue.popMany_eq, length_take, ← h.avail]
  unfold Ringbuffer.remove
  split
  · rename_i hlt
    have hqueue : q.drop n = q.drop rb.avail := by
      refine BoundedQueue.ext ?_
      rw [BoundedQueue.drop_items, BoundedQueue.drop_items, drop_of_length_le (by rw [← h.avail]; omega),
        drop_of_length_le (by rw [← h.avail])]
    have hall := RingHolds.dropped 0 h le_rfl h.pos (.inl rfl)
    rw [Nat.sub_self] at hall
    refine ⟨(min_eq_right (le_of_lt hlt)).symm, ?_⟩
    rw [hqueue]
    exact hall
  · rename_i hle'
    refine ⟨(min_eq_left (not_lt.mp hle')).symm, ?_⟩
    have hpos : (if rb.size ≤ Ringbuffer.wrap (rb.start + n) then Ringbuffer.wrap (rb.start + n) - rb.size
        else Ringbuffer.wrap (rb.start + n)) = (rb.start + n) % size := by
      rw [wrap_eq (by omega), h.size_eq]
      split
      · rename_i hge
        rw [mod_eq_sub_mod hge, mod_eq_of_lt (by omega)]
      · rw [mod_eq_of_lt (by omega)]
    dsimp only
    rw [hpos]
    exact RingHolds.dropped _ h (by omega) (mod_lt _ h.pos) (.inr rfl)

/-- **Every call** gives what the queue gives, and leaves the ring with its items. -/
theorem RingHolds.call (h : RingHolds rb q) (op : RingbufferOp) :
    (ringbufferCall rb op).1 = (queueCall q op).1 ∧ RingHolds (ringbufferCall rb op).2 (queueCall q op).2 := by
  cases op with
  | add bytes =>
    obtain ⟨rb', hadd, h'⟩ := @RingHolds.add size bytes rb q h
    unfold ringbufferCall
    dsimp only
    rw [hadd]
    exact ⟨rfl, h'⟩
  | addOne c =>
    obtain ⟨rb', hadd, h'⟩ := h.addOne (c := c)
    rw [hadd]
    exact ⟨rfl, h'⟩
  | get n =>
    obtain ⟨rb', hget, h'⟩ := h.get (n := n)
    unfold ringbufferCall
    dsimp only
    rw [hget]
    exact ⟨rfl, h'⟩
  | getOne =>
    obtain ⟨rb', hget, h'⟩ := h.getOne
    unfold ringbufferCall
    rw [hget]
    exact ⟨rfl, h'⟩
  | remove n =>
    obtain ⟨hret, h'⟩ := h.remove (n := n)
    refine ⟨?_, h'⟩
    show some (((rb.remove n).1 : Int), ([] : List UInt8)) = _
    rw [hret]
    rfl
  | peek n =>
    obtain ⟨rb', hget, -⟩ := h.get (n := n)
    unfold ringbufferCall Ringbuffer.peek
    dsimp only
    rw [hget]
    exact ⟨rfl, h⟩
  | peekOne =>
    obtain ⟨rb', hget, -⟩ := h.getOne
    unfold ringbufferCall Ringbuffer.peekOne
    rw [hget]
    exact ⟨rfl, h⟩

/-- **A ring buffer is a bounded queue of bytes**, and its positions stay in the array. -/
theorem ringbuffer_refines_queue (buf : Nat → UInt8) (size : Nat) (hpos : 1 ≤ size) (hle : size ≤ (2 ^ 32 - 1) / 2)
    (ops : List RingbufferOp) :
    results ringbufferCall (Ringbuffer.init buf size) ops = results queueCall (BoundedQueue.empty : BoundedQueue UInt8 size) ops ∧
    Always (fun rb op => some (ringbufferCall rb op).2) Ringbuffer.WellFormed (Ringbuffer.init buf size) ops := by
  have hinit : RingHolds (Ringbuffer.init buf size) (BoundedQueue.empty : BoundedQueue UInt8 size) :=
    ⟨hpos, hle, rfl, hpos, rfl, rfl⟩
  constructor
  · exact results_eq (fun _ _ op h => h.call op) ops hinit
  · refine always_of_step (I := fun rb => ∃ q : BoundedQueue UInt8 size, RingHolds rb q) ?_ ?_ ops ⟨_, hinit⟩
    · rintro rb ⟨q, h⟩
      exact h.wellFormed
    · rintro rb op rb' ⟨q, h⟩ hstep
      cases hstep
      exact ⟨_, (h.call op).2⟩

/-- A buffer of three bytes that wraps and drops one. -/
theorem ringbuffer_refines_queue_three :
    results ringbufferCall (Ringbuffer.init (fun _ => 0) 3) [.add [1, 2], .getOne, .add [3, 4, 5], .addOne 6, .peek 2, .get 3] =
      results queueCall (BoundedQueue.empty : BoundedQueue UInt8 3)
        [.add [1, 2], .getOne, .add [3, 4, 5], .addOne 6, .peek 2, .get 3] :=
  (ringbuffer_refines_queue (fun _ => 0) 3 (by decide) (by decide)
    [.add [1, 2], .getOne, .add [3, 4, 5], .addOne 6, .peek 2, .get 3]).1

end Riot.Core
