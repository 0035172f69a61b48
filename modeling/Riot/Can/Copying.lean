import Riot.Can.Isotp

/-!
# Snips and copy loops

What the operations of the packet buffer do to the snips that are live, and what
the loops do that copy bytes between a snip and a frame.
-/

namespace Riot.Can

open Function List

/-! ## Frames -/

namespace CanFrame

variable {frame : CanFrame} {i j : Nat} {b : Byte}

/-- The `n` bytes of a frame from `i` on. -/
def bytes (frame : CanFrame) (i n : Nat) : List Byte := (List.range' i n).map frame.byte

@[simp] theorem bytes_length (frame : CanFrame) (i n : Nat) : (frame.bytes i n).length = n := by
  simp [bytes]

theorem bytes_succ (frame : CanFrame) (i n : Nat) :
    frame.bytes i (n + 1) = frame.byte i :: frame.bytes (i + 1) n := by
  rfl

@[simp] theorem setByte_len : (frame.setByte i b).len = frame.len := rfl

theorem byte_setByte (hi : i < canMaxDlen) :
    (frame.setByte i b).byte j = if i = j then b else frame.byte j := by
  unfold setByte byte
  rw [Vector.getElem?_setIfInBounds]
  split
  · rfl
  · rfl

theorem byte_setByte_self (hi : i < canMaxDlen) : (frame.setByte i b).byte i = b := by
  rw [byte_setByte hi, if_pos rfl]

theorem byte_setByte_ne (hij : i ≠ j) : (frame.setByte i b).byte j = frame.byte j := by
  unfold setByte byte
  rw [Vector.getElem?_setIfInBounds_ne hij]

end CanFrame

/-! ## Snips -/

namespace PktBuf

variable {p : PktBuf} {snip n : Nat} {data : List Byte} {S : Set Nat}

/-- The live snips are those of `S`, and nothing has gone wrong. -/
structure Holds (p : PktBuf) (S : Set Nat) : Prop where
  live_iff : ∀ n, p.Live n ↔ n ∈ S
  lt_next : ∀ n ∈ S, n < p.next
  faults : p.faults = []

/-- `data` is stored in a snip. -/
def put (p : PktBuf) (snip : Nat) (data : List Byte) : PktBuf :=
  { p with content := update p.content snip (some data) }

theorem data_of_content (h : p.content snip = some data) : p.data (some snip) = data := by
  unfold PktBuf.data
  rw [Option.bind_some, h]
  rfl

theorem size_of_content (h : p.content snip = some data) : p.size (some snip) = data.length := by
  unfold size
  rw [data_of_content h]

theorem deref_of_content (h : p.content snip = some data) : p.deref (some snip) = p := by
  unfold deref
  rw [Option.bind_some, h]
  exact if_pos rfl

theorem put_content (p : PktBuf) (snip : Nat) (data : List Byte) :
    (p.put snip data).content snip = some data := update_self ..

theorem put_self (h : p.content snip = some data) : p.put snip data = p := by
  unfold put
  rw [← h, update_eq_self]

theorem put_put (p : PktBuf) (snip : Nat) (data data' : List Byte) :
    (p.put snip data).put snip data' = p.put snip data' := by
  unfold put
  simp only [update_idem]

theorem write_of_content {i : Nat} {b : Byte} (h : p.content snip = some data)
    (hi : i < data.length) : p.write (some snip) i b = p.put snip (data.set i b) := by
  unfold write put
  simp only [h, if_pos hi]

theorem read_of_content {i : Nat} (h : p.content snip = some data) (hi : i < data.length) :
    p.read (some snip) i = (data.getD i 0, p) := by
  unfold read
  rw [data_of_content h, size_of_content h, if_pos hi]

theorem add_content (p : PktBuf) (data : List Byte) : (p.add data).content p.next = some data :=
  update_self ..

theorem Holds.content (h : p.Holds S) (hn : n ∈ S) : ∃ data, p.content n = some data :=
  Option.isSome_iff_exists.mp ((h.live_iff n).mpr hn)

theorem Holds.deref (h : p.Holds S) (hn : n ∈ S) : p.deref (some n) = p := by
  obtain ⟨data, hdata⟩ := h.content hn
  exact deref_of_content hdata

theorem live_update {d : Option (List Byte)} {faults : List Fault} {next : Nat} :
    (⟨update p.content snip d, next, faults⟩ : PktBuf).Live n ↔
      if n = snip then d.isSome = true else p.Live n := by
  unfold Live
  dsimp only
  rw [update_apply]
  split
  · rfl
  · rfl

theorem Holds.add (h : p.Holds S) (data : List Byte) : (p.add data).Holds (insert p.next S) where
  live_iff := by
    intro n
    unfold PktBuf.add
    rw [live_update, Set.mem_insert_iff]
    split
    · rename_i hn
      simp [hn]
    · rename_i hn
      simp [hn, h.live_iff]
  lt_next := by
    intro n hn
    show n < p.next + 1
    cases Set.mem_insert_iff.mp hn with
    | inl hn => omega
    | inr hn =>
      have := h.lt_next n hn
      omega
  faults := h.faults

theorem Holds.next_notMem (h : p.Holds S) : p.next ∉ S := by
  intro hmem
  have := h.lt_next _ hmem
  omega

theorem Holds.release (h : p.Holds S) (hn : snip ∈ S) : (p.release (some snip)).Holds (S \ {snip}) := by
  have hlive := (h.live_iff snip).mpr hn
  unfold PktBuf.release
  simp only [if_pos hlive]
  refine ⟨?_, fun n hn => h.lt_next n hn.1, h.faults⟩
  intro n
  rw [live_update, Set.mem_sdiff, Set.mem_singleton_iff]
  split
  · rename_i hn
    simp [hn]
  · rename_i hn
    simp [hn, h.live_iff]

theorem Holds.put (h : p.Holds S) (hn : snip ∈ S) (data : List Byte) : (p.put snip data).Holds S := by
  refine ⟨?_, h.lt_next, h.faults⟩
  intro n
  unfold PktBuf.put
  rw [live_update]
  split
  · rename_i hns
    simp [hns, hn]
  · exact h.live_iff n

theorem empty_holds : empty.Holds ∅ where
  live_iff := by
    intro n
    simp [empty, Live]
  lt_next := by simp
  faults := rfl

end PktBuf

/-! ## Copying into a snip -/

/-- `data` with the bytes `s` from `i` on. -/
def blit (data : List Byte) (i : Nat) (s : List Byte) : List Byte :=
  data.take i ++ s ++ data.drop (i + s.length)

theorem blit_nil (data : List Byte) (i : Nat) : blit data i [] = data := by
  simp [blit]

theorem blit_cons {data : List Byte} {i : Nat} (hi : i < data.length) (b : Byte) (s : List Byte) :
    blit (data.set i b) (i + 1) s = blit data i (b :: s) := by
  unfold blit
  rw [take_add_one, getElem?_set_self hi, take_set_of_le (Nat.le_refl i), drop_set_of_lt (by omega)]
  simp [add_comm 1, add_assoc]

theorem blit_length {data s : List Byte} {i : Nat} (h : i + s.length ≤ data.length) :
    (blit data i s).length = data.length := by
  simp only [blit, length_append, length_take, length_drop]
  omega

/-- Filled from the front up to `i`, a snip is filled up to the end of what is stored there. -/
theorem blit_take {data s : List Byte} {i : Nat} (h : i ≤ data.length) :
    (blit data i s).take (i + s.length) = data.take i ++ s := by
  unfold blit
  rw [take_append_of_le_length (by simp; omega), take_of_length_le (by simp)]

namespace RxSide

variable {r : RxSide} {frame : CanFrame} {snip : Nat} {data : List Byte}

theorem reading_of_lt {i : Nat} (h : i < frame.len) : r.reading frame i = r := if_pos h

theorem storeByte_eq {i : Nat} (hsnip : r.con.snip = some snip)
    (hdata : r.mem.content snip = some data) (hidx : r.con.idx < data.length)
    (hi : i < frame.len) :
    r.storeByte frame i =
      { r with
        mem := r.mem.put snip (data.set r.con.idx (frame.byte i)), con.idx := r.con.idx + 1 } := by
  unfold storeByte
  rw [reading_of_lt hi]
  dsimp only
  rw [hsnip, PktBuf.write_of_content hdata hidx]

theorem store_eq (n : Nat) : ∀ {i : Nat} {r : RxSide} {d : List Byte},
    r.con.snip = some snip → r.mem.content snip = some d → r.con.idx + n ≤ d.length →
    i + n ≤ frame.len →
    r.store frame n i =
      { r with
        mem := r.mem.put snip (blit d r.con.idx (frame.bytes i n))
        con.idx := r.con.idx + n } := by
  induction n with
  | zero =>
    intro i r data _ hdata _ _
    have hput : r.mem.put snip (blit data r.con.idx (frame.bytes i 0)) = r.mem := by
      show r.mem.put snip (blit data r.con.idx []) = r.mem
      rw [blit_nil, PktBuf.put_self hdata]
    rw [hput]
    rfl
  | succ n ih =>
    intro i r data hsnip hdata hidx hi
    show (r.storeByte frame i).store frame n (i + 1) = _
    rw [storeByte_eq hsnip hdata (by omega) (by omega)]
    have hrest := ih (i := i + 1)
      (r := { r with
        mem := r.mem.put snip (data.set r.con.idx (frame.byte i)), con.idx := r.con.idx + 1 })
      (d := data.set r.con.idx (frame.byte i)) hsnip (PktBuf.put_content ..)
      (by rw [length_set]; dsimp only; omega) (by omega)
    rw [hrest]
    rw [PktBuf.put_put, blit_cons (by omega), ← CanFrame.bytes_succ]
    have hsum : r.con.idx + 1 + n = r.con.idx + (n + 1) := by omega
    rw [hsum]

/-- Where there is room, the loop of `_isotp_rcv_cf` stores what is left of the frame, as far as
it fits. -/
theorem storeUntilFull_eq (n : Nat) : ∀ {i : Nat} {r : RxSide} {d : List Byte},
    r.con.snip = some snip → r.mem.content snip = some d →
    (n = 0 ∨ r.con.idx < d.length) → i + n ≤ frame.len →
    r.storeUntilFull frame n i = r.store frame (min n (d.length - r.con.idx)) i := by
  induction n with
  | zero =>
    intro i r d _ _ _ _
    rfl
  | succ n ih =>
    intro i r data hsnip hdata hidx hi
    have hlt : r.con.idx < data.length := by omega
    have hmin : min (n + 1) (data.length - r.con.idx) = min n (data.length - (r.con.idx + 1)) + 1 := by
      omega
    rw [hmin]
    show (if _ then r.storeByte frame i else storeUntilFull frame n (i + 1) (r.storeByte frame i))
      = (r.storeByte frame i).store frame _ (i + 1)
    have hbyte := @storeByte_eq _ frame _ _ i hsnip hdata hlt (by omega)
    have hcontent : (r.storeByte frame i).mem.content snip = some (data.set r.con.idx (frame.byte i)) := by
      rw [hbyte]
      exact PktBuf.put_content ..
    have hsnip' : (r.storeByte frame i).con.snip = some snip := by rw [hbyte]; exact hsnip
    have hidx' : (r.storeByte frame i).con.idx = r.con.idx + 1 := by rw [hbyte]
    rw [hsnip', PktBuf.size_of_content hcontent, hidx', length_set]
    split
    · have hzero : min n (data.length - (r.con.idx + 1)) = 0 := by omega
      rw [hzero]
      rfl
    · have := ih (i := i + 1) hsnip' hcontent (by rw [hidx', length_set]; omega) (by omega)
      rw [this, hidx', length_set]

theorem storeUntilFull_put {n i : Nat} {r : RxSide} {d : List Byte} (hsnip : r.con.snip = some snip)
    (hdata : r.mem.content snip = some d) (hidx : n = 0 ∨ r.con.idx < d.length)
    (hi : i + n ≤ frame.len) :
    r.storeUntilFull frame n i =
      { r with
        mem := r.mem.put snip (blit d r.con.idx (frame.bytes i (min n (d.length - r.con.idx))))
        con.idx := r.con.idx + min n (d.length - r.con.idx) } := by
  cases Nat.eq_zero_or_pos n with
  | inl hzero =>
    subst hzero
    rw [Nat.zero_min]
    show r = { r with mem := r.mem.put snip (blit d r.con.idx []), con.idx := r.con.idx + 0 }
    rw [blit_nil, PktBuf.put_self hdata]
    rfl
  | inr hpos =>
    rw [storeUntilFull_eq n hsnip hdata hidx hi, store_eq _ hsnip hdata (by omega) (by omega)]

end RxSide

/-! ## Copying into a frame -/

/-- The frame with the bytes `s` from `i` on. -/
def CanFrame.setBytes (frame : CanFrame) (i : Nat) : List Byte → CanFrame
  | [] => frame
  | b :: s => (frame.setByte i b).setBytes (i + 1) s

namespace TxSide

theorem reading_of_lt {t : TxSide} {frame : CanFrame} {i : Nat} (h : i < frame.len) :
    t.reading frame i = t := if_pos h

theorem load_eq {snip : Nat} (n : Nat) : ∀ {i : Nat} {t : TxSide} {f : CanFrame} {d : List Byte},
    t.con.snip = some snip → t.mem.content snip = some d → t.con.idx + n ≤ d.length →
    t.load n i f = ({ t with con.idx := t.con.idx + n }, f.setBytes i ((d.drop t.con.idx).take n)) := by
  induction n with
  | zero =>
    intro i t frame data _ _ _
    rfl
  | succ n ih =>
    intro i t frame data hsnip hdata hidx
    unfold load
    rw [hsnip, PktBuf.read_of_content hdata (by omega)]
    have hrest := ih (i := i + 1) (t := { t with con.idx := t.con.idx + 1 })
      (f := frame.setByte i (data.getD t.con.idx 0)) (d := data) hsnip hdata
      (by dsimp only; omega)
    rw [hrest]
    dsimp only
    have hlt : t.con.idx < data.length := by omega
    have hdrop : (data.drop t.con.idx).take (n + 1) =
        data.getD t.con.idx 0 :: (data.drop (t.con.idx + 1)).take n := by
      rw [drop_eq_getElem_cons hlt, take_succ_cons, getD_eq_getElem?_getD, getElem?_eq_getElem hlt]
      rfl
    have hsum : t.con.idx + 1 + n = t.con.idx + (n + 1) := by omega
    rw [hdrop, hsum]
    rfl

end TxSide

end Riot.Can
