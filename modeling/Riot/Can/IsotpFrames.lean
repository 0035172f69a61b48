import Riot.Can.IsotpSender

/-!
# The frames of a transfer

What a frame of a given message is, independently of the padding and of the bytes
that the memory of the frame held before; and that the sending half builds such
frames.
-/

namespace Riot.Can

open Nat List

/-! ## Bytes of frames that are written to -/

namespace CanFrame

variable {frame : CanFrame} {i j n : Nat} {b : Byte} {s : List Byte}

@[simp] theorem setBytes_len : (frame.setBytes i s).len = frame.len := by
  induction s generalizing frame i with
  | nil => rfl
  | cons b s ih => exact ih

theorem byte_setBytes_of_lt (h : j < i) : (frame.setBytes i s).byte j = frame.byte j := by
  induction s generalizing frame i with
  | nil => rfl
  | cons b s ih =>
    show ((frame.setByte i b).setBytes (i + 1) s).byte j = frame.byte j
    rw [ih (by omega), byte_setByte_ne (by omega)]

theorem bytes_setByte_of_lt (h : j < i) : (frame.setByte j b).bytes i n = frame.bytes i n := by
  apply map_congr_left
  intro k hk
  have := (mem_range'_1.mp hk).1
  rw [byte_setByte_ne (by omega)]

theorem bytes_setBytes (h : i + s.length ≤ canMaxDlen) : (frame.setBytes i s).bytes i s.length = s := by
  induction s generalizing frame i with
  | nil => rfl
  | cons b s ih =>
    rw [length_cons] at h
    show ((frame.setByte i b).setBytes (i + 1) s).bytes i (s.length + 1) = b :: s
    rw [bytes_succ, ih (by omega), byte_setBytes_of_lt (by omega), byte_setByte_self (by omega)]

end CanFrame

/-! ## Types and numbers in the first byte -/

theorem pci_sf {n : Nat} (h : n ≤ 7) : (nPciSf ||| BitVec.ofNat 8 n) &&& 0xf0 = nPciSf ∧
      ((nPciSf ||| BitVec.ofNat 8 n) &&& 0x0f).toNat = n := by
  have hall : ∀ n ≤ 7, (nPciSf ||| BitVec.ofNat 8 n) &&& 0xf0 = nPciSf ∧
      ((nPciSf ||| BitVec.ofNat 8 n) &&& 0x0f).toNat = n := by decide
  exact hall n h

theorem pci_ff {n : Nat} (h : n ≤ 15) : (BitVec.ofNat 8 n ||| nPciFf) &&& 0xf0 = nPciFf ∧
      ((BitVec.ofNat 8 n ||| nPciFf) &&& 0x0f).toNat = n := by
  have hall : ∀ n ≤ 15, (BitVec.ofNat 8 n ||| nPciFf) &&& 0xf0 = nPciFf ∧
      ((BitVec.ofNat 8 n ||| nPciFf) &&& 0x0f).toNat = n := by decide
  exact hall n h

/-- The sequence number of the `j`-th consecutive frame. -/
def cfNumber (j : Nat) : Byte := BitVec.ofNat 8 (j % 16)

theorem pci_cf (j : Nat) :
    (nPciCf ||| cfNumber j) &&& 0xf0 = nPciCf ∧ (nPciCf ||| cfNumber j) &&& 0x0f = cfNumber j := by
  have hall : ∀ n < 16, (nPciCf ||| BitVec.ofNat 8 n) &&& 0xf0 = nPciCf ∧
      (nPciCf ||| BitVec.ofNat 8 n) &&& 0x0f = BitVec.ofNat 8 n := by decide
  exact hall (j % 16) (mod_lt j (by omega))

theorem cfNumber_succ (j : Nat) : (cfNumber j + 1) % 16 = cfNumber (j + 1) := by
  have hall : ∀ n < 16, (BitVec.ofNat 8 n + 1) % 16 = BitVec.ofNat 8 ((n + 1) % 16) := by decide
  unfold cfNumber
  rw [hall (j % 16) (mod_lt j (by omega)), mod_add_mod]

theorem ffLength_high_low {n : Nat} (h : n ≤ maxMsgLength) :
    ((BitVec.ofNat 8 (n / 256) ||| nPciFf) &&& 0x0f).toNat <<< 8 + (BitVec.ofNat 8 n &&& 0xff).toNat = n := by
  have hmax : maxMsgLength = 4095 := rfl
  have hlow : (BitVec.ofNat 8 n &&& 0xff).toNat = n % 256 := by
    have hmask : BitVec.ofNat 8 n &&& 0xff = BitVec.ofNat 8 n := BitVec.and_allOnes
    rw [hmask, BitVec.toNat_ofNat]
  rw [(pci_ff (by omega)).2, hlow, shiftLeft_eq]
  omega

/-! ## What the sending half puts into a frame -/

section Building

variable {opt : Options} {f : CanFrame} {ae n : Nat} {t : TxSide} {data : List Byte}

theorem isotpFillDataframe_snd (h : t.Busy n data) (hae : ae ≤ 1) :
    min (7 - ae) (data.length - t.con.idx) + (ae + 1) ≤ (isotpFillDataframe opt f ae t).2.len ∧
      (isotpFillDataframe opt f ae t).2.len ≤ canMaxDlen ∧
      (ae ≠ 0 → (isotpFillDataframe opt f ae t).2.byte 0 = opt.extAddress) ∧
      (isotpFillDataframe opt f ae t).2.bytes (ae + 1) (min (7 - ae) (data.length - t.con.idx)) =
        (data.drop t.con.idx).take (min (7 - ae) (data.length - t.con.idx)) := by
  have hidx := h.idx_le
  have hsize := h.size_le
  have hlong : maxMsgLength = 4095 := rfl
  have hmax : canMaxDlen = 8 := rfl
  have hwrap : (data.length + 2 ^ 32 - t.con.idx) % 2 ^ 32 = data.length - t.con.idx := by omega
  have hspace : min (canMaxDlen - (nPciSz + ae)) (data.length - t.con.idx) =
      min (7 - ae) (data.length - t.con.idx) := by
    show min (8 - (1 + ae)) _ = _
    omega
  have hhead : nPciSz + ae = ae + 1 := Nat.add_comm 1 ae
  obtain ⟨k, hk⟩ : ∃ k, k = min (7 - ae) (data.length - t.con.idx) := ⟨_, rfl⟩
  unfold isotpFillDataframe
  dsimp only
  rw [h.deref, h.size, hwrap, TxSide.load_eq (d := data) _ h.snip h.content (by omega), hspace, hhead,
    ← hk]
  dsimp only
  obtain ⟨g, hg⟩ : ∃ g : CanFrame, g =
      if k < canMaxDlen - (ae + 1) ∧ opt.txPadding then
        ⟨opt.txId, canMaxDlen, Vector.replicate canMaxDlen opt.txpadContent⟩
      else ⟨opt.txId, k + (ae + 1), f.data⟩ := ⟨_, rfl⟩
  have hlen : k + (ae + 1) ≤ g.len ∧ g.len ≤ canMaxDlen := by
    rw [hg]
    split
    · exact ⟨by dsimp only; omega, le_refl _⟩
    · exact ⟨le_refl _, by dsimp only; omega⟩
  rw [← hg]
  have hbytes : (g.setBytes (ae + 1) ((data.drop t.con.idx).take k)).bytes (ae + 1) k =
      (data.drop t.con.idx).take k := by
    have hcount : ((data.drop t.con.idx).take k).length = k := by
      rw [length_take, length_drop]
      omega
    have hset : (g.setBytes (ae + 1) ((data.drop t.con.idx).take k)).bytes (ae + 1)
        ((data.drop t.con.idx).take k).length = (data.drop t.con.idx).take k :=
      CanFrame.bytes_setBytes (by omega)
    rwa [hcount] at hset
  split
  · refine ⟨?_, ?_, fun _ => ?_, ?_⟩
    · rw [CanFrame.setByte_len, CanFrame.setBytes_len]
      exact hlen.1
    · rw [CanFrame.setByte_len, CanFrame.setBytes_len]
      exact hlen.2
    · exact CanFrame.byte_setByte_self (by omega)
    · rw [CanFrame.bytes_setByte_of_lt (by omega)]
      exact hbytes
  · rename_i hplain
    refine ⟨?_, ?_, fun h => absurd h hplain, hbytes⟩
    · rw [CanFrame.setBytes_len]
      exact hlen.1
    · rw [CanFrame.setBytes_len]
      exact hlen.2

theorem isotpCreateFf_snd (h : t.Busy n data) (hae : ae ≤ 1)
    (hroom : t.con.idx + (canMaxDlen - (ae + ffPciSz)) ≤ data.length) :
    (isotpCreateFf opt f ae t).2.len = canMaxDlen ∧
      (ae ≠ 0 → (isotpCreateFf opt f ae t).2.byte 0 = opt.extAddress) ∧
      (isotpCreateFf opt f ae t).2.byte ae = BitVec.ofNat 8 (data.length / 256) ||| nPciFf ∧
      (isotpCreateFf opt f ae t).2.byte (ae + 1) = BitVec.ofNat 8 data.length &&& 0xff ∧
      (isotpCreateFf opt f ae t).2.bytes (ae + 2) (6 - ae) = (data.drop t.con.idx).take (6 - ae) := by
  have hmax : canMaxDlen = 8 := rfl
  have hff : ffPciSz = 2 := rfl
  have hspace : canMaxDlen - (ae + ffPciSz) = 6 - ae := by omega
  unfold isotpCreateFf
  dsimp only
  rw [h.deref, h.size, TxSide.load_eq (d := data) _ h.snip h.content hroom, hspace, hff]
  dsimp only
  have hcount : ((data.drop t.con.idx).take (6 - ae)).length = 6 - ae := by
    rw [length_take, length_drop]
    omega
  refine ⟨?_, fun hext => ?_, ?_, ?_, ?_⟩
  · rw [CanFrame.setBytes_len, CanFrame.setByte_len, CanFrame.setByte_len]
    split
    · rfl
    · rfl
  · rw [CanFrame.byte_setBytes_of_lt (by omega), CanFrame.byte_setByte_ne (by omega),
      CanFrame.byte_setByte_ne (by omega), if_pos hext]
    exact CanFrame.byte_setByte_self (by omega)
  · rw [CanFrame.byte_setBytes_of_lt (by omega), CanFrame.byte_setByte_ne (by omega),
      CanFrame.byte_setByte_self (by omega)]
  · rw [CanFrame.byte_setBytes_of_lt (by omega), CanFrame.byte_setByte_self (by omega)]
  · have hset : ∀ g : CanFrame, (g.setBytes (ae + 2) ((data.drop t.con.idx).take (6 - ae))).bytes
        (ae + 2) ((data.drop t.con.idx).take (6 - ae)).length = (data.drop t.con.idx).take (6 - ae) := by
      intro g
      exact CanFrame.bytes_setBytes (by omega)
    rw [hcount] at hset
    exact hset _

end Building

/-! ## A transfer -/

/-- A message on its way from one channel to another: the options of both, the flow control
options of the receiving one, and what both had recorded before. -/
structure Transfer where
  msg : List Byte
  optA : Options
  optB : Options
  fc : FcOptions
  txSnip : Nat
  notes : List (Option Nat × NoteType)
  indications : List Nat
  length_pos : 0 < msg.length
  length_le : msg.length ≤ maxMsgLength
  ae : Nat
  aeA : optA.ae = ae
  aeB : optB.ae = ae
  toB : ae ≠ 0 → optA.extAddress = optB.rxExtAddress
  toA : ae ≠ 0 → optB.extAddress = optA.rxExtAddress
  answers : ¬optB.listen

namespace Transfer

variable (T : Transfer)

theorem ae_le : T.ae ≤ 1 := T.aeA ▸ Riot.Can.ae_le T.optA

/-- Bytes of the message that the first frame and `j` consecutive frames carry. -/
def pos (j : Nat) : Nat := min T.msg.length (6 - T.ae + j * (7 - T.ae))

theorem pos_le (j : Nat) : T.pos j ≤ T.msg.length := min_le_left _ _

theorem pos_succ (j : Nat) : T.pos (j + 1) = T.pos j + min (7 - T.ae) (T.msg.length - T.pos j) := by
  unfold pos
  rw [succ_mul]
  omega

theorem pos_lt_succ {j : Nat} (h : T.pos j < T.msg.length) : T.pos j < T.pos (j + 1) := by
  have := T.ae_le
  rw [pos_succ]
  omega

/-- The frame has the given address, if there are addresses, and the given type and number. -/
structure IsHead (ae : Nat) (address : Byte) (frame : CanFrame) (head : Byte) : Prop where
  len_le : frame.len ≤ canMaxDlen
  ae_lt : ae < frame.len
  address : ae ≠ 0 → frame.byte 0 = address
  head : frame.byte ae = head

/-- The single frame of the message. -/
structure IsSf (frame : CanFrame) : Prop extends
    IsHead T.ae T.optB.rxExtAddress frame (nPciSf ||| BitVec.ofNat 8 T.msg.length) where
  fits : T.ae + 1 + T.msg.length ≤ frame.len
  data : frame.bytes (T.ae + 1) T.msg.length = T.msg

/-- The first frame of the message. -/
structure IsFf (frame : CanFrame) : Prop extends
    IsHead T.ae T.optB.rxExtAddress frame (BitVec.ofNat 8 (T.msg.length / 256) ||| nPciFf) where
  len_eq : frame.len = canMaxDlen
  low : frame.byte (T.ae + 1) = BitVec.ofNat 8 T.msg.length &&& 0xff
  data : frame.bytes (T.ae + 2) (6 - T.ae) = T.msg.take (6 - T.ae)

/-- The consecutive frame that follows `j` others. -/
structure IsCf (j : Nat) (frame : CanFrame) : Prop extends
    IsHead T.ae T.optB.rxExtAddress frame (nPciCf ||| cfNumber (j + 1)) where
  fits : T.ae + 1 + min (7 - T.ae) (T.msg.length - T.pos j) ≤ frame.len
  data : frame.bytes (T.ae + 1) (min (7 - T.ae) (T.msg.length - T.pos j)) =
    (T.msg.drop (T.pos j)).take (min (7 - T.ae) (T.msg.length - T.pos j))

/-- A flow control frame that lets the sending channel go on. -/
structure IsFc (frame : CanFrame) : Prop extends IsHead T.ae T.optA.rxExtAddress frame (nPciFc ||| fcCts) where
  fits : T.ae + fcContentSz ≤ frame.len
  bs : frame.byte (T.ae + 1) = T.fc.bs
  stmin : frame.byte (T.ae + 2) = T.fc.stmin

/-! ## The frames the channels build -/

variable {T}

theorem isFc_fcFrame (env : Env) : T.IsFc (fcFrame env T.optB T.fc T.ae fcCts) := by
  have hae := T.ae_le
  have hfc : fcContentSz = 3 := rfl
  have hmax : canMaxDlen = 8 := rfl
  unfold fcFrame
  obtain ⟨g, hg⟩ : ∃ g : CanFrame, g = if T.optB.txPadding then
      ⟨T.optB.txId, canMaxDlen, Vector.replicate canMaxDlen T.optB.txpadContent⟩
    else ⟨T.optB.txId, T.ae + fcContentSz, env.uninit⟩ := ⟨_, rfl⟩
  have hlen : T.ae + fcContentSz ≤ g.len ∧ g.len ≤ canMaxDlen := by
    rw [hg]
    split
    · exact ⟨by dsimp only; omega, le_refl _⟩
    · exact ⟨le_refl _, by dsimp only; omega⟩
  rw [← hg]
  split
  · rename_i hext
    refine ⟨⟨hlen.2, by dsimp only [CanFrame.setByte_len]; omega, fun _ => ?_, ?_⟩, hlen.1, ?_, ?_⟩
    · rw [CanFrame.byte_setByte_self (by omega)]
      exact T.toA hext
    · rw [CanFrame.byte_setByte_ne (by omega), CanFrame.byte_setByte_ne (by omega),
        CanFrame.byte_setByte_ne (by omega), CanFrame.byte_setByte_self (by omega)]
    · rw [CanFrame.byte_setByte_ne (by omega), CanFrame.byte_setByte_ne (by omega),
        CanFrame.byte_setByte_self (by omega)]
    · rw [CanFrame.byte_setByte_ne (by omega), CanFrame.byte_setByte_self (by omega)]
  · rename_i hplain
    refine ⟨⟨hlen.2, by dsimp only [CanFrame.setByte_len]; omega, fun h => absurd h hplain, ?_⟩,
      hlen.1, ?_, ?_⟩
    · rw [CanFrame.byte_setByte_ne (by omega), CanFrame.byte_setByte_ne (by omega),
        CanFrame.byte_setByte_self (by omega)]
    · rw [CanFrame.byte_setByte_ne (by omega), CanFrame.byte_setByte_self (by omega)]
    · rw [CanFrame.byte_setByte_self (by omega)]

end Transfer

end Riot.Can
