import Riot.Unicoap.Options

/-!
# Assembling PDUs (`unicoap/utils.c`)

The options and the payload of a message are written into a buffer behind the header, or put into a list
of chunks. Options come as their encoded bytes, payloads in one piece or in chunks. `size_t` and `ssize_t`
are `w` bits wide.
-/

namespace Riot.Unicoap

open Riot.Lib Memory List Nat

/-- `unicoap_options_t`, as far as it is written: how many options, and their bytes. -/
structure OptionBytes (w : Nat) where
  count : Nat
  storage : List UInt8
  size_lt : storage.length < 2 ^ w
  none_empty : count = 0 → storage = []

/-- The payload, by `payload_representation`. -/
inductive Payload where
  | contiguous (bytes : List UInt8)
  | noncontiguous (chunks : List (List UInt8))

def Payload.bytes : Payload → List UInt8
  | .contiguous bytes => bytes
  | .noncontiguous chunks => chunks.flatten

/-- `unicoap_message_t`, as far as it is written. -/
structure PduMessage (w : Nat) where
  options : Option (OptionBytes w)
  payload : Payload
  size_lt : payload.bytes.length < 2 ^ w

variable {w : Nat}

/-- The conversion of a `size_t` to `ssize_t`. -/
def toSsize (w n : Nat) : Int := if n < 2 ^ (w - 1) then n else (n : Int) - 2 ^ w

def iolistSize (w : Nat) : List (List UInt8) → Nat → Nat
  | [], result => result
  | chunk :: rest, result => iolistSize w rest ((result + chunk.length) % 2 ^ w)

/-- `iolist_to_buffer`: result and memory. -/
def iolistToBuffer (w : Nat) (mem : Memory UInt8) (buf dst : Nat) : List (List UInt8) → Nat → Int × Memory UInt8
  | [], _ => (toSsize w (dst - buf), mem)
  | chunk :: rest, len =>
    if len < chunk.length then (-ENOBUFS, mem)
    else iolistToBuffer w (store mem dst chunk) buf (dst + chunk.length) rest (len - chunk.length)

def optionsData (message : PduMessage w) : List UInt8 := (message.options.map fun o => o.storage).getD []

def optionsSize (message : PduMessage w) : Nat := (message.options.map fun o => o.storage.length).getD 0

/-- `message->options && message->options->option_count > 0` -/
def hasOptions (message : PduMessage w) : Bool := message.options.any fun o => decide (0 < o.count)

def payloadGetSize (message : PduMessage w) : Nat :=
  match message.payload with
  | .noncontiguous chunks => iolistSize w chunks 0
  | .contiguous bytes => bytes.length

def payloadCopy (message : PduMessage w) (mem : Memory UInt8) (buffer capacity : Nat) : Int × Memory UInt8 :=
  match message.payload with
  | .noncontiguous chunks => iolistToBuffer w mem buffer buffer chunks capacity
  | .contiguous bytes =>
    if capacity < bytes.length then (-ENOBUFS, mem) else (toSsize w bytes.length, store mem buffer bytes)

/-- `unicoap_pdu_buildv_options_and_payload`: the chunks. -/
def pduBuildvOptionsAndPayload (header : List UInt8) (message : PduMessage w) : List (List UInt8) :=
  let iolists := [header]
  let iolists := if hasOptions message then iolists ++ [optionsData message] else iolists
  if 0 < payloadGetSize message then
    iolists ++ [payloadMarker] ::
      match message.payload with
      | .noncontiguous chunks => chunks
      | .contiguous bytes => [bytes]
  else iolists

/-- `unicoap_pdu_build_options_and_payload`: result and memory. -/
def pduBuildOptionsAndPayload (mem : Memory UInt8) (pdu capacity : Nat) (message : PduMessage w) : Int × Memory UInt8 :=
  if hasOptions message ∧ capacity < optionsSize message then (-ENOBUFS, mem)
  else
    let (mem, pdu, capacity) :=
      if hasOptions message then
        (store mem pdu (optionsData message), pdu + optionsSize message, capacity - optionsSize message)
      else (mem, pdu, capacity)
    if 0 < payloadGetSize message then
      let mem := store mem pdu [payloadMarker]
      -- the capacity is unsigned
      let capacity := (capacity + 2 ^ w - 1) % 2 ^ w
      match payloadCopy message mem (pdu + 1) capacity with
      | (payloadSize, mem) =>
        if payloadSize < 0 then (-ENOBUFS, mem)
        else (toSsize w ((optionsSize message + 1 + payloadSize.toNat) % 2 ^ w), mem)
    else (toSsize w (optionsSize message), mem)

/-! ## What it should do -/

/-- What the options and the payload take: one byte more than the payload, unless it is empty. -/
def neededSize (message : PduMessage w) : Nat :=
  optionsSize message + if message.payload.bytes = [] then 0 else 1 + message.payload.bytes.length

/-- **PDU assembly as it should be**, whatever is in memory: nothing is changed outside of the capacity, it
fails exactly if there is too little room, and otherwise what is written behind the header is what the
chunks are together. -/
def AssembledRight (pdu capacity : Nat) (message : PduMessage w) : Prop :=
  ∀ (mem : Memory UInt8) (header : List UInt8),
    (∀ a, a < pdu ∨ pdu + capacity ≤ a → (pduBuildOptionsAndPayload mem pdu capacity message).2 a = mem a) ∧
    ((pduBuildOptionsAndPayload mem pdu capacity message).1 = -ENOBUFS ↔ capacity < neededSize message) ∧
    (neededSize message ≤ capacity →
      (pduBuildOptionsAndPayload mem pdu capacity message).1 = neededSize message ∧
      header ++ slice (pduBuildOptionsAndPayload mem pdu capacity message).2 pdu (neededSize message) =
        (pduBuildvOptionsAndPayload header message).flatten)

variable {message : PduMessage w} {mem : Memory UInt8} {pdu capacity buf dst len : Nat} {chunks : List (List UInt8)}

/-! ## Chunks -/

theorem iolistSize_eq : ∀ {chunks : List (List UInt8)} {result : Nat}, result < 2 ^ w →
    iolistSize w chunks result = (result + chunks.flatten.length) % 2 ^ w := by
  intro chunks
  induction chunks with
  | nil =>
    intro result h
    exact (mod_eq_of_lt h).symm
  | cons chunk rest ih =>
    intro result _
    rw [iolistSize, ih (Nat.mod_lt _ (Nat.two_pow_pos w)), Nat.mod_add_mod, flatten_cons, length_append,
      add_assoc]

theorem payloadGetSize_eq : payloadGetSize message = message.payload.bytes.length := by
  have hlt := message.size_lt
  unfold payloadGetSize
  cases hpayload : message.payload with
  | contiguous bytes => rfl
  | noncontiguous chunks =>
    rw [hpayload] at hlt
    have hlt : chunks.flatten.length < 2 ^ w := hlt
    dsimp only
    rw [iolistSize_eq (Nat.two_pow_pos w), zero_add, Nat.mod_eq_of_lt hlt]
    rfl

theorem iolistToBuffer_fits : ∀ {chunks : List (List UInt8)} {mem : Memory UInt8} {dst len : Nat}, buf ≤ dst →
    chunks.flatten.length ≤ len → iolistToBuffer w mem buf dst chunks len =
      (toSsize w (dst - buf + chunks.flatten.length), store mem dst chunks.flatten) := by
  intro chunks
  induction chunks with
  | nil =>
    intro mem dst len _ _
    rw [iolistToBuffer, flatten_nil, store_nil]
    rfl
  | cons chunk rest ih =>
    intro mem dst len hbuf hfits
    rw [flatten_cons, length_append] at hfits
    rw [iolistToBuffer, if_neg (by omega), ih (by omega) (by omega), store_append, flatten_cons, length_append]
    congr 2
    omega

theorem iolistToBuffer_short : ∀ {chunks : List (List UInt8)} {mem : Memory UInt8} {dst len : Nat},
    len < chunks.flatten.length → (iolistToBuffer w mem buf dst chunks len).1 = -ENOBUFS ∧
      ∀ a, a < dst ∨ dst + len ≤ a → (iolistToBuffer w mem buf dst chunks len).2 a = mem a := by
  intro chunks
  induction chunks with
  | nil => exact fun h => absurd h (not_lt_zero _)
  | cons chunk rest ih =>
    intro mem dst len hshort
    rw [flatten_cons, length_append] at hshort
    rw [iolistToBuffer]
    by_cases hchunk : len < chunk.length
    · rw [if_pos hchunk]
      exact ⟨rfl, fun _ _ => rfl⟩
    · rw [if_neg hchunk]
      obtain ⟨hret, hframe⟩ := @ih (store mem dst chunk) (dst + chunk.length) (len - chunk.length) (by omega)
      refine ⟨hret, fun a ha => ?_⟩
      rw [hframe a (by omega), store_outside (by omega)]

theorem payloadCopy_fits (hfits : message.payload.bytes.length ≤ capacity) : payloadCopy message mem dst capacity =
    (toSsize w message.payload.bytes.length, store mem dst message.payload.bytes) := by
  unfold payloadCopy
  cases hpayload : message.payload with
  | contiguous bytes =>
    rw [hpayload] at hfits
    have hfits : bytes.length ≤ capacity := hfits
    dsimp only
    rw [if_neg (Nat.not_lt.mpr hfits)]
    rfl
  | noncontiguous chunks =>
    rw [hpayload] at hfits
    dsimp only
    rw [iolistToBuffer_fits le_rfl hfits, Nat.sub_self, Nat.zero_add]
    rfl

theorem payloadCopy_short (hshort : capacity < message.payload.bytes.length) :
    (payloadCopy message mem dst capacity).1 = -ENOBUFS ∧
      ∀ a, a < dst ∨ dst + capacity ≤ a → (payloadCopy message mem dst capacity).2 a = mem a := by
  unfold payloadCopy
  cases hpayload : message.payload with
  | contiguous bytes =>
    rw [hpayload] at hshort
    have hshort : capacity < bytes.length := hshort
    dsimp only
    rw [if_pos hshort]
    exact ⟨rfl, fun _ _ => rfl⟩
  | noncontiguous chunks =>
    rw [hpayload] at hshort
    exact iolistToBuffer_short hshort

/-! ## Options first -/

theorem optionsSize_eq : optionsSize message = (optionsData message).length := by
  unfold optionsSize optionsData
  cases message.options <;> rfl

theorem optionsData_nil (h : hasOptions message = false) : optionsData message = [] := by
  unfold hasOptions at h
  unfold optionsData
  cases hoptions : message.options with
  | none => rfl
  | some o =>
    rw [hoptions] at h
    exact o.none_empty (by simpa using h)

theorem build_short (h : capacity < optionsSize message) : pduBuildOptionsAndPayload mem pdu capacity message = (-ENOBUFS, mem) := by
  have hhas : hasOptions message = true := by
    by_contra hno
    rw [optionsSize_eq, optionsData_nil (Bool.eq_false_iff.mpr hno)] at h
    exact absurd h (not_lt_zero _)
  unfold pduBuildOptionsAndPayload
  rw [if_pos ⟨hhas, h⟩]

theorem build_eq (h : optionsSize message ≤ capacity) : pduBuildOptionsAndPayload mem pdu capacity message =
    if message.payload.bytes = [] then (toSsize w (optionsSize message), store mem pdu (optionsData message))
    else
      match payloadCopy message (store mem pdu (optionsData message ++ [payloadMarker])) (pdu + optionsSize message + 1)
        ((capacity - optionsSize message + 2 ^ w - 1) % 2 ^ w) with
      | (payloadSize, mem) =>
        if payloadSize < 0 then (-ENOBUFS, mem)
        else (toSsize w ((optionsSize message + 1 + payloadSize.toNat) % 2 ^ w), mem) := by
  have hsame : (if hasOptions message then
      (store mem pdu (optionsData message), pdu + optionsSize message, capacity - optionsSize message)
      else (mem, pdu, capacity)) =
      (store mem pdu (optionsData message), pdu + optionsSize message, capacity - optionsSize message) := by
    split
    · rfl
    · rename_i hno
      rw [optionsSize_eq, optionsData_nil (Bool.eq_false_iff.mpr hno), store_nil]
      rfl
  have hpos : 0 < payloadGetSize message ↔ ¬ message.payload.bytes = [] := by
    rw [payloadGetSize_eq, length_pos_iff]
  unfold pduBuildOptionsAndPayload
  rw [if_neg (fun hshort => absurd hshort.2 (Nat.not_lt.mpr h)), hsame]
  dsimp only
  by_cases hnil : message.payload.bytes = []
  · rw [if_neg (fun hgt => hpos.mp hgt hnil), if_pos hnil]
  · rw [if_pos (hpos.mpr hnil), if_neg hnil, optionsSize_eq, store_append]

/-- The chunks are the header, the options, and the marker with the payload if there is one. -/
theorem buildv_flatten {header : List UInt8} : (pduBuildvOptionsAndPayload header message).flatten =
    header ++ (optionsData message ++
      if message.payload.bytes = [] then [] else payloadMarker :: message.payload.bytes) := by
  have hoptions : (if hasOptions message then [header] ++ [optionsData message] else [header]).flatten =
      header ++ optionsData message := by
    split
    · simp
    · rename_i hno
      rw [optionsData_nil (Bool.eq_false_iff.mpr hno)]
      simp
  have hpos : 0 < payloadGetSize message ↔ ¬ message.payload.bytes = [] := by
    rw [payloadGetSize_eq, length_pos_iff]
  unfold pduBuildvOptionsAndPayload
  by_cases hnil : message.payload.bytes = []
  · rw [if_neg (fun hgt => hpos.mp hgt hnil), if_pos hnil, hoptions, append_nil]
  · rw [if_pos (hpos.mpr hnil), if_neg hnil, flatten_append, hoptions, flatten_cons, append_assoc]
    cases message.payload with
    | contiguous bytes => simp [Payload.bytes]
    | noncontiguous chunks => rfl

/-! ## Exactly when it is right -/

theorem toSsize_eq {n : Nat} (h : n < 2 ^ (w - 1)) : toSsize w n = n := if_pos h

theorem toSsize_neg {n : Nat} (hlt : n < 2 ^ w) (h : ¬ n < 2 ^ (w - 1)) : toSsize w n < 0 := by
  unfold toSsize
  have : (n : Int) < 2 ^ w := by exact_mod_cast hlt
  omega

theorem ne_enobufs (n : Nat) : (n : Int) ≠ -ENOBUFS := by
  have : ENOBUFS = 105 := rfl
  omega

/-- The bytes of options and payload that are written. -/
def pduBytes (message : PduMessage w) : List UInt8 :=
  optionsData message ++ if message.payload.bytes = [] then [] else payloadMarker :: message.payload.bytes

theorem length_pduBytes : (pduBytes message).length = neededSize message := by
  unfold pduBytes neededSize
  rw [length_append, optionsSize_eq]
  split
  · rfl
  · rw [length_cons, add_comm 1]

theorem pdu_of_nil (h : message.payload.bytes = []) :
    neededSize message = optionsSize message ∧ pduBytes message = optionsData message := by
  unfold neededSize pduBytes
  rw [if_pos h, if_pos h]
  exact ⟨rfl, append_nil _⟩

theorem pdu_of_ne (h : message.payload.bytes ≠ []) :
    neededSize message = optionsSize message + 1 + message.payload.bytes.length ∧
      pduBytes message = optionsData message ++ [payloadMarker] ++ message.payload.bytes := by
  unfold neededSize pduBytes
  rw [if_neg h, if_neg h, append_assoc, add_assoc]
  exact ⟨rfl, rfl⟩

/-- What is left of the capacity behind the marker, when there was room for it. -/
theorem capacity_left {n : Nat} (hcap : capacity < 2 ^ w) (h : n < capacity) :
    (capacity - n + 2 ^ w - 1) % 2 ^ w = capacity - n - 1 := by
  rw [show capacity - n + 2 ^ w - 1 = capacity - n - 1 + 2 ^ w by omega, add_mod_right, mod_eq_of_lt (by omega)]

theorem build_fits (hcap : capacity < 2 ^ w) (hfits : neededSize message ≤ capacity) :
    (pduBuildOptionsAndPayload mem pdu capacity message).2 = store mem pdu (pduBytes message) ∧
    ((pduBuildOptionsAndPayload mem pdu capacity message).1 = toSsize w (neededSize message) ∨
      (pduBuildOptionsAndPayload mem pdu capacity message).1 = -ENOBUFS ∧ ¬ neededSize message < 2 ^ (w - 1)) := by
  by_cases hnil : message.payload.bytes = []
  · obtain ⟨hsize, hbytes⟩ := pdu_of_nil hnil
    rw [hsize] at hfits
    rw [build_eq hfits, if_pos hnil, hsize, hbytes]
    exact ⟨rfl, .inl rfl⟩
  · obtain ⟨hsize, hbytes⟩ := pdu_of_ne hnil
    have hroom : optionsSize message < capacity := by omega
    have hlen : pdu + optionsSize message + 1 = pdu + (optionsData message ++ [payloadMarker]).length := by
      rw [length_append, length_singleton, optionsSize_eq, add_assoc]
    rw [build_eq (Nat.le_of_lt hroom), if_neg hnil, capacity_left hcap hroom, payloadCopy_fits (by omega), hlen, store_append,
      hsize, hbytes]
    by_cases hneg : toSsize w message.payload.bytes.length < 0
    · dsimp only
      rw [if_pos hneg]
      refine ⟨rfl, .inr ⟨rfl, fun hlt => ?_⟩⟩
      have hsmall : message.payload.bytes.length < 2 ^ (w - 1) := by omega
      rw [toSsize_eq hsmall] at hneg
      omega
    · have hlt : message.payload.bytes.length < 2 ^ (w - 1) := by
        by_contra hge
        exact hneg (toSsize_neg message.size_lt hge)
      dsimp only
      rw [if_neg hneg, toSsize_eq hlt, Int.toNat_natCast, mod_eq_of_lt (by omega)]
      exact ⟨rfl, .inl rfl⟩

/-- Without room for it nothing is written outside of the capacity, unless there is room for the options
only. -/
theorem build_fails (hcap : capacity < 2 ^ w) (hshort : capacity < neededSize message)
    (hmarker : ¬ (message.payload.bytes ≠ [] ∧ capacity = optionsSize message)) :
    (pduBuildOptionsAndPayload mem pdu capacity message).1 = -ENOBUFS ∧
      ∀ a, a < pdu ∨ pdu + capacity ≤ a → (pduBuildOptionsAndPayload mem pdu capacity message).2 a = mem a := by
  by_cases hoptions : capacity < optionsSize message
  · rw [build_short hoptions]
    exact ⟨rfl, fun _ _ => rfl⟩
  · have hnil : ¬ message.payload.bytes = [] := by
      intro hnil
      rw [(pdu_of_nil hnil).1] at hshort
      exact hoptions hshort
    rw [(pdu_of_ne hnil).1] at hshort
    have hne : capacity ≠ optionsSize message := fun heq => hmarker ⟨hnil, heq⟩
    have hroom : optionsSize message < capacity := by omega
    obtain ⟨hret, hframe⟩ := @payloadCopy_short w message (store mem pdu (optionsData message ++ [payloadMarker]))
      (capacity - optionsSize message - 1) (pdu + optionsSize message + 1) (by omega)
    rw [build_eq (Nat.le_of_lt hroom), if_neg hnil, capacity_left hcap hroom]
    dsimp only
    rw [if_pos (by rw [hret]; decide)]
    refine ⟨rfl, fun a ha => ?_⟩
    have hlen : (optionsData message ++ [payloadMarker]).length = optionsSize message + 1 := by
      rw [length_append, length_singleton, optionsSize_eq]
    rw [hframe a (by omega), store_outside (by rw [hlen]; omega)]

/-- When there is room for the options only, the marker is written behind the capacity. -/
theorem build_marker (hnil : message.payload.bytes ≠ []) (heq : capacity = optionsSize message) :
    (pduBuildOptionsAndPayload mem pdu capacity message).2 (pdu + capacity) = payloadMarker := by
  have hmarker : store mem pdu (optionsData message ++ [payloadMarker]) (pdu + capacity) = payloadMarker := by
    have hlen : capacity = (optionsData message).length := heq.trans optionsSize_eq
    rw [store_inside (by rw [length_append, length_singleton]; omega)]
    simp [hlen]
  have hkeep : ∀ left, (payloadCopy message (store mem pdu (optionsData message ++ [payloadMarker]))
      (pdu + optionsSize message + 1) left).2 (pdu + capacity) = payloadMarker := by
    intro left
    by_cases hfits : message.payload.bytes.length ≤ left
    · rw [payloadCopy_fits hfits]
      dsimp only
      rw [store_outside (.inl (by omega)), hmarker]
    · rw [(payloadCopy_short (Nat.not_le.mp hfits)).2 _ (.inl (by omega)), hmarker]
  rw [build_eq (Nat.le_of_eq heq.symm), if_neg hnil]
  dsimp only
  split <;> exact hkeep _

/-- **PDU assembly is right** exactly if it is not the case that there is room for the options only and
there is a payload, and what fits the capacity fits `ssize_t`. -/
theorem assembled_right_iff (w : Nat) (message : PduMessage w) (pdu capacity : Nat) (hcap : capacity < 2 ^ w) :
    AssembledRight pdu capacity message ↔ ¬ (message.payload.bytes ≠ [] ∧ capacity = optionsSize message) ∧
      (neededSize message ≤ capacity → neededSize message < 2 ^ (w - 1)) := by
  constructor
  · intro hright
    obtain ⟨hframe, -, hwritten⟩ := hright (fun _ => 0) []
    constructor
    · rintro ⟨hnil, heq⟩
      have hzero := hframe (pdu + capacity) (.inr le_rfl)
      rw [build_marker hnil heq] at hzero
      cases hzero
    · intro hfits
      by_contra hbig
      obtain ⟨hret, -⟩ := hwritten hfits
      rcases (@build_fits w message (fun _ => 0) pdu capacity hcap hfits).2 with hsize | ⟨herr, -⟩
      · have hneg := toSsize_neg (Nat.lt_of_le_of_lt hfits hcap) hbig
        omega
      · exact ne_enobufs _ (hret.symm.trans herr)
  · rintro ⟨hmarker, hbig⟩ mem header
    by_cases hfits : neededSize message ≤ capacity
    · obtain ⟨hmem, hret⟩ := @build_fits w message mem pdu capacity hcap hfits
      have hret : (pduBuildOptionsAndPayload mem pdu capacity message).1 = neededSize message := by
        rcases hret with hret | ⟨-, hover⟩
        · rw [hret, toSsize_eq (hbig hfits)]
        · exact absurd (hbig hfits) hover
      rw [hmem, hret]
      refine ⟨fun a ha => ?_, ⟨fun heq => absurd heq (ne_enobufs _), fun hlt => absurd hfits (Nat.not_le.mpr hlt)⟩,
        fun _ => ⟨rfl, ?_⟩⟩
      · rw [store_outside (by rw [length_pduBytes]; omega)]
      · rw [buildv_flatten, ← length_pduBytes, holds_store.slice_eq]
        rfl
    · obtain ⟨hret, hframe⟩ := @build_fails w message mem pdu capacity hcap (Nat.not_le.mp hfits) hmarker
      exact ⟨hframe, ⟨fun _ => Nat.not_le.mp hfits, fun _ => hret⟩, fun h => absurd h hfits⟩

/-- Two bytes of options and a payload of two chunks. -/
def chunked : PduMessage 32 where
  options := some ⟨1, [0xB1, 0x61], by decide, nofun⟩
  payload := .noncontiguous [[1], [2, 3]]
  size_lt := by decide

theorem assembled_right_iff_chunked : AssembledRight 100 6 chunked :=
  (assembled_right_iff 32 chunked 100 6 (by decide)).mpr ⟨by decide, by decide⟩

/-- There is room for the options only: the marker and the payload are written behind it. -/
theorem not_assembled_right : ¬ ∀ (message : PduMessage 32) (pdu capacity : Nat), capacity < 2 ^ 32 →
    AssembledRight pdu capacity message := by
  intro hall
  have hzero := (hall chunked 100 2 (by decide) (fun _ => 0) []).1 102 (.inr (by decide))
  revert hzero
  decide

end Riot.Unicoap
