import Riot.Nanocoap.OptRemove
import Mathlib.Data.List.GetD

/-!
# What is left after an option was removed

The message is shown to be rebuilt by one lemma for each way through `coap_opt_remove`, in terms of
its bytes and of the entries. Whether it is the message without the option, and the context what
parsing it again yields, is decided from there.
-/

namespace Riot.Nanocoap

open Riot.Lib Memory Function List Nat

variable {cfg : Cfg} {mem mem' : Memory UInt8} {buf len len' h offset prev num i j k n : Nat} {pkt pkt' : Pkt}
  {options : Memory OptPos} {pre run post os : List NumberedOption} {tail value : List UInt8}
  {processed : Nat → Bool} {e : OptPos} {es : List OptPos} {shift : Int} {rd rd' : Nat → Option UInt8}

/-! ## The header -/

theorem coapHdrGetTokenLen_congr {ext : Nat} {b : UInt8}
    (hrd : ∀ a, buf ≤ a → a < buf + udpHdrSize + ext → rd' a = rd a) (hb : rd buf = some b) (hext : coapHdrTklExtLen cfg b = some ext) :
    coapHdrGetTokenLen cfg rd' buf = coapHdrGetTokenLen cfg rd buf := by
  have hsize : udpHdrSize = 4 := rfl
  have hb' := (hrd buf le_rfl (by omega)).trans hb
  unfold coapHdrGetTokenLen
  rw [hb, hb', Option.bind_some, Option.bind_some, hext, Option.bind_some, Option.bind_some]
  by_cases h0 : ext = 0
  · rw [if_pos h0, if_pos h0]
  rw [if_neg h0, if_neg h0, hrd (buf + udpHdrSize) (by omega) (by omega)]
  by_cases h1 : ext = 1
  · rw [if_pos h1, if_pos h1]
  · rw [if_neg h1, if_neg h1, hrd (buf + udpHdrSize + 1) (by omega) (by omega)]

theorem IsMessage.header_congr (m : IsMessage cfg mem buf len h os tail)
    (hframe : ∀ a, buf ≤ a → a < buf + h → mem' a = mem a) (hle : h ≤ len') :
    coapIsHdrInBounds cfg (load mem' buf (buf + len')) buf len' = some true ∧
      coapGetTotalHdrLen cfg (load mem' buf (buf + len')) buf = some h := by
  have hsize : udpHdrSize = 4 := rfl
  obtain ⟨-, hmin, hlen, -⟩ := m.header
  have hread : ∀ a, buf ≤ a → a < buf + h → load mem' buf (buf + len') a = load mem buf (buf + len) a := by
    intro a hlo hhi
    rw [load_eq hlo (by omega), load_eq hlo (by omega), hframe a hlo hhi]
  have htotal := m.hdrLen
  have hbounds := m.inBounds
  unfold coapGetTotalHdrLen at htotal ⊢
  obtain ⟨b, hb, htotal⟩ := Option.bind_eq_some_iff.mp htotal
  obtain ⟨ext, hext, htotal⟩ := Option.bind_eq_some_iff.mp htotal
  obtain ⟨tkl, htkl, hsum⟩ := Option.map_eq_some_iff.mp htotal
  have hb' := (hread buf le_rfl (by omega)).trans hb
  have htkl' : coapHdrGetTokenLen cfg (load mem' buf (buf + len')) buf = some tkl :=
    (coapHdrGetTokenLen_congr (fun a hlo hhi => hread a hlo (by omega)) hb hext).trans htkl
  refine ⟨?_, ?_⟩
  · unfold coapIsHdrInBounds at hbounds ⊢
    rw [if_neg (by omega)] at hbounds ⊢
    by_cases hx : cfg.tokenExt = true
    · rw [if_pos hx, hb, Option.bind_some] at hbounds
      rw [if_pos hx, hb', Option.bind_some]
      by_cases h15 : (b &&& 0x0f).toNat = 15
      · rw [if_pos h15] at hbounds
        cases hbounds
      · rw [if_neg h15, hext, Option.bind_some, if_neg (by omega), htkl', Option.map_some,
          decide_eq_true (by omega)]
    · rw [if_neg hx, htkl, Option.map_some] at hbounds
      rw [if_neg hx, htkl', Option.map_some]
      by_cases h8 : coapTokenLengthMax < tkl
      · rw [if_pos h8] at hbounds
        cases hbounds
      · rw [if_neg h8, decide_eq_true (by omega)]
  · rw [hb', Option.bind_some, hext, Option.bind_some, htkl', Option.map_some, hsum]

/-! ## The context of a message -/

theorem recordAll_optCrit (hclear : ∀ j, k ≤ j → pkt.optCrit j = false) :
    Holds (recordAll pkt k es).optCrit k (es.map fun e => decide (e.optNum % 2 = 1)) ∧
      ∀ j < k, (recordAll pkt k es).optCrit j = pkt.optCrit j := by
  induction es generalizing pkt k with
  | nil => exact ⟨holds_nil, fun _ _ => rfl⟩
  | cons e es ih =>
    have hodd : e.optNum % 2 ^ 32 % 2 = e.optNum % 2 := by omega
    have hcrit : ∀ j, (recordOption pkt k (e.optNum % 2 ^ 32) e.offset).optCrit j =
        if j = k then decide (e.optNum % 2 = 1) else pkt.optCrit j := by
      intro j
      unfold recordOption
      dsimp only
      rw [hodd]
      by_cases hj : j = k
      · rw [if_pos hj, hj]
        by_cases ho : e.optNum % 2 = 1
        · rw [if_pos ho, update_self, decide_eq_true ho]
        · rw [if_neg ho, hclear k le_rfl, decide_eq_false ho]
      · split
        · exact update_of_ne hj ..
        · rfl
    obtain ⟨hholds, hframe⟩ := @ih (k + 1) (recordOption pkt k (e.optNum % 2 ^ 32) e.offset) (by
      intro j hj
      rw [hcrit, if_neg (by omega)]
      exact hclear j (by omega))
    refine ⟨⟨?_, hholds⟩, ?_⟩
    · rw [recordAll, hframe k (lt_succ_self k), hcrit, if_pos rfl]
    · intro j hj
      rw [recordAll, hframe j (by omega), hcrit, if_neg (by omega)]

theorem parsedPkt_optCrit : Holds (parsedPkt buf h options os tail).optCrit 0
    ((recorded os).map fun num => decide (num % 2 = 1)) := by
  have hcrit := (@recordAll_optCrit 0 ⟨buf, 0, 0, 0, options, fun _ => false⟩ (entriesFrom h 0 os) fun _ _ => rfl).1
  rw [← @recorded_eq h, map_map]
  cases tail with
  | nil => exact hcrit
  | cons _ _ => exact hcrit

/-- Options and what follows them are in the buffer, and the context says where. -/
structure Laid (mem : Memory UInt8) (pkt : Pkt) (buf h : Nat) (bytes tail : List UInt8) (es : List OptPos) : Prop where
  holds : Holds mem (buf + h) (bytes ++ tail)
  buf_eq : pkt.buf = buf
  payload : pkt.payload = buf + h + bytes.length + (tail.take 1).length
  payloadLen : pkt.payloadLen = (tail.drop 1).length
  optionsLen : pkt.optionsLen = es.length
  options : Holds pkt.options 0 (es.map OptPos.truncate)

theorem isContext_iff (m : IsMessage cfg mem buf len h os tail) (hlen : len < 2 ^ 16) :
    IsContext cfg mem buf len h os tail processed pkt ↔
      Laid mem pkt buf h (encodeOptions 0 os) tail (entriesFrom h 0 os) ∧
        Holds pkt.optCrit 0 ((recorded os).map (critBit processed)) := by
  have hlength := m.length_eq
  have hcount := @length_entriesFrom_le h 0 os
  rw [length_append] at hlength
  have hdrop : (tail.drop 1).length ≤ tail.length := by
    rw [length_drop]
    omega
  have hspec : ∀ options,
      Laid mem (parsedPkt buf h options os tail) buf h (encodeOptions 0 os) tail (entriesFrom h 0 os) := by
    intro options
    obtain ⟨hb, hp, hl, hc, ho⟩ := @parsedPkt_spec buf h options os tail m.tail
    rw [mod_eq_of_lt (by omega)] at hl hc
    exact ⟨m.holds, hb, hp, hl, hc, ho⟩
  have hrec := @length_recorded h os
  constructor
  · rintro ⟨-, options, parsed, hparse, hbuf, hpay, hplen, hcnt, hent⟩
    rw [coapParseUdp_eq m] at hparse
    obtain rfl := (Prod.mk.inj (Option.some.inj hparse)).2
    obtain ⟨-, hb, hp, hl, hc, ho⟩ := hspec options
    rw [hc] at hent
    refine ⟨⟨m.holds, hbuf.trans hb, hpay.trans hp, hplen.trans hl, hcnt.trans hc, ?_⟩, ?_⟩
    · refine holds_iff.mpr fun j hj => ?_
      have hj' := hj
      rw [length_map] at hj'
      have hget := holds_iff.mp ho j hj
      rw [zero_add] at hget ⊢
      rw [(hent j hj').1, hget]
    · refine holds_iff.mpr fun j hj => ?_
      rw [length_map] at hj
      have hget := holds_iff.mp (@parsedPkt_optCrit buf h options os tail) j (by rw [length_map]; exact hj)
      rw [zero_add] at hget ⊢
      rw [(hent j (by omega)).2, hget, getElem_map, getElem_map, getD_eq_getElem _ _ hj]
      rfl
  · rintro ⟨⟨-, hbuf, hpay, hplen, hcnt, hopt⟩, hcrit⟩
    refine ⟨m, pkt.options, _, coapParseUdp_eq m, ?_⟩
    obtain ⟨-, hb, hp, hl, hc, ho⟩ := hspec pkt.options
    refine ⟨hbuf.trans hb.symm, hpay.trans hp.symm, hplen.trans hl.symm, hcnt.trans hc.symm, ?_⟩
    intro j hj
    rw [hc] at hj
    constructor
    · have hget := holds_iff.mp hopt j (by rw [length_map]; exact hj)
      have hget' := holds_iff.mp ho j (by rw [length_map]; exact hj)
      rw [zero_add] at hget hget'
      rw [hget, hget']
    · have hj' : j < (recorded os).length := by omega
      have hget := holds_iff.mp hcrit j (by rw [length_map]; exact hj')
      have hget' := holds_iff.mp (@parsedPkt_optCrit buf h pkt.options os tail) j (by rw [length_map]; exact hj')
      rw [zero_add] at hget hget'
      rw [hget, hget', getElem_map, getElem_map, getD_eq_getElem _ _ hj']
      rfl

/-! ## Moving -/

theorem back_back {a b : Int} : (e.back a).back b = e.back (a + b) := by
  unfold OptPos.back
  congr 1
  dsimp only
  omega

theorem back_truncate : (OptPos.truncate ⟨n, offset + k⟩).back (k : Int) = OptPos.truncate ⟨n, offset⟩ := by
  unfold OptPos.back OptPos.truncate
  congr 1
  dsimp only
  omega

theorem moveEntries_holds (hes : Holds options (i + 1) es) :
    Holds (moveEntries shift es.length (i + 1) options) i (es.map fun e => e.back shift) ∧
      ∀ j < i, moveEntries shift es.length (i + 1) options j = options j := by
  induction es generalizing options i with
  | nil => exact ⟨holds_nil, fun _ _ => rfl⟩
  | cons e es ih =>
    obtain ⟨he, hes⟩ := hes
    have hrest : Holds (update options i (e.back shift)) (i + 1 + 1) es := by
      refine hes.congr fun j hj _ => ?_
      exact update_of_ne (by omega) ..
    obtain ⟨hholds, hframe⟩ := ih hrest
    rw [length_cons, moveEntries, Nat.add_sub_cancel, he]
    refine ⟨⟨?_, hholds⟩, ?_⟩
    · rw [hframe i (lt_succ_self i), update_self]
    · intro j hj
      rw [hframe j (by omega), update_of_ne (by omega)]

theorem holds_shift_iff {α : Type} {m : Memory α} {s : List α} (hs : Holds m (i + 1) s) :
    Holds m i s ↔ ∀ j, i ≤ j → j < i + s.length → m j = m (j + 1) := by
  rw [holds_iff] at hs ⊢
  constructor
  · intro hm j hj hlt
    obtain ⟨k, rfl⟩ := Nat.exists_eq_add_of_le hj
    have hk : k < s.length := by omega
    rw [hm k hk, ← hs k hk, Nat.add_right_comm]
  · intro hm k hk
    rw [hm (i + k) (Nat.le_add_right _ _) (by omega), ← hs k hk, Nat.add_right_comm]

theorem length_headBytes {delta : Nat} : (headBytes delta len).length = headLength delta len := by
  rw [headBytes, headLength, length_cons, length_append]
  omega

/-! ## The two ways through the function -/

variable {bytes tail' p q r : List UInt8} {front rest : List OptPos} {delta d n' start : Nat}

theorem Laid.closeGap (hbuf : pkt.buf = buf) (hpay : pkt.payload = buf + h + bytes.length + k + (tail.take 1).length)
    (hlen : pkt.payloadLen = (tail.drop 1).length) (hcount : pkt.optionsLen = es.length + 1)
    (hes : Holds pkt.options 0 (es.map OptPos.truncate)) (hp : Holds mem (buf + h) p) (hbytes : bytes = p ++ q)
    (hq : Holds mem (buf + h + p.length + k) (q ++ tail)) :
    ∃ mem' pkt', closeGap mem pkt (buf + h + p.length + k) (buf + h + p.length) =
        (((h + (bytes ++ tail).length : Nat) : Int), mem', pkt') ∧
      Laid mem' pkt' buf h bytes tail es ∧ pkt'.optCrit = pkt.optCrit ∧ ∀ a < buf + h, mem' a = mem a := by
  have hsplit : tail.length = (tail.take 1).length + (tail.drop 1).length := by
    rw [← length_append, take_append_drop]
  have hlength : bytes.length = p.length + q.length := by rw [hbytes, length_append]
  have hpay' : ((pkt.payload : Int) - (((buf + h + p.length + k : Nat) : Int) - (buf + h + p.length : Nat))).toNat =
      buf + h + bytes.length + (tail.take 1).length := by omega
  refine ⟨(Nanocoap.closeGap mem pkt (buf + h + p.length + k) (buf + h + p.length)).2.1,
    (Nanocoap.closeGap mem pkt (buf + h + p.length + k) (buf + h + p.length)).2.2, Prod.ext ?_ rfl,
    ⟨?_, hbuf, ?_, hlen, ?_, hes⟩, rfl, ?_⟩
  all_goals
    unfold Nanocoap.closeGap
    dsimp only
  · rw [hpay', length_append]
    omega
  · rw [hbytes, append_assoc, holds_append]
    refine ⟨hp.move_of_disjoint (.inl le_rfl), ?_⟩
    refine Holds.move (k := 0) hq ?_
    rw [length_append]
    omega
  · exact hpay'
  · rw [hcount, Nat.add_sub_cancel]
  · intro a ha
    exact move_outside (.inl (by omega))

theorem truncate_offset (h : offset < 2 ^ 16) : (OptPos.truncate ⟨n, offset⟩).offset = offset := mod_eq_of_lt h

theorem Laid.remove_last (l : Laid mem pkt buf h (p ++ r) tail (front ++ [⟨n, h + p.length⟩]))
    (ht : IsTail tail) (hfits : h + p.length < 2 ^ 16)
    (hfind : findOptionFrom pkt.options num 0 pkt.optionsLen = some front.length) :
    ∃ mem' pkt' tail', coapOptRemove mem pkt num = some (((h + (p ++ tail').length : Nat) : Int), mem', pkt') ∧
      (tail'.drop 1 = tail.drop 1 ∧ IsTail tail' ∧ tail'.length ≤ tail.length) ∧
      Laid mem' pkt' buf h p tail' front ∧ pkt'.optCrit = pkt.optCrit ∧ ∀ a < buf + h, mem' a = mem a := by
  have hcount := l.optionsLen
  rw [length_append, length_singleton] at hcount
  have hopt := l.options
  rw [map_append, holds_append, length_map, zero_add] at hopt
  obtain ⟨hfront, hentry, -⟩ := hopt
  have hholds := l.holds
  rw [append_assoc, holds_append, holds_append] at hholds
  obtain ⟨hp, -, htail⟩ := hholds
  have hpay := l.payload
  rw [length_append] at hpay
  have hstart : buf + (pkt.options front.length).offset = buf + h + p.length := by
    rw [hentry, truncate_offset hfits, add_assoc]
  unfold coapOptRemove
  rw [hfind]
  dsimp only
  rw [if_pos hcount.symm, l.buf_eq, hstart]
  by_cases hempty : pkt.payloadLen = 0
  · -- nothing is moved
    have hnone : tail.drop 1 = [] := length_eq_zero_iff.mp (l.payloadLen.symm.trans hempty)
    rw [if_neg (not_not.mpr hempty),
      show pkt.payload = buf + h + p.length + (r.length + (tail.take 1).length) by omega]
    obtain ⟨mem', pkt', hgap, hlaid, hcrit, hframe⟩ := @Laid.closeGap mem buf h (r.length + (tail.take 1).length) pkt []
      front p p [] l.buf_eq (by rw [hpay]; simp only [take_nil, length_nil]; omega) hempty hcount hfront hp
      (append_nil p).symm holds_nil
    refine ⟨mem', pkt', [], congrArg some hgap, ⟨hnone.symm, .inl rfl, zero_le _⟩, hlaid, hcrit, hframe⟩
  · -- the marker is in front of the payload
    have htake : (tail.take 1).length = 1 := by
      rcases ht with rfl | ⟨payload, rfl⟩
      · exact absurd l.payloadLen hempty
      · rfl
    rw [if_pos hempty, show pkt.payload - 1 = buf + h + p.length + r.length by omega]
    obtain ⟨mem', pkt', hgap, hlaid, hcrit, hframe⟩ := @Laid.closeGap mem buf h r.length pkt tail front p p []
      l.buf_eq (by omega) l.payloadLen hcount hfront hp (append_nil p).symm htail
    exact ⟨mem', pkt', tail, congrArg some hgap, ⟨rfl, ht, le_refl _⟩, hlaid, hcrit, hframe⟩

theorem moveEntries_gap {x gap : Nat} (hfront : Holds options 0 (front.map OptPos.truncate))
    (hnext : options (front.length + 1) = OptPos.truncate ⟨n', offset + x⟩)
    (hrest : Holds options (front.length + 1 + 1)
      ((rest.map fun e => ⟨e.optNum, e.offset + gap⟩).map OptPos.truncate)) :
    Holds (moveEntries (gap : Int) (rest.length + 1) (front.length + 1) (update options (front.length + 1)
        ((options (front.length + 1)).back ((x : Int) - gap)))) 0
      ((front ++ ⟨n', offset⟩ :: rest).map OptPos.truncate) := by
  have hholds : Holds (update options (front.length + 1)
      ((options (front.length + 1)).back ((x : Int) - gap))) (front.length + 1)
      ((OptPos.truncate ⟨n', offset + x⟩).back ((x : Int) - gap) ::
        (rest.map fun e => ⟨e.optNum, e.offset + gap⟩).map OptPos.truncate) := by
    refine ⟨?_, hrest.congr fun j hj _ => update_of_ne (by omega) ..⟩
    rw [update_self, hnext]
  obtain ⟨hmoved, hframe⟩ := @moveEntries_holds front.length _ _ (gap : Int) hholds
  rw [length_cons, length_map, length_map] at hmoved hframe
  rw [map_append, holds_append, length_map, zero_add]
  constructor
  · refine hfront.congr fun j _ hj => ?_
    rw [length_map] at hj
    rw [hframe j (by omega), update_of_ne (by omega)]
  · rw [map_cons] at hmoved ⊢
    rw [back_back, show (x : Int) - gap + gap = (x : Int) by omega, back_truncate, map_map, map_map] at hmoved
    refine ⟨hmoved.1, ?_⟩
    have hmap : rest.map OptPos.truncate = rest.map ((fun e => e.back (gap : Int)) ∘ OptPos.truncate ∘ fun e =>
        ⟨e.optNum, e.offset + gap⟩) := map_congr_left fun e _ => back_truncate.symm
    rw [hmap]
    exact hmoved.2

theorem Laid.remove_before
    (l : Laid mem pkt buf h (p ++ (r ++ (encodeOption d value ++ q))) tail
      (front ++ e :: ⟨n', h + p.length + r.length⟩ ::
        rest.map fun e => ⟨e.optNum, e.offset + (r.length + headLength d value.length - headLength delta value.length)⟩))
    (he : e.offset = h + p.length) (hfits : h + p.length + r.length < 2 ^ 16)
    (hgrow : headLength delta value.length ≤ r.length + headLength d value.length)
    (hfind : findOptionFrom pkt.options num 0 pkt.optionsLen = some front.length)
    (hdelta : ((pkt.options (front.length + 1)).optNum + 2 ^ 16 -
      if front.length = 0 then 0 else (pkt.options (front.length - 1)).optNum) % 2 ^ 16 = delta)
    (hparse : parseOption mem pkt (buf + (h + p.length + r.length)) =
      some (buf + h + p.length + r.length + headLength d value.length, k, (value.length : Int))) :
    ∃ mem' pkt', coapOptRemove mem pkt num =
        some (((h + ((p ++ (encodeOption delta value ++ q)) ++ tail).length : Nat) : Int), mem', pkt') ∧
      Laid mem' pkt' buf h (p ++ (encodeOption delta value ++ q)) tail (front ++ ⟨n', h + p.length⟩ :: rest) ∧
      pkt'.optCrit = pkt.optCrit ∧ ∀ a < buf + h, mem' a = mem a := by
  have hcount := l.optionsLen
  rw [length_append, length_cons, length_cons, length_map] at hcount
  have hopt := l.options
  rw [map_append, holds_append, length_map, zero_add] at hopt
  obtain ⟨hfront, hentry, hnext, hrest⟩ := hopt
  have hholds := l.holds
  rw [encodeOption_eq_head, append_assoc, holds_append, append_assoc, holds_append, append_assoc,
    append_assoc, holds_append, length_headBytes] at hholds
  obtain ⟨hp, -, -, hvalue⟩ := hholds
  have hpay := l.payload
  simp only [length_append, encodeOption_eq_head, length_headBytes] at hpay
  have hstart : buf + (pkt.options front.length).offset = buf + h + p.length := by
    rw [hentry]
    unfold OptPos.truncate
    dsimp only
    rw [he, mod_eq_of_lt (by omega), add_assoc]
  have hoptStart : (pkt.options (front.length + 1)).offset = h + p.length + r.length := by
    rw [hnext, truncate_offset hfits]
  unfold coapOptRemove
  rw [hfind]
  dsimp only
  rw [if_neg (by omega), l.buf_eq, hstart, hoptStart, hdelta, hparse]
  dsimp only
  have hhead := @store_headBytes mem (buf + h + p.length) delta value.length
  dsimp only at hhead
  rw [Int.toNat_natCast, hhead]
  obtain ⟨gap, hgap⟩ : ∃ gap, gap + headLength delta value.length = r.length + headLength d value.length :=
    ⟨_, Nat.sub_add_cancel hgrow⟩
  have hgap' : r.length + headLength d value.length - headLength delta value.length = gap := by omega
  rw [hgap'] at hrest
  have hold : buf + h + p.length + r.length + headLength d value.length =
      buf + h + (p ++ headBytes delta value.length).length + gap := by
    rw [length_append, length_headBytes]
    omega
  have hnew : buf + h + p.length + (headBytes delta value.length).length =
      buf + h + (p ++ headBytes delta value.length).length := by
    rw [length_append, add_assoc]
  have hshift : ((buf + h + (p ++ headBytes delta value.length).length + gap : Nat) : Int) -
      (buf + h + (p ++ headBytes delta value.length).length : Nat) = gap := by omega
  have hheader : ((headBytes delta value.length).length : Int) -
      (buf + h + (p ++ headBytes delta value.length).length + gap - (buf + (h + p.length + r.length)) : Nat) =
        (r.length : Int) - gap := by
    rw [length_append, length_headBytes]
    omega
  have hmore : pkt.optionsLen - (front.length + 1) = rest.length + 1 := by omega
  rw [hold, hnew, hshift, hheader, hmore]
  have hmem : Holds (store mem (buf + h + p.length) (headBytes delta value.length)) (buf + h)
      (p ++ headBytes delta value.length) :=
    holds_append.mpr ⟨hp.store (.inl le_rfl), holds_store⟩
  have hbehind : Holds (store mem (buf + h + p.length) (headBytes delta value.length))
      (buf + h + (p ++ headBytes delta value.length).length + gap) ((value ++ q) ++ tail) := by
    rw [← hold, append_assoc]
    refine Holds.store ?_ (.inr ?_)
    · exact hvalue
    · rw [length_headBytes]
      omega
  have hbytes : p ++ (encodeOption delta value ++ q) = (p ++ headBytes delta value.length) ++ (value ++ q) := by
    rw [encodeOption_eq_head, append_assoc, append_assoc]
  have hentries := moveEntries_gap hfront hnext hrest
  obtain ⟨mem', pkt', hclosed, hlaid, hcrit, hframe⟩ := @Laid.closeGap _ buf h gap
    { pkt with options := moveEntries gap (rest.length + 1) (front.length + 1) (update pkt.options
      (front.length + 1) ((pkt.options (front.length + 1)).back ((r.length : Int) - gap))) }
    tail (front ++ ⟨n', h + p.length⟩ :: rest) (p ++ (encodeOption delta value ++ q)) _ _ l.buf_eq
    (by simp only [length_append, encodeOption_eq_head, length_headBytes]; omega) l.payloadLen
    (by simp only [length_append, length_cons]; omega) hentries hmem hbytes hbehind
  rw [l.buf_eq] at hclosed
  exact ⟨mem', pkt', congrArg some hclosed, hlaid, hcrit,
    fun a ha => (hframe a ha).trans (store_of_lt (by omega))⟩

end Riot.Nanocoap
