import Riot.Can.Copying

/-!
# What the receiving half keeps

While a message is received in several frames, the receiving half owns one snip;
the others that are live belong to the upper layer. Five handlers release the
snip, hand it over or replace it, and none looks at whether the frame it handles
is as long as its type needs, whether a first frame carries more bytes than it
announces, or what becomes of the snip when the reception is broken off. `RxOk`
says which events do no harm; over runs of these, all is well.
-/

namespace Riot.Can

open Riot.Lib Option

/-- A message is received in several frames. -/
def TpState.Receiving (state : TpState) : Prop := state = .waitCf ∨ state = .sendingFc

instance (state : TpState) : Decidable state.Receiving := inferInstanceAs (Decidable (_ ∨ _))

/-! ## Who owns the snips -/

/-- The live snips are that of the receiving half and, each once, those of the upper layer. -/
structure Owned (snip : Option Nat) (mem : PktBuf) (indications : List Nat) : Prop where
  holds : mem.Holds {n | snip = some n ∨ n ∈ indications}
  apart : ∀ n, snip = some n → n ∉ indications
  nodup : indications.Nodup

namespace Owned

variable {snip : Option Nat} {mem : PktBuf} {indications : List Nat} {n : Nat} {data : List Byte}

theorem empty : Owned none .empty [] where
  holds := by
    have hset : {n | (none : Option Nat) = some n ∨ n ∈ ([] : List Nat)} = ∅ := by
      ext n
      simp
    rw [hset]
    exact PktBuf.empty_holds
  apart := by simp
  nodup := List.nodup_nil

theorem content (h : Owned (some n) mem indications) : ∃ data, mem.content n = some data :=
  h.holds.content (.inl rfl)

theorem put (h : Owned (some n) mem indications) (data : List Byte) :
    Owned (some n) (mem.put n data) indications :=
  ⟨h.holds.put (.inl rfl) data, h.apart, h.nodup⟩

theorem add (h : Owned none mem indications) (data : List Byte) :
    Owned (some mem.next) (mem.add data) indications where
  holds := by
    have hset : {n | some mem.next = some n ∨ n ∈ indications} =
        insert mem.next {n | none = some n ∨ n ∈ indications} := by
      ext n
      simp [eq_comm]
    rw [hset]
    exact h.holds.add data
  apart := by
    intro n hn hmem
    cases hn
    exact h.holds.next_notMem (.inr hmem)
  nodup := h.nodup

theorem release (h : Owned snip mem indications) : Owned none (mem.release snip) indications := by
  cases snip with
  | none => exact h
  | some n =>
    refine ⟨?_, by simp, h.nodup⟩
    have hset : {m | (none : Option Nat) = some m ∨ m ∈ indications} =
        {m | some n = some m ∨ m ∈ indications} \ {n} := by
      ext m
      have := h.apart n rfl
      by_cases hm : m = n
      · subst hm
        simp [this]
      · simp [hm, Ne.symm hm]
    rw [hset]
    exact h.holds.release (.inl rfl)

theorem handOver (h : Owned (some n) mem indications) : Owned none mem (indications ++ [n]) where
  holds := by
    have hset : {m | (none : Option Nat) = some m ∨ m ∈ indications ++ [n]} =
        {m | some n = some m ∨ m ∈ indications} := by
      ext m
      simp [or_comm, eq_comm]
    rw [hset]
    exact h.holds
  apart := by simp
  nodup := by
    rw [List.nodup_append]
    refine ⟨h.nodup, by simp, ?_⟩
    intro a ha b hb hab
    obtain rfl := List.mem_singleton.mp hb
    exact h.apart b rfl (hab ▸ ha)

theorem free (h : Owned snip mem indications) (hn : n ∈ indications) :
    Owned snip (mem.release (some n)) (indications.erase n) where
  holds := by
    have hset : {m | snip = some m ∨ m ∈ indications.erase n} =
        {m | snip = some m ∨ m ∈ indications} \ {n} := by
      ext m
      rw [Set.mem_sdiff, Set.mem_singleton_iff, Set.mem_ofPred, Set.mem_ofPred, h.nodup.mem_erase_iff]
      have hne : snip = some m → m ≠ n := fun hm hmn => h.apart m hm (hmn ▸ hn)
      grind
    rw [hset]
    exact h.holds.release (.inr hn)
  apart := fun m hm hmem => h.apart m hm (List.mem_of_mem_erase hmem)
  nodup := h.nodup.erase n

end Owned

/-- The receiving half has a snip exactly while a message is received in several frames, no snip
is lost or released twice, and no byte outside a frame or a snip was accessed. -/
structure RxSide.Sound (r : RxSide) : Prop where
  snip_iff : r.con.snip.isSome ↔ r.con.state.Receiving
  owned : Owned r.con.snip r.mem r.indications
  reads : r.reads = []

/-! ## Which events do no harm -/

/-- A single frame comes outside a reception; if it is taken, there is room to hand it over. -/
def SfOk (env : Env) (frame : CanFrame) (ae : Nat) (r : RxSide) : Prop :=
  r.con.snip = none ∧
    (sfPciSz + ae + (frame.byte ae &&& 0x0f).toNat ≤ frame.len → env.alloc.isSome → env.rxData)

/-- The length a first frame announces. -/
def ffLength (frame : CanFrame) (ae : Nat) : Nat :=
  ((frame.byte ae &&& 0x0f).toNat <<< 8) + (frame.byte (ae + 1)).toNat

/-- A first frame has its length, carries no more than it announces, and the flow control frame
is sent. When there is no room for the message, none is being received. -/
def FfOk (env : Env) (opt : Options) (frame : CanFrame) (ae : Nat) (r : RxSide) : Prop :=
  ae + 1 < frame.len ∧ (env.alloc.isNone → r.con.snip = none) ∧
    (env.alloc.isSome → frame.len - (ae + ffPciSz) ≤ ffLength frame ae ∧ (opt.listen ∨ 0 ≤ env.send))

/-- A consecutive frame finds room in the snip; if it completes the message, there is room to hand
it over; if it ends a block, the flow control frame is sent. -/
def CfOk (env : Env) (opt : Options) (frame : CanFrame) (ae : Nat) (r : RxSide) : Prop :=
  r.con.state = .waitCf → frame.byte ae &&& 0x0f = r.con.sn →
    (frame.len - (ae + nPciSz) = 0 ∨ r.con.idx < r.mem.size r.con.snip) ∧
      (r.mem.size r.con.snip ≤ r.con.idx + (frame.len - (ae + nPciSz)) → env.rxData) ∧
      (r.con.idx + (frame.len - (ae + nPciSz)) < r.mem.size r.con.snip →
        opt.listen ∨ r.fc.bs = 0 ∨ r.con.bs + 1 < r.fc.bs ∨ 0 ≤ env.send)

/-- The frame has the bytes its header takes, and what its type asks for. -/
def FrameOk (env : Env) (opt : Options) (frame : CanFrame) (r : RxSide) : Prop :=
  (opt.ae ≠ 0 → 0 < frame.len) ∧
    ((opt.ae ≠ 0 → frame.byte 0 = opt.rxExtAddress) →
      opt.ae < frame.len ∧
        (frame.byte opt.ae &&& 0xf0 = nPciSf → SfOk env frame opt.ae r) ∧
        (frame.byte opt.ae &&& 0xf0 = nPciFf → FfOk env opt frame opt.ae r) ∧
        (frame.byte opt.ae &&& 0xf0 = nPciCf → CfOk env opt frame opt.ae r))

/-- The event does no harm to the receiving half. -/
def RxOk (c : Isotp) : Env × Event → Prop
  | (env, .rxIndication frame) => FrameOk env c.opt frame c.rx
  | _ => True

section Decidability

variable (env : Env) (opt : Options) (frame : CanFrame) (ae : Nat) (r : RxSide) (c : Isotp)

instance : Decidable (SfOk env frame ae r) := inferInstanceAs (Decidable (_ ∧ (_ → _ → _)))

instance : Decidable (FfOk env opt frame ae r) :=
  inferInstanceAs (Decidable (_ ∧ (_ → _) ∧ (_ → _)))

instance : Decidable (CfOk env opt frame ae r) :=
  inferInstanceAs (Decidable (_ → _ → _ ∧ (_ → _) ∧ (_ → _)))

instance : Decidable (FrameOk env opt frame r) :=
  inferInstanceAs (Decidable ((_ → _) ∧ ((_ → _) → _ ∧ (_ → _) ∧ (_ → _) ∧ (_ → _))))

instance : ∀ e, Decidable (RxOk c e)
  | (env, .rxIndication frame) => inferInstanceAs (Decidable (FrameOk env c.opt frame c.rx))
  | (_, .send _ _) | (_, .freeRx _) | (_, .txTimer) | (_, .sendFrame) | (_, .txConfirmation _)
  | (_, .rxTimeout) | (_, .txTimeout) => inferInstanceAs (Decidable True)

end Decidability

/-! ## The handlers of the receiving half -/

section Handlers

variable {env : Env} {opt : Options} {frame : CanFrame} {ae n : Nat} {r : RxSide}

theorem freshData_length (memory : Nat → Byte) (size : Nat) : (freshData memory size).length = size := by
  simp [freshData]

theorem sound_idle (hsnip : r.con.snip = none) (hstate : r.con.state = .idle)
    (howned : Owned none r.mem r.indications) (hreads : r.reads = []) : r.Sound where
  snip_iff := by
    rw [hsnip, hstate]
    decide
  owned := hsnip ▸ howned
  reads := hreads

theorem isotpDispatchRx_sound (hsnip : r.con.snip = some n) (hstate : r.con.state = .idle)
    (howned : Owned (some n) r.mem r.indications) (hreads : r.reads = [])
    (hdata : env.rxData = true) : (isotpDispatchRx env r).1.Sound := by
  unfold isotpDispatchRx
  rw [hsnip, howned.holds.deref (.inl rfl)]
  rw [if_pos hdata]
  split
  · rw [hsnip]
    exact sound_idle rfl hstate howned.handOver hreads
  · rw [hsnip]
    exact sound_idle rfl hstate howned.release hreads

/-- Sending a flow control frame moves nothing but the state, and that only when it fails. -/
theorem isotpSendFc_sound {status : Byte} (h : r.Sound) (hsend : r.con.snip = none ∨ 0 ≤ env.send) :
    (isotpSendFc env opt ae status r).1.Sound := by
  unfold isotpSendFc
  split
  · exact ⟨h.snip_iff, h.owned, h.reads⟩
  · rename_i hfail
    have hnone : r.con.snip = none := hsend.resolve_right hfail
    exact sound_idle hnone rfl (hnone ▸ h.owned) h.reads

theorem isotpRcvSf_sound (h : r.Sound) (hae : ae < frame.len) (hok : SfOk env frame ae r) :
    (isotpRcvSf env frame ae r).1.Sound := by
  obtain ⟨hnone, hroom⟩ := hok
  have howned : Owned none r.mem r.indications := hnone ▸ h.owned
  unfold isotpRcvSf
  dsimp only
  rw [RxSide.reading_of_lt (r := { r with timer := none, con.state := .idle }) hae]
  split
  · exact sound_idle hnone rfl howned h.reads
  · have hlen' : sfPciSz + ae + (frame.byte ae &&& 0x0f).toNat ≤ frame.len := by omega
    split
    · exact sound_idle hnone rfl howned h.reads
    · rename_i memory halloc
      have hcontent := PktBuf.add_content r.mem (freshData memory (frame.byte ae &&& 0x0f).toNat)
      rw [PktBuf.size_of_content hcontent, freshData_length]
      rw [RxSide.store_eq (d := freshData memory (frame.byte ae &&& 0x0f).toNat) _ rfl hcontent
        (by rw [freshData_length]; dsimp only; omega) hlen']
      exact isotpDispatchRx_sound rfl rfl ((howned.add _).put _) h.reads (hroom hlen' (by rw [halloc]; rfl))

theorem ffLength_le (frame : CanFrame) (ae : Nat) : ffLength frame ae ≤ maxMsgLength := by
  have hlow : (frame.byte ae &&& 0x0f).toNat ≤ 15 := by
    exact Nat.and_le_right
  unfold ffLength maxMsgLength
  omega

theorem isotpRcvFf_sound (h : r.Sound) (hok : FfOk env opt frame ae r) :
    (isotpRcvFf env opt frame ae r).1.Sound := by
  obtain ⟨hlen, hnoroom, hroom⟩ := hok
  have hpci : ffPciSz = 2 := rfl
  have hmax : ¬maxMsgLength < ffLength frame ae := not_lt.mpr (ffLength_le frame ae)
  have howned : Owned none (r.mem.release r.con.snip) r.indications := h.owned.release
  unfold isotpRcvFf
  dsimp only
  rw [RxSide.reading_of_lt (r := { r with con.state := .idle }) (show ae < frame.len by omega),
    RxSide.reading_of_lt (r := { r with con.state := .idle }) hlen]
  change RxSide.Sound (Prod.fst (if maxMsgLength < ffLength frame ae then _ else _))
  rw [if_neg hmax]
  cases halloc : env.alloc with
  | none =>
    -- the snip field is left as it is, so there must be none
    have hnone : r.con.snip = none := hnoroom (by rw [halloc]; rfl)
    have hidle : RxSide.Sound { r with con.state := .idle, mem := r.mem.release r.con.snip } :=
      sound_idle hnone rfl howned h.reads
    dsimp only
    split
    · exact hidle
    · exact isotpSendFc_sound hidle (.inl hnone)
  | some memory =>
    obtain ⟨hfits, hsend⟩ := hroom (by rw [halloc]; rfl)
    dsimp only
    have hcontent := PktBuf.add_content (r.mem.release r.con.snip) (freshData memory (ffLength frame ae))
    rw [RxSide.store_eq (d := freshData memory (ffLength frame ae)) _ rfl hcontent
      (by rw [freshData_length]; dsimp only; omega)
      (by omega)]
    have howned' := (howned.add (freshData memory (ffLength frame ae))).put
      (blit (freshData memory (ffLength frame ae)) 0
        (frame.bytes (ae + ffPciSz) (frame.len - (ae + ffPciSz))))
    split
    · exact ⟨iff_of_true rfl (.inl rfl), howned', h.reads⟩
    · rename_i hlisten
      refine isotpSendFc_sound ⟨iff_of_true rfl (.inr rfl), howned', h.reads⟩ (.inr ?_)
      exact hsend.resolve_left hlisten

theorem isotpRcvCf_sound (h : r.Sound) (hae : ae < frame.len) (hok : CfOk env opt frame ae r) :
    (isotpRcvCf env opt frame ae r).1.Sound := by
  unfold isotpRcvCf
  split
  · exact h
  rename_i hstate
  have hwait : r.con.state = .waitCf := Decidable.not_not.mp hstate
  obtain ⟨n, hsnip⟩ := isSome_iff_exists.mp (h.snip_iff.mpr (.inl hwait))
  have howned : Owned (some n) r.mem r.indications := hsnip ▸ h.owned
  dsimp only
  rw [RxSide.reading_of_lt (r := { r with timer := none }) hae]
  split
  · rw [hsnip]
    exact sound_idle rfl rfl howned.release h.reads
  rename_i hsn
  obtain ⟨data, hdata⟩ := howned.content
  obtain ⟨hidx, hlast, hmore⟩ := hok hwait (Decidable.not_not.mp hsn)
  rw [hsnip, PktBuf.size_of_content hdata] at hidx hlast hmore
  have hlen : ae + nPciSz + (frame.len - (ae + nPciSz)) ≤ frame.len := by
    show ae + 1 + (frame.len - (ae + 1)) ≤ frame.len
    omega
  rw [RxSide.storeUntilFull_put (r := { r with timer := none, con.sn := (r.con.sn + 1) % 16 })
    (d := data) hsnip hdata hidx hlen]
  dsimp only
  have hblit := PktBuf.put_content r.mem n (blit data r.con.idx
    (frame.bytes (ae + nPciSz) (min (frame.len - (ae + nPciSz)) (data.length - r.con.idx))))
  have hlength : (blit data r.con.idx (frame.bytes (ae + nPciSz)
      (min (frame.len - (ae + nPciSz)) (data.length - r.con.idx)))).length = data.length := by
    cases hidx with
    | inl hzero =>
      rw [hzero, Nat.zero_min]
      show (blit data r.con.idx []).length = data.length
      rw [blit_nil]
    | inr hlt => exact blit_length (by rw [CanFrame.bytes_length]; omega)
  rw [hsnip, PktBuf.deref_of_content hblit, PktBuf.size_of_content hblit, hlength]
  split
  · exact isotpDispatchRx_sound rfl rfl (howned.put _) h.reads (hlast (by omega))
  have hsend := hmore (by omega)
  have hsound : ∀ (bs : Byte) (timer : Option Nat),
      RxSide.Sound { r with
        timer := timer
        mem := r.mem.put n (blit data r.con.idx (frame.bytes (ae + nPciSz)
          (min (frame.len - (ae + nPciSz)) (data.length - r.con.idx))))
        con.sn := (r.con.sn + 1) % 16
        con.idx := r.con.idx + min (frame.len - (ae + nPciSz)) (data.length - r.con.idx)
        con.bs := bs
        con.snip := some n } := by
    intro bs timer
    exact ⟨iff_of_true rfl (.inl hwait), howned.put _, h.reads⟩
  split
  · exact hsound r.con.bs none
  split
  · exact hsound r.con.bs (some timeoutNCr)
  split
  · exact hsound (r.con.bs + 1) (some timeoutNCr)
  · exact isotpSendFc_sound (hsound (r.con.bs + 1) none) (.inr (by tauto))

theorem isotpRxTimeoutTask_sound (h : r.Sound) : (isotpRxTimeoutTask r).Sound := by
  unfold isotpRxTimeoutTask
  split
  · exact sound_idle rfl rfl h.owned.release h.reads
  · exact sound_idle rfl rfl h.owned.release h.reads
  · exact h

theorem isotpRxTxConf_sound (h : r.Sound) : (isotpRxTxConf r).Sound := by
  unfold isotpRxTxConf
  dsimp only
  split
  · rename_i hstate
    refine ⟨iff_of_true (h.snip_iff.mpr (.inr hstate)) (.inl rfl), h.owned, h.reads⟩
  · exact ⟨h.snip_iff, h.owned, h.reads⟩

end Handlers

/-! ## The sending half reads a frame only where it has bytes -/

section Reads

variable {env : Env} {opt : Options} {frame : CanFrame} {ae : Nat} {t : TxSide} {err : Int}

theorem load_reads (n : Nat) : ∀ {i : Nat} {t : TxSide} {f : CanFrame}, (t.load n i f).1.reads = t.reads := by
  induction n with
  | zero => exact rfl
  | succ n ih => exact ih

theorem isotpDispatchTx_reads : (isotpDispatchTx env opt err t).1.reads = t.reads := by
  unfold isotpDispatchTx
  dsimp only
  split
  · rfl
  · split
    · rfl
    · rfl

theorem isotpTxSend_reads : (isotpTxSend env opt frame t).1.reads = t.reads := by
  unfold isotpTxSend
  split
  · exact isotpDispatchTx_reads
  · rfl

theorem isotpFillDataframe_reads : (isotpFillDataframe opt frame ae t).1.reads = t.reads := load_reads _

theorem isotpSendSfFf_reads : (isotpSendSfFf env opt t).1.reads = t.reads := by
  unfold isotpSendSfFf
  dsimp only
  split
  · rw [isotpTxSend_reads]
    exact isotpFillDataframe_reads
  · rw [isotpTxSend_reads]
    exact load_reads _

theorem isotpRcvFc_reads : (isotpRcvFc env opt frame ae t).1.reads = t.reads := by
  unfold isotpRcvFc
  dsimp only
  split
  · rfl
  split
  · rfl
  -- the length check has passed, so all three bytes are there
  rename_i hlen
  have hpci : fcContentSz = 3 := rfl
  rw [TxSide.reading_of_lt (t := { t with timer := none }) (show ae + 1 < frame.len by omega),
    TxSide.reading_of_lt (t := { t with timer := none }) (show ae + 2 < frame.len by omega),
    TxSide.reading_of_lt (t := { t with timer := none }) (show ae < frame.len by omega)]
  split
  · rfl
  split
  · split
    · exact isotpDispatchTx_reads
    · rfl
  · exact isotpDispatchTx_reads

theorem isotpTxTimeoutTask_reads : (isotpTxTimeoutTask env opt t).reads = t.reads := by
  unfold isotpTxTimeoutTask
  dsimp only
  split
  · exact isotpDispatchTx_reads
  · rw [isotpTxSend_reads]
    exact isotpFillDataframe_reads
  · exact isotpDispatchTx_reads
  · exact isotpDispatchTx_reads
  · exact isotpDispatchTx_reads
  · rfl

theorem isotpTxTxConf_reads : (isotpTxTxConf env opt t).reads = t.reads := by
  unfold isotpTxTxConf
  dsimp only
  split
  · exact isotpDispatchTx_reads
  · rfl
  · split
    · exact isotpDispatchTx_reads
    · split
      · rfl
      · rfl
  · rfl

theorem isotpSend_reads {buf : List Byte} {flags : BitVec 32} {c : Isotp} :
    (isotpSend env buf flags c).1.tx.reads = c.tx.reads ∧ (isotpSend env buf flags c).1.rx = c.rx := by
  unfold isotpSend
  dsimp only
  split
  · exact ⟨rfl, rfl⟩
  · split
    · exact ⟨rfl, rfl⟩
    · exact ⟨rfl, rfl⟩

end Reads

/-! ## Runs -/

/-- The receiving half is sound, and no flow control frame was read beyond its end. -/
structure ReceiverSafe (c : Isotp) : Prop where
  rx : c.rx.Sound
  reads : c.tx.reads = []

theorem isotpBind_safe (opt : Options) (fcOptions : Option FcOptions) :
    ReceiverSafe (isotpBind opt fcOptions) :=
  ⟨sound_idle rfl rfl .empty rfl, rfl⟩

theorem isotpRcv_safe {env : Env} {frame : CanFrame} {c : Isotp} (h : ReceiverSafe c)
    (hok : FrameOk env c.opt frame c.rx) : ReceiverSafe (isotpRcv env frame c).1 := by
  obtain ⟨hfirst, hrest⟩ := hok
  have hread : (if c.opt.ae ≠ 0 then { c with rx := c.rx.reading frame 0 } else c) = c := by
    split
    · rename_i hae
      rw [RxSide.reading_of_lt (hfirst hae)]
    · rfl
  unfold isotpRcv
  dsimp only
  rw [hread]
  split
  · exact h
  obtain ⟨hae, hsf, hff, hcf⟩ := hrest (by tauto)
  rw [RxSide.reading_of_lt hae]
  split
  · exact ⟨h.rx, isotpRcvFc_reads.trans h.reads⟩
  split
  · rename_i htype
    exact ⟨isotpRcvSf_sound h.rx hae (hsf htype), h.reads⟩
  split
  · rename_i htype
    exact ⟨isotpRcvFf_sound h.rx (hff htype), h.reads⟩
  split
  · rename_i htype
    exact ⟨isotpRcvCf_sound h.rx hae (hcf htype), h.reads⟩
  · exact h

/-- **What one event keeps.** -/
theorem isotpStep_safe {c c' : Isotp} {e : Env × Event} (h : ReceiverSafe c) (hok : RxOk c e)
    (hstep : isotpStep c e = some c') : ReceiverSafe c' := by
  obtain ⟨env, event⟩ := e
  cases event with
  | send buf flags =>
    obtain ⟨-, hc⟩ := ite_none_right_eq_some.mp hstep
    cases hc
    obtain ⟨hreads, hrx⟩ := @isotpSend_reads env buf flags c
    exact ⟨hrx ▸ h.rx, hreads.trans h.reads⟩
  | freeRx snip =>
    obtain ⟨hmem, hc⟩ := ite_none_right_eq_some.mp hstep
    cases hc
    exact ⟨⟨h.rx.snip_iff, h.rx.owned.free hmem, h.rx.reads⟩, h.reads⟩
  | txTimer =>
    obtain ⟨-, hc⟩ := ite_none_right_eq_some.mp hstep
    cases hc
    exact ⟨h.rx, h.reads⟩
  | sendFrame =>
    obtain ⟨-, hc⟩ := ite_none_right_eq_some.mp hstep
    cases hc
    exact ⟨h.rx, isotpSendSfFf_reads.trans h.reads⟩
  | rxIndication frame =>
    obtain ⟨-, hc⟩ := ite_none_right_eq_some.mp hstep
    cases hc
    exact isotpRcv_safe h hok
  | txConfirmation handle =>
    simp only [isotpStep] at hstep
    split at hstep
    · exact absurd hstep (by simp)
    split at hstep
    · cases hstep
      exact ⟨h.rx, isotpTxTxConf_reads.trans h.reads⟩
    split at hstep
    · cases hstep
      exact ⟨isotpRxTxConf_sound h.rx, h.reads⟩
    · cases hstep
      exact h
  | rxTimeout =>
    cases hstep
    exact ⟨isotpRxTimeoutTask_sound h.rx, h.reads⟩
  | txTimeout =>
    obtain ⟨-, hc⟩ := ite_none_right_eq_some.mp hstep
    cases hc
    exact ⟨h.rx, isotpTxTimeoutTask_reads.trans h.reads⟩

/-- **The receiving half over a run.** When every frame has what its type asks for, in every state
the receiving half has a snip exactly while a message is received in several frames, none is
leaked or released twice, and every access is inside a frame or a snip. -/
theorem isotp_receiver (opt : Options) (fcOptions : Option FcOptions) (es : List (Env × Event))
    (h : Along isotpStep RxOk (isotpBind opt fcOptions) es) :
    Always isotpStep ReceiverSafe (isotpBind opt fcOptions) es :=
  always_of_along (fun _ h => h) (fun _ _ _ h hok hstep => isotpStep_safe h hok hstep) es
    (isotpBind_safe opt fcOptions) h

theorem isotp_receiver_ten_bytes :
    Along isotpStep RxOk (isotpBind plainOptions none)
        [(granted, .rxIndication ⟨0x708, 8, #v[0x10, 10, 1, 2, 3, 4, 5, 6]⟩),
          (granted, .txConfirmation 1),
          (granted, .rxIndication ⟨0x708, 5, #v[0x21, 7, 8, 9, 10, 0, 0, 0]⟩), (granted, .freeRx 0)] ∧
      Always isotpStep ReceiverSafe (isotpBind plainOptions none)
        [(granted, .rxIndication ⟨0x708, 8, #v[0x10, 10, 1, 2, 3, 4, 5, 6]⟩),
          (granted, .txConfirmation 1),
          (granted, .rxIndication ⟨0x708, 5, #v[0x21, 7, 8, 9, 10, 0, 0, 0]⟩),
          (granted, .freeRx 0)] :=
  ⟨by decide +kernel, isotp_receiver plainOptions none _ (by decide +kernel)⟩

/-- A first frame that announces one byte and carries six: five of them are written beyond the end
of the snip. -/
theorem not_isotp_receiver :
    ¬∀ (opt : Options) (fcOptions : Option FcOptions) (es : List (Env × Event)),
      Always isotpStep ReceiverSafe (isotpBind opt fcOptions) es := by
  intro h
  have hall := h plainOptions none
    [(granted, .rxIndication ⟨0x708, 8, #v[0x10, 1, 1, 2, 3, 4, 5, 6]⟩)]
  have hrun : (run isotpStep (isotpBind plainOptions none)
      [(granted, .rxIndication ⟨0x708, 8, #v[0x10, 1, 1, 2, 3, 4, 5, 6]⟩)]).any
      (fun c => decide (c.rx.mem.faults = [.outside 1 1, .outside 2 1, .outside 3 1, .outside 4 1,
        .outside 5 1])) = true := by decide +kernel
  obtain ⟨c, hc, hfaults⟩ := (Option.any_eq_true _ _).mp hrun
  have hnone := (hall.last hc).rx.owned.holds.faults
  rw [of_decide_eq_true hfaults] at hnone
  exact absurd hnone (by simp)

end Riot.Can
