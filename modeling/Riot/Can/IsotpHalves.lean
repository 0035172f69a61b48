import Riot.Can.IsotpFrames
import Riot.Can.IsotpReceiver

/-!
# The halves of a transfer

What the sending half of one channel and the receiving half of the other do during
a transfer, when everything they ask for is there. `j` counts the consecutive
frames: those the sending half has built, those the receiving half has taken.
-/

namespace Riot.Can

open Nat List BitVec

/-- The packet buffer, the driver and the upper layer grant everything that is asked for. -/
structure Granted (env : Env) : Prop where
  alloc : env.alloc.isSome
  rxData : env.rxData = true
  indTaken : env.indTaken = true
  noteTaken : env.noteTaken = true
  send : 1 ≤ env.send

namespace Transfer

variable (T : Transfer)

/-- The receiving half sends a flow control frame after the `j`-th consecutive frame. -/
def BlockEnd (j : Nat) : Prop := T.fc.bs ≠ 0 ∧ j % T.fc.bs.toNat = 0

instance (j : Nat) : Decidable (T.BlockEnd j) := inferInstanceAs (Decidable (_ ∧ _))

/-! ## The sending half -/

/-- The message that starts the transfer is in the queue. -/
structure TxStart (c : Isotp) : Prop where
  opt : c.opt = T.optA
  accounted : c.tx.Accounted
  posted : 0 < c.tx.posted
  snip : c.tx.con.snip = some T.txSnip
  content : c.tx.mem.content T.txSnip = some T.msg
  notes : c.tx.notes = T.notes

/-- The single frame is with the driver, or its confirmation in the queue. -/
structure TxSf (c : Isotp) : Prop where
  opt : c.opt = T.optA
  busy : c.tx.Busy T.txSnip T.msg
  state : c.tx.con.state = .sendingSf
  notes : c.tx.notes = T.notes

/-- The first frame and `j` consecutive frames have been built. -/
structure TxAt (c : Isotp) (j : Nat) : Prop where
  opt : c.opt = T.optA
  busy : c.tx.Busy T.txSnip T.msg
  idx : c.tx.con.idx = T.pos j
  sn : c.tx.con.sn = cfNumber (j + 1)
  notes : c.tx.notes = T.notes

/-- The last of them is with the driver, or its confirmation in the queue. -/
structure TxSent (c : Isotp) (j : Nat) : Prop extends T.TxAt c j where
  state : c.tx.con.state = if j = 0 then .sendingFf else .sendingCf
  bs : j ≠ 0 → c.tx.fc.bs = T.fc.bs ∧
    (T.fc.bs ≠ 0 → c.tx.con.bs.toNat = (j - 1) % T.fc.bs.toNat + 1)

/-- A flow control frame is waited for. -/
structure TxWait (c : Isotp) (j : Nat) : Prop extends T.TxAt c j where
  state : c.tx.con.state = .waitFc

/-- The gap before the next consecutive frame. -/
structure TxNext (c : Isotp) (j : Nat) : Prop extends T.TxAt c j where
  state : c.tx.con.state = .sendingNextCf
  bs : c.tx.fc.bs = T.fc.bs ∧ (T.fc.bs ≠ 0 → c.tx.con.bs.toNat = j % T.fc.bs.toNat)

/-- The transfer has ended: the snip is released, and there is one more notification. -/
structure TxDone (c : Isotp) : Prop where
  accounted : c.tx.Accounted
  state : c.tx.con.state = .idle
  snip : c.tx.con.snip = none
  released : ¬c.tx.mem.Live T.txSnip
  notes : c.tx.notes = T.notes ++ [(some T.txSnip, .txConfirmation)]

/-! ## The receiving half -/

/-- Nothing is being received. -/
structure RxIdle (c : Isotp) : Prop where
  opt : c.opt = T.optB
  fc : c.rx.fc = T.fc
  handle : c.tx.con.txHandle = 0
  indications : c.rx.indications = T.indications
  state : c.rx.con.state = .idle
  quiet : c.tx.con.state = .idle

/-- The first frame and `j` consecutive frames have been taken. -/
structure RxAt (c : Isotp) (j : Nat) : Prop where
  opt : c.opt = T.optB
  fc : c.rx.fc = T.fc
  handle : c.tx.con.txHandle = 0
  indications : c.rx.indications = T.indications
  content : ∃ n data, c.rx.con.snip = some n ∧ c.rx.mem.content n = some data ∧
    data.length = T.msg.length ∧ data.take (T.pos j) = T.msg.take (T.pos j)
  idx : c.rx.con.idx = T.pos j
  sn : c.rx.con.sn = cfNumber (j + 1)
  bs : T.fc.bs ≠ 0 → c.rx.con.bs.toNat = j % T.fc.bs.toNat
  quiet : c.tx.con.state = .idle

/-- The message has been handed to the upper layer. -/
structure RxDone (c : Isotp) : Prop where
  state : c.rx.con.state = .idle
  snip : c.rx.con.snip = none
  delivered : ∃ n, c.rx.indications = T.indications ++ [n] ∧ c.rx.mem.content n = some T.msg
  quiet : c.tx.con.state = .idle

variable {T} {env : Env} {c : Isotp} {j : Nat} {f : CanFrame}

/-! ## Steps of the sending half -/

/-- A frame built by `_isotp_fill_dataframe` with the address and the first byte in place. -/
theorem isHead_setByte {f : CanFrame} {head : Byte} (hmax : f.len ≤ canMaxDlen)
    (hlen : T.ae < f.len) (haddress : T.ae ≠ 0 → f.byte 0 = T.optA.extAddress) :
    IsHead T.ae T.optB.rxExtAddress (f.setByte T.ae head) head where
  len_le := hmax
  ae_lt := hlen
  address := by
    intro hext
    rw [CanFrame.byte_setByte_ne hext, haddress hext]
    exact T.toB hext
  head := CanFrame.byte_setByte_self (by omega)

variable {h : Int} {opt : Options} {r : RxSide} {t : TxSide}

theorem isotpTxSend_granted (h : 1 ≤ env.send) : isotpTxSend env opt f t =
      ({ t with timer := some timeoutNAs, con.txHandle := env.send, out := t.out ++ [f] }, 0) := by
  unfold isotpTxSend
  rw [if_neg (by omega)]

theorem isotpSendSfFf_granted (henv : Granted env) (hbusy : t.Busy T.txSnip T.msg)
    (hidx : t.con.idx = 0) (hnotes : t.notes = T.notes) :
    ∃ f, (isotpSendSfFf env T.optA t).1.out = t.out ++ [f] ∧
      (isotpSendSfFf env T.optA t).1.con.txHandle = env.send ∧
      (isotpSendSfFf env T.optA t).1.Busy T.txSnip T.msg ∧
      (isotpSendSfFf env T.optA t).1.notes = T.notes ∧
      (T.IsSf f ∧ (isotpSendSfFf env T.optA t).1.con.state = .sendingSf ∨
        T.IsFf f ∧ (isotpSendSfFf env T.optA t).1.con.state = .sendingFf ∧
          (isotpSendSfFf env T.optA t).1.con.idx = T.pos 0 ∧
          (isotpSendSfFf env T.optA t).1.con.sn = 1 ∧ T.pos 0 < T.msg.length) := by
  have hsend := henv.send
  have hae := T.ae_le
  have hmax : canMaxDlen = 8 := rfl
  have hsf : sfPciSz = 1 := rfl
  have hff : ffPciSz = 2 := rfl
  have hdata : T.msg.drop t.con.idx = T.msg := by rw [hidx]; rfl
  unfold isotpSendSfFf
  dsimp only
  rw [hbusy.deref, hbusy.size, T.aeA]
  split
  · rename_i hfits
    have hcount : min (7 - T.ae) (T.msg.length - t.con.idx) = T.msg.length := by omega
    obtain ⟨hlen, hle, haddress, hbytes⟩ :=
      @isotpFillDataframe_snd T.optA ⟨0, 0, env.uninit⟩ _ _ _ _ hbusy hae
    rw [hcount, hdata, take_length] at hbytes
    obtain ⟨g, hg⟩ : ∃ g, g = (isotpFillDataframe T.optA ⟨0, 0, env.uninit⟩ T.ae t).2 := ⟨_, rfl⟩
    rw [← hg] at hlen hle haddress hbytes ⊢
    rw [isotpTxSend_granted hsend, isotpFillDataframe_fst hbusy]
    refine ⟨_, rfl, rfl, ?_, hnotes, .inl ⟨?_, rfl⟩⟩
    · exact ⟨hbusy.snip, hbusy.content, hbusy.ledger, hbusy.posted, hbusy.size_le, by dsimp only; omega⟩
    · have hhead : (g.setByte T.ae nPciSf).byte T.ae ||| BitVec.ofNat 8 T.msg.length =
          nPciSf ||| BitVec.ofNat 8 T.msg.length := by
        rw [CanFrame.byte_setByte_self (by omega)]
      rw [hhead]
      have haddress' : T.ae ≠ 0 → (g.setByte T.ae nPciSf).byte 0 = T.optA.extAddress := by
        intro hext
        rw [CanFrame.byte_setByte_ne hext]
        exact haddress hext
      refine ⟨isHead_setByte hle (by rw [CanFrame.setByte_len]; omega) haddress', ?_, ?_⟩
      · rw [CanFrame.setByte_len, CanFrame.setByte_len]
        omega
      · rw [CanFrame.bytes_setByte_of_lt (by omega), CanFrame.bytes_setByte_of_lt (by omega)]
        exact hbytes
  · have hbusy' : TxSide.Busy { t with con.state := .sendingFf } T.txSnip T.msg :=
      ⟨hbusy.snip, hbusy.content, hbusy.ledger, hbusy.posted, hbusy.size_le, hbusy.idx_le⟩
    have hroom : t.con.idx + (canMaxDlen - (T.ae + ffPciSz)) ≤ T.msg.length := by omega
    have hzero : T.pos 0 = 6 - T.ae := by
      unfold pos
      omega
    obtain ⟨hlen, haddress, hhead, hlow, hbytes⟩ :=
      @isotpCreateFf_snd T.optA ⟨0, 0, env.uninit⟩ _ _ _ _ hbusy' hae hroom
    rw [isotpTxSend_granted hsend, isotpCreateFf_fst hbusy' hroom]
    refine ⟨_, rfl, rfl, ?_, hnotes, .inr ⟨⟨⟨?_, ?_, ?_, hhead⟩, hlen, hlow, ?_⟩, rfl, ?_, rfl, ?_⟩⟩
    · exact ⟨hbusy.snip, hbusy.content, hbusy.ledger, hbusy.posted, hbusy.size_le, by dsimp only; omega⟩
    · rw [hlen]
    · rw [hlen]
      omega
    · intro hext
      rw [haddress hext]
      exact T.toB hext
    · rw [hbytes]
      rw [hdata]
    · dsimp only
      omega
    · omega

theorem step_sendFrame (h : T.TxStart c) (henv : Granted env) :
    ∃ c' f, isotpStep c (env, .sendFrame) = some c' ∧ c'.rx = c.rx ∧
      c'.tx.out = c.tx.out ++ [f] ∧ c'.tx.con.txHandle = env.send ∧
      (T.IsSf f ∧ T.TxSf c' ∨ T.IsFf f ∧ T.TxSent c' 0 ∧ T.pos 0 < T.msg.length) := by
  have hone := h.accounted.posted_le
  have hpos := h.posted
  have hidx := (h.accounted.posted_idle h.posted).2
  have hledger : Ledger (some T.txSnip) c.tx.mem c.tx.sends c.tx.notes := h.snip ▸ h.accounted.ledger
  have hbusy : TxSide.Busy { c.tx with posted := c.tx.posted - 1 } T.txSnip T.msg :=
    ⟨h.snip, h.content, hledger, by dsimp only; omega, T.length_le, by dsimp only; omega⟩
  obtain ⟨f, hout, hhandle, hbusy', hnotes, hkind⟩ := isotpSendSfFf_granted henv hbusy hidx h.notes
  refine ⟨_, f, if_pos hpos, rfl, ?_, ?_, ?_⟩
  · rw [h.opt]
    exact hout
  · dsimp only
    rw [h.opt]
    exact hhandle
  · rw [← h.opt] at hbusy' hnotes hkind
    cases hkind with
    | inl hsf => exact .inl ⟨hsf.1, h.opt, hbusy', hsf.2, hnotes⟩
    | inr hff =>
      obtain ⟨hframe, hstate, hidx', hsn, hmore⟩ := hff
      exact .inr ⟨hframe, ⟨⟨h.opt, hbusy', hidx', hsn, hnotes⟩, hstate, fun h => absurd rfl h⟩, hmore⟩

theorem isotpTxTimeoutTask_granted (henv : Granted env) (hbusy : t.Busy T.txSnip T.msg)
    (hstate : t.con.state = .sendingNextCf) (hidx : t.con.idx = T.pos j)
    (hsn : t.con.sn = cfNumber (j + 1)) :
    ∃ f, T.IsCf j f ∧ isotpTxTimeoutTask env T.optA t = { t with
      timer := some timeoutNAs
      con.idx := T.pos (j + 1)
      con.sn := cfNumber (j + 2)
      con.bs := t.con.bs + 1
      con.state := .sendingCf
      con.txHandle := env.send
      out := t.out ++ [f] } := by
  have hae := T.ae_le
  have hnext := T.pos_succ j
  have hmax : canMaxDlen = 8 := rfl
  have hpci : nPciSz = 1 := rfl
  have hcount : canMaxDlen - (nPciSz + T.ae) = 7 - T.ae := by omega
  obtain ⟨hlen, hle, haddress, hbytes⟩ := @isotpFillDataframe_snd T.optA ⟨0, 0, env.uninit⟩ _ _ _ _ hbusy hae
  rw [hidx] at hlen hbytes
  refine ⟨(isotpFillDataframe T.optA ⟨0, 0, env.uninit⟩ T.ae t).2.setByte T.ae
    (nPciCf ||| cfNumber (j + 1)), ?_, ?_⟩
  · refine ⟨isHead_setByte hle (by omega) haddress, ?_, ?_⟩
    · rw [CanFrame.setByte_len]
      omega
    · rw [CanFrame.bytes_setByte_of_lt (by omega)]
      exact hbytes
  · unfold isotpTxTimeoutTask
    rw [hstate, T.aeA]
    dsimp only
    rw [isotpTxSend_granted henv.send, isotpFillDataframe_fst hbusy]
    dsimp only
    rw [hsn, cfNumber_succ, hidx, hcount, ← hnext]

theorem step_txTimeout (h : T.TxNext c j) (hfired : 0 < c.tx.fired) (henv : Granted env) :
    ∃ c' f, isotpStep c (env, .txTimeout) = some c' ∧ c'.rx = c.rx ∧
      c'.tx.out = c.tx.out ++ [f] ∧ c'.tx.con.txHandle = env.send ∧
      T.IsCf j f ∧ T.TxSent c' (j + 1) := by
  have hbusy : TxSide.Busy { c.tx with fired := c.tx.fired - 1 } T.txSnip T.msg :=
    ⟨h.busy.snip, h.busy.content, h.busy.ledger, h.busy.posted, h.busy.size_le, h.busy.idx_le⟩
  obtain ⟨f, hframe, htask⟩ := isotpTxTimeoutTask_granted henv hbusy h.state h.idx h.sn
  have hstep : isotpStep c (env, .txTimeout) = some { c with
      tx := isotpTxTimeoutTask env c.opt { c.tx with fired := c.tx.fired - 1 } } := if_pos hfired
  rw [h.opt, htask] at hstep
  refine ⟨_, f, hstep, rfl, rfl, rfl, hframe, ?_, ?_, ?_⟩
  · exact ⟨rfl, ⟨h.busy.snip, h.busy.content, h.busy.ledger, h.busy.posted, h.busy.size_le,
      T.pos_le (j + 1)⟩, rfl, rfl, h.notes⟩
  · exact (if_neg (succ_ne_zero j)).symm
  · intro _
    refine ⟨h.bs.1, fun hbs => ?_⟩
    have hcur := h.bs.2 hbs
    have hpos : 0 < T.fc.bs.toNat := by
      have : T.fc.bs.toNat ≠ 0 := fun h => hbs (eq_of_toNat_eq h)
      omega
    have hlt := mod_lt j hpos
    rw [toNat_add, hcur, Nat.add_sub_cancel]
    exact mod_eq_of_lt (by show j % T.fc.bs.toNat + 1 < 256; omega)

theorem isotpDispatchTx_done (henv : Granted env) (hbusy : t.Busy T.txSnip T.msg)
    (hstate : t.con.state = .idle) (hnotes : t.notes = T.notes) (opt : Options) (c : Isotp) :
    T.TxDone { c with tx := (isotpDispatchTx env opt 0 t).1 } := by
  have hacc : (isotpDispatchTx env opt 0 t).1.Accounted :=
    isotpDispatchTx_accounted hbusy hstate henv.noteTaken
  have hshape : (isotpDispatchTx env opt 0 t).1 = { t with
      mem := t.mem.release t.con.snip
      con.snip := none
      notes := t.notes ++ [(t.con.snip, .txConfirmation)] } := by
    unfold isotpDispatchTx
    rw [if_neg (by rw [flags_txDontWait]; exact fun h => h rfl), if_pos henv.noteTaken]
    rfl
  refine ⟨hacc, ?_, ?_, ?_, ?_⟩
  · rw [hshape]
    exact hstate
  · rw [hshape]
  · have hholds := hacc.ledger.holds
    rw [hshape] at hholds ⊢
    intro hlive
    exact nomatch (hholds.live_iff T.txSnip).mp hlive
  · rw [hshape]
    rw [hnotes, hbusy.snip]

theorem isotpDispatchTx_out {err : Int} : (isotpDispatchTx env opt err t).1.out = t.out := by
  unfold isotpDispatchTx
  dsimp only
  split
  · rfl
  · split
    · rfl
    · rfl

theorem step_txConfirmation (hhandle : c.tx.con.txHandle = h) (hpos : 1 ≤ h) :
    isotpStep c (env, .txConfirmation h) = some { c with tx := isotpTxTxConf env c.opt c.tx } := by
  show (if h < 1 then none else _) = _
  rw [if_neg (by omega), if_pos hhandle]

theorem step_confSf (hsf : T.TxSf c) (hhandle : c.tx.con.txHandle = h) (hpos : 1 ≤ h) (henv : Granted env) :
    ∃ c', isotpStep c (env, .txConfirmation h) = some c' ∧ c'.rx = c.rx ∧ c'.tx.out = c.tx.out ∧
      T.TxDone c' := by
  refine ⟨_, step_txConfirmation hhandle hpos, rfl, ?_, ?_⟩
  · unfold isotpTxTxConf
    dsimp only
    rw [hsf.state]
    exact isotpDispatchTx_out
  · unfold isotpTxTxConf
    dsimp only
    rw [hsf.state]
    have hbusy : TxSide.Busy { c.tx with timer := none, con.txHandle := 0, con.state := .idle }
        T.txSnip T.msg :=
      ⟨hsf.busy.snip, hsf.busy.content, hsf.busy.ledger, hsf.busy.posted, hsf.busy.size_le, hsf.busy.idx_le⟩
    exact isotpDispatchTx_done henv hbusy rfl hsf.notes c.opt c

/-- After `j` consecutive frames, at the last of a block and only there, the counter has reached
the block size. -/
theorem block_count {j b : Nat} (hj : j ≠ 0) (hb : 0 < b) :
    (b ≤ (j - 1) % b + 1 ↔ j % b = 0) ∧ (j % b ≠ 0 → (j - 1) % b + 1 = j % b) := by
  obtain ⟨i, rfl⟩ := exists_eq_succ_of_ne_zero hj
  have hlt := mod_lt i hb
  have hsucc : i.succ % b = if i % b + 1 = b then 0 else i % b + 1 := by
    rw [succ_eq_add_one, ← mod_add_mod]
    split
    · rename_i hfull
      rw [hfull, mod_self]
    · exact mod_eq_of_lt (by omega)
  rw [hsucc, succ_sub_one]
  constructor
  · constructor
    · intro hfull
      rw [if_pos (by omega)]
    · intro hzero
      split at hzero
      · omega
      · omega
  · intro hne
    split
    · rename_i hfull
      rw [if_pos hfull] at hne
      exact absurd rfl hne
    · rfl

theorem step_conf (hsent : T.TxSent c j) (hhandle : c.tx.con.txHandle = h) (hpos : 1 ≤ h)
    (henv : Granted env) (hmore : j = 0 → T.pos j < T.msg.length) :
    ∃ c', isotpStep c (env, .txConfirmation h) = some c' ∧ c'.rx = c.rx ∧ c'.tx.out = c.tx.out ∧
      (T.msg.length ≤ T.pos j → T.TxDone c') ∧
      (T.pos j < T.msg.length → j = 0 ∨ T.BlockEnd j → T.TxWait c' j) ∧
      (T.pos j < T.msg.length → j ≠ 0 → ¬T.BlockEnd j → T.TxNext c' j ∧ c'.tx.timer.isSome) := by
  have hidx := hsent.idx
  have hbusy : ∀ {state : TpState} {timer : Option Nat}, TxSide.Busy { c.tx with
      timer := timer, con.txHandle := 0, con.state := state } T.txSnip T.msg := by
    intro state timer
    exact ⟨hsent.busy.snip, hsent.busy.content, hsent.busy.ledger, hsent.busy.posted,
      hsent.busy.size_le, hsent.busy.idx_le⟩
  have hat : ∀ {state : TpState} {timer : Option Nat}, T.TxAt { c with tx := { c.tx with
      timer := timer, con.txHandle := 0, con.state := state } } j := by
    intro state timer
    exact ⟨hsent.opt, hbusy, hsent.idx, hsent.sn, hsent.notes⟩
  rw [step_txConfirmation hhandle hpos]
  refine ⟨_, rfl, rfl, ?_⟩
  have hstate := hsent.state
  by_cases hj : j = 0
  · have hlt := hmore hj
    rw [if_pos hj] at hstate
    have hshape : isotpTxTxConf env c.opt c.tx = { c.tx with
        timer := some timeoutNBs, con.txHandle := 0, con.state := .waitFc } := by
      unfold isotpTxTxConf
      dsimp only
      rw [hstate]
    rw [hshape]
    exact ⟨rfl, fun hle => absurd hlt (by omega), fun _ _ => ⟨hat, rfl⟩, fun _ hne => absurd hj hne⟩
  · rw [if_neg hj] at hstate
    have hunfold : isotpTxTxConf env c.opt c.tx =
        if T.msg.length ≤ T.pos j then
          (isotpDispatchTx env c.opt 0 { c.tx with timer := none, con.txHandle := 0, con.state := .idle }).1
        else if c.tx.fc.bs ≠ 0 ∧ c.tx.fc.bs ≤ c.tx.con.bs then
          { c.tx with con.state := .waitFc, con.txHandle := 0, timer := some timeoutNBs }
        else { c.tx with
          con.state := .sendingNextCf, con.txHandle := 0, timer := some c.tx.gap } := by
      unfold isotpTxTxConf
      dsimp only
      rw [hstate]
      rw [hsent.busy.deref, hsent.busy.size, hidx]
    obtain ⟨hfc, hbs⟩ := hsent.bs hj
    -- the sender's counter reaches the block size where the receiver ends its block
    have hblock : (c.tx.fc.bs ≠ 0 ∧ c.tx.fc.bs ≤ c.tx.con.bs) ↔ T.BlockEnd j := by
      rw [hfc]
      refine and_congr_right (fun hne => ?_)
      have hcount := hbs hne
      have hnat : T.fc.bs.toNat ≠ 0 := fun h => hne (eq_of_toNat_eq h)
      rw [le_def, hcount]
      exact (block_count hj (by omega)).1
    rw [hunfold]
    by_cases hlast : T.msg.length ≤ T.pos j
    · rw [if_pos hlast]
      exact ⟨isotpDispatchTx_out, fun _ => isotpDispatchTx_done henv hbusy rfl hsent.notes c.opt c,
        fun hlt => absurd hlast (by omega), fun hlt => absurd hlast (by omega)⟩
    rw [if_neg hlast]
    by_cases hend : T.BlockEnd j
    · rw [if_pos (hblock.mpr hend)]
      exact ⟨rfl, fun hle => absurd hle hlast, fun _ _ => ⟨hat, rfl⟩,
        fun _ _ hne => absurd hend hne⟩
    · rw [if_neg (fun h => hend (hblock.mp h))]
      refine ⟨rfl, fun hle => absurd hle hlast, fun _ hor => absurd hor (by tauto), fun _ _ _ => ?_⟩
      refine ⟨⟨hat, rfl, hfc, fun hne => ?_⟩, rfl⟩
      have hnat : T.fc.bs.toNat ≠ 0 := fun h => hne (eq_of_toNat_eq h)
      have hmod : j % T.fc.bs.toNat ≠ 0 := fun hzero => hend ⟨hne, hzero⟩
      exact (hbs hne).trans ((block_count hj (by omega)).2 hmod)

theorem step_txTimer (h : T.TxNext c j) (htimer : c.tx.timer.isSome = true) :
    ∃ c', isotpStep c (env, .txTimer) = some c' ∧ c'.rx = c.rx ∧ c'.tx.out = c.tx.out ∧
      T.TxNext c' j ∧ 0 < c'.tx.fired ∧ c'.tx.timer = none :=
  ⟨_, if_pos htimer, rfl, rfl,
    ⟨⟨h.opt, ⟨h.busy.snip, h.busy.content, h.busy.ledger, h.busy.posted, h.busy.size_le,
      h.busy.idx_le⟩, h.idx, h.sn, h.notes⟩, h.state, h.bs⟩, succ_pos _, rfl⟩

theorem isotpRcv_head {ae : Nat} {address head : Byte} (hae : c.opt.ae = ae)
    (haddress : c.opt.rxExtAddress = address) (h : IsHead ae address f head) :
    (isotpRcv env f c).1 = if head &&& 0xf0 = nPciFc then { c with tx := (isotpRcvFc env c.opt f ae c.tx).1 }
      else if head &&& 0xf0 = nPciSf then { c with rx := (isotpRcvSf env f ae c.rx).1 }
      else if head &&& 0xf0 = nPciFf then { c with rx := (isotpRcvFf env c.opt f ae c.rx).1 }
      else if head &&& 0xf0 = nPciCf then { c with rx := (isotpRcvCf env c.opt f ae c.rx).1 }
      else c := by
  have hfirst : (if ae ≠ 0 then { c with rx := c.rx.reading f 0 } else c) = c := by
    split
    · rename_i hext
      rw [RxSide.reading_of_lt (by have := h.ae_lt; omega)]
    · rfl
  have hmatch : ¬(ae ≠ 0 ∧ f.byte 0 ≠ c.opt.rxExtAddress) := by
    intro ⟨hext, hne⟩
    rw [haddress] at hne
    exact hne (h.address hext)
  unfold isotpRcv
  dsimp only
  rw [hae, hfirst, if_neg hmatch, RxSide.reading_of_lt h.ae_lt, h.head]
  split
  · rfl
  split
  · rfl
  split
  · rfl
  split
  · rfl
  · rfl

theorem step_fc (h : T.TxWait c j) (hframe : T.IsFc f) (hblock : j = 0 ∨ T.BlockEnd j) :
    ∃ c', isotpStep c (env, .rxIndication f) = some c' ∧ c'.rx = c.rx ∧ c'.tx.out = c.tx.out ∧
      T.TxNext c' j ∧ c'.tx.timer.isSome := by
  have hlen := hframe.fits
  have hfc : fcContentSz = 3 := rfl
  have htype : (nPciFc ||| fcCts) &&& 0xf0 = nPciFc := by decide
  have hstatus : (nPciFc ||| fcCts) &&& 0xf = fcCts := by decide
  have hopt : c.opt.ae = T.ae := by rw [h.opt, T.aeA]
  have hrcv := @isotpRcv_head env _ _ _ _ _ hopt (by rw [h.opt]) hframe.toIsHead
  have hstep : isotpStep c (env, .rxIndication f) = some (isotpRcv env f c).1 := if_pos hframe.len_le
  rw [hrcv] at hstep
  obtain ⟨stmin, gap, hshape⟩ : ∃ stmin gap, (isotpRcvFc env c.opt f T.ae c.tx).1 = { c.tx with
      fc.bs := T.fc.bs, fc.stmin := stmin, gap := gap, wft := 0, con.bs := 0
      con.state := .sendingNextCf, timer := some gap } := by
    unfold isotpRcvFc
    rw [if_neg (by rw [h.state]; exact fun h => h rfl), if_neg (by omega)]
    rw [TxSide.reading_of_lt (t := { c.tx with timer := none }) (by omega),
      TxSide.reading_of_lt (t := { c.tx with timer := none }) (by omega),
      TxSide.reading_of_lt (t := { c.tx with timer := none }) (by omega)]
    rw [hframe.head, hframe.bs, if_pos hstatus]
    exact ⟨_, _, rfl⟩
  rw [hshape] at hstep
  refine ⟨_, hstep, rfl, rfl, ⟨⟨h.opt, ?_, h.idx, h.sn, h.notes⟩, rfl, rfl, fun hne => ?_⟩, rfl⟩
  · exact ⟨h.busy.snip, h.busy.content, h.busy.ledger, h.busy.posted, h.busy.size_le, h.busy.idx_le⟩
  · show 0 = j % T.fc.bs.toNat
    cases hblock with
    | inl hzero => rw [hzero, zero_mod]
    | inr hend => exact hend.2.symm

/-! ## Steps of the receiving half -/

theorem isotpDispatchRx_granted {n : Nat} {data : List Byte} (henv : Granted env)
    (hsnip : r.con.snip = some n) (hdata : r.mem.content n = some data) :
    isotpDispatchRx env r = ({ r with indications := r.indications ++ [n], con.snip := none }, 0) := by
  unfold isotpDispatchRx
  rw [hsnip, PktBuf.deref_of_content hdata]
  rw [if_pos henv.rxData, if_pos henv.indTaken, hsnip]
  rfl

theorem isotpSendFc_granted {ae : Nat} {status : Byte} (henv : Granted env) :
    isotpSendFc env opt ae status r =
      ({ r with
        con.bs := 0, timer := some timeoutNAr, con.txHandle := env.send
        out := r.out ++ [fcFrame env opt r.fc ae status] }, 0) := by
  have := henv.send
  unfold isotpSendFc
  rw [if_pos (by omega)]

theorem step_sf (h : T.RxIdle c) (hframe : T.IsSf f) (henv : Granted env) :
    ∃ c', isotpStep c (env, .rxIndication f) = some c' ∧ c'.tx = c.tx ∧ c'.rx.out = c.rx.out ∧
      T.RxDone c' := by
  have hfits := hframe.fits
  have hle := hframe.len_le
  have hmax : canMaxDlen = 8 := rfl
  have hsf : sfPciSz = 1 := rfl
  obtain ⟨htype, hlen⟩ := pci_sf (n := T.msg.length) (by omega)
  have hopt : c.opt.ae = T.ae := by rw [h.opt, T.aeB]
  have hrcv := @isotpRcv_head env _ _ _ _ _ hopt (by rw [h.opt]) hframe.toIsHead
  rw [htype, if_neg (by decide), if_pos rfl] at hrcv
  have hstep : isotpStep c (env, .rxIndication f) = some (isotpRcv env f c).1 := if_pos hle
  rw [hrcv] at hstep
  obtain ⟨memory, halloc⟩ := Option.isSome_iff_exists.mp henv.alloc
  have hcontent := PktBuf.add_content c.rx.mem (freshData memory T.msg.length)
  have hblit : blit (freshData memory T.msg.length) 0 T.msg = T.msg := by
    have hfresh := freshData_length memory T.msg.length
    unfold blit
    rw [take_zero, nil_append, Nat.zero_add, drop_of_length_le (by omega),
      append_nil]
  have hshape : (isotpRcvSf env f T.ae c.rx).1 = { c.rx with
      timer := none
      con.state := .idle
      con.idx := T.msg.length
      con.snip := none
      mem := (c.rx.mem.add (freshData memory T.msg.length)).put c.rx.mem.next T.msg
      indications := c.rx.indications ++ [c.rx.mem.next] } := by
    unfold isotpRcvSf
    dsimp only
    rw [RxSide.reading_of_lt (r := { c.rx with timer := none, con.state := .idle }) hframe.ae_lt,
      hframe.head, hlen]
    rw [if_neg (by omega), halloc]
    dsimp only
    rw [PktBuf.size_of_content hcontent, freshData_length]
    rw [RxSide.store_eq (d := freshData memory T.msg.length) _ rfl hcontent
      (by rw [freshData_length]; dsimp only; omega) (by omega)]
    have hbytes : f.bytes (sfPciSz + T.ae) T.msg.length = T.msg := by
      rw [hsf, Nat.add_comm]
      exact hframe.data
    rw [hbytes, hblit]
    rw [isotpDispatchRx_granted henv rfl (PktBuf.put_content ..)]
    rw [Nat.zero_add]
  rw [hshape] at hstep
  refine ⟨_, hstep, rfl, rfl, rfl, rfl, ⟨c.rx.mem.next, ?_, PktBuf.put_content ..⟩, h.quiet⟩
  rw [h.indications]

theorem take_blit {data : List Byte} {i k : Nat} {s : List Byte} (hi : i ≤ data.length)
    (htake : data.take i = T.msg.take i) (hs : s = (T.msg.drop i).take k) (hk : s.length = k) :
    (blit data i s).take (i + k) = T.msg.take (i + k) := by
  rw [← hk, blit_take hi, htake, hs, ← take_add, ← hs, hk]

theorem step_ff (h : T.RxIdle c) (hframe : T.IsFf f) (hmore : T.pos 0 < T.msg.length) (henv : Granted env) :
    ∃ c' fc, isotpStep c (env, .rxIndication f) = some c' ∧ c'.tx = c.tx ∧
      c'.rx.out = c.rx.out ++ [fc] ∧ T.IsFc fc ∧ c'.rx.con.txHandle = env.send ∧ T.RxAt c' 0 ∧
      c'.rx.con.state = .sendingFc := by
  have hlen := hframe.len_eq
  have hae := T.ae_le
  have hmax : canMaxDlen = 8 := rfl
  have hff : ffPciSz = 2 := rfl
  have hlong := T.length_le
  have hmsg : maxMsgLength = 4095 := rfl
  have hpos : T.pos 0 = 6 - T.ae := by
    unfold pos at hmore ⊢
    omega
  have htype := (pci_ff (n := T.msg.length / 256) (by omega)).1
  have hlength := ffLength_high_low hlong
  have hopt : c.opt.ae = T.ae := by rw [h.opt, T.aeB]
  have hrcv := @isotpRcv_head env _ _ _ _ _ hopt (by rw [h.opt]) hframe.toIsHead
  rw [htype, if_neg (by decide), if_neg (by decide), if_pos rfl] at hrcv
  have hstep : isotpStep c (env, .rxIndication f) = some (isotpRcv env f c).1 := if_pos hframe.len_le
  rw [hrcv] at hstep
  obtain ⟨memory, halloc⟩ := Option.isSome_iff_exists.mp henv.alloc
  obtain ⟨mem, hmem⟩ : ∃ mem, mem = c.rx.mem.release c.rx.con.snip := ⟨_, rfl⟩
  have hcontent := PktBuf.add_content mem (freshData memory T.msg.length)
  have hshape : (isotpRcvFf env c.opt f T.ae c.rx).1 = { c.rx with
      timer := some timeoutNAr
      con.state := .sendingFc
      con.snip := some mem.next
      con.idx := T.pos 0
      con.sn := 1
      con.bs := 0
      con.txHandle := env.send
      mem := (mem.add (freshData memory T.msg.length)).put mem.next
        (blit (freshData memory T.msg.length) 0 (T.msg.take (6 - T.ae)))
      out := c.rx.out ++ [fcFrame env T.optB T.fc T.ae fcCts] } := by
    unfold isotpRcvFf
    dsimp only
    rw [RxSide.reading_of_lt (r := { c.rx with con.state := .idle }) hframe.ae_lt,
      RxSide.reading_of_lt (r := { c.rx with con.state := .idle }) (show T.ae + 1 < f.len by omega),
      hframe.head, hframe.low]
    rw [hlength, if_neg (by omega), halloc, ← hmem]
    dsimp only
    rw [RxSide.store_eq (d := freshData memory T.msg.length) _ rfl hcontent
      (by rw [freshData_length]; dsimp only; omega) (by omega)]
    have hcount : f.len - (T.ae + ffPciSz) = 6 - T.ae := by omega
    have hbytes : f.bytes (T.ae + ffPciSz) (6 - T.ae) = T.msg.take (6 - T.ae) := hframe.data
    rw [hcount, hbytes, h.opt, if_neg T.answers, isotpSendFc_granted henv, h.fc, Nat.zero_add, hpos]
  rw [hshape] at hstep
  refine ⟨_, _, hstep, rfl, rfl, isFc_fcFrame env, rfl, ?_, rfl⟩
  refine ⟨h.opt, h.fc, h.handle, h.indications, ?_, rfl, rfl, fun _ => ?_, h.quiet⟩
  · refine ⟨mem.next, _, rfl, PktBuf.put_content .., ?_, ?_⟩
    · rw [blit_length (by rw [length_take, freshData_length]; omega), freshData_length]
    · have hcount : (T.msg.take (6 - T.ae)).length = 6 - T.ae := by
        rw [length_take]
        omega
      have := @take_blit T (freshData memory T.msg.length) 0 _ _ (zero_le _) rfl rfl hcount
      rw [Nat.zero_add] at this
      rw [hpos]
      exact this
  · exact (zero_mod _).symm

theorem isotpRcvCf_granted {n : Nat} {data : List Byte} (henv : Granted env)
    (hframe : T.IsCf j f) (hmore : T.pos j < T.msg.length) (hstate : r.con.state = .waitCf)
    (hsnip : r.con.snip = some n) (hdata : r.mem.content n = some data)
    (hlength : data.length = T.msg.length) (hidx : r.con.idx = T.pos j)
    (hsn : r.con.sn = cfNumber (j + 1)) (hfc : r.fc = T.fc) :
    ∃ data', data'.length = T.msg.length ∧ (data.take (T.pos j) = T.msg.take (T.pos j) →
        data'.take (T.pos (j + 1)) = T.msg.take (T.pos (j + 1))) ∧
      (isotpRcvCf env T.optB f T.ae r).1 =
        if T.msg.length ≤ T.pos (j + 1) then
          { r with
            timer := none, con.state := .idle, con.sn := cfNumber (j + 2)
            con.idx := T.pos (j + 1), con.snip := none, mem := r.mem.put n data'
            indications := r.indications ++ [n] }
        else if T.fc.bs = 0 then
          { r with
            timer := some timeoutNCr, con.sn := cfNumber (j + 2), con.idx := T.pos (j + 1)
            mem := r.mem.put n data' }
        else if r.con.bs + 1 < T.fc.bs then
          { r with
            timer := some timeoutNCr, con.sn := cfNumber (j + 2), con.idx := T.pos (j + 1)
            con.bs := r.con.bs + 1, mem := r.mem.put n data' }
        else
          { r with
            timer := some timeoutNAr, con.sn := cfNumber (j + 2), con.idx := T.pos (j + 1)
            con.bs := 0, con.txHandle := env.send, mem := r.mem.put n data'
            out := r.out ++ [fcFrame env T.optB T.fc T.ae fcCts] } := by
  have hfits := hframe.fits
  have hle := hframe.len_le
  have hnext := T.pos_succ j
  have hmax : canMaxDlen = 8 := rfl
  have hpci : nPciSz = 1 := rfl
  obtain ⟨htype, hnumber⟩ := pci_cf (j + 1)
  -- a padded frame carries more than what is left, any other just its share
  have hcount : min (f.len - (T.ae + nPciSz)) (data.length - r.con.idx) =
      min (7 - T.ae) (T.msg.length - T.pos j) := by
    omega
  obtain ⟨k, hk⟩ : ∃ k, k = min (7 - T.ae) (T.msg.length - T.pos j) := ⟨_, rfl⟩
  have hbytes := hframe.data
  rw [← hk] at hcount hbytes hnext
  have hlen : (f.bytes (T.ae + nPciSz) k).length = k := CanFrame.bytes_length ..
  have hblit : (blit data (T.pos j) (f.bytes (T.ae + nPciSz) k)).length = T.msg.length := by
    rw [blit_length (by omega), hlength]
  refine ⟨blit data (T.pos j) (f.bytes (T.ae + nPciSz) k), hblit, ?_, ?_⟩
  · intro htake
    rw [hnext]
    exact take_blit (by omega) htake hbytes hlen
  have hput := PktBuf.put_content r.mem n (blit data (T.pos j) (f.bytes (T.ae + nPciSz) k))
  unfold isotpRcvCf
  rw [if_neg (by rw [hstate]; exact fun h => h rfl)]
  dsimp only
  rw [RxSide.reading_of_lt (r := { r with timer := none }) hframe.ae_lt, hframe.head, hnumber]
  rw [if_neg (by rw [hsn]; exact fun h => h rfl), hsn, cfNumber_succ]
  rw [RxSide.storeUntilFull_put (r := { r with timer := none, con.sn := cfNumber (j + 2) })
    (d := data) hsnip hdata (.inr (by dsimp only; omega)) (by omega)]
  dsimp only
  rw [hcount, hidx, ← hnext, hsnip, PktBuf.deref_of_content hput, PktBuf.size_of_content hput, hblit]
  split
  · rw [isotpDispatchRx_granted henv rfl hput]
  · rw [if_neg T.answers, hfc]
    split
    · rfl
    · split
      · rfl
      · rw [isotpSendFc_granted henv]

/-- A consecutive frame is received: the last one, one inside a block, or the last of a block. -/
theorem step_cf (h : T.RxAt c j) (hstate : c.rx.con.state = .waitCf) (hframe : T.IsCf j f)
    (hmore : T.pos j < T.msg.length) (henv : Granted env) :
    ∃ c', isotpStep c (env, .rxIndication f) = some c' ∧ c'.tx = c.tx ∧
      (T.msg.length ≤ T.pos (j + 1) → T.RxDone c' ∧ c'.rx.out = c.rx.out) ∧
      (T.pos (j + 1) < T.msg.length → T.RxAt c' (j + 1) ∧ c'.rx.con.state = .waitCf) ∧
      (T.pos (j + 1) < T.msg.length → ¬T.BlockEnd (j + 1) → c'.rx.out = c.rx.out) ∧
      (T.pos (j + 1) < T.msg.length → T.BlockEnd (j + 1) → c'.rx.con.txHandle = env.send ∧
        ∃ fc, c'.rx.out = c.rx.out ++ [fc] ∧ T.IsFc fc) := by
  have htype := (pci_cf (j + 1)).1
  have hopt : c.opt.ae = T.ae := by rw [h.opt, T.aeB]
  have hrcv := @isotpRcv_head env _ _ _ _ _ hopt (by rw [h.opt]) hframe.toIsHead
  rw [htype, if_neg (by decide), if_neg (by decide), if_neg (by decide), if_pos rfl, h.opt] at hrcv
  have hstep : isotpStep c (env, .rxIndication f) = some (isotpRcv env f c).1 := if_pos hframe.len_le
  obtain ⟨n, data, hsnip, hdata, hlength, htake⟩ := h.content
  obtain ⟨data', hlength', htake', hshape⟩ := isotpRcvCf_granted henv hframe hmore hstate hsnip hdata
    hlength h.idx h.sn h.fc
  have hcontent : ∃ n' d, c.rx.con.snip = some n' ∧ (c.rx.mem.put n data').content n' = some d ∧
      d.length = T.msg.length ∧ d.take (T.pos (j + 1)) = T.msg.take (T.pos (j + 1)) :=
    ⟨n, data', hsnip, PktBuf.put_content .., hlength', htake' htake⟩
  rw [hrcv, hshape] at hstep
  refine ⟨_, hstep, rfl, ?_⟩
  by_cases hlast : T.msg.length ≤ T.pos (j + 1)
  · rw [if_pos hlast]
    refine ⟨fun _ => ⟨⟨rfl, rfl, ⟨n, ?_, ?_⟩, h.quiet⟩, rfl⟩, fun hlt => absurd hlast (by omega),
      fun hlt => absurd hlast (by omega), fun hlt => absurd hlast (by omega)⟩
    · rw [h.indications]
    · have hpos := T.pos_le (j + 1)
      have hfull := htake' htake
      rw [take_of_length_le (by omega), take_of_length_le (by omega)] at hfull
      rw [← hfull]
      exact PktBuf.put_content ..
  rw [if_neg hlast]
  by_cases hzero : T.fc.bs = 0
  · rw [if_pos hzero]
    refine ⟨fun hle => absurd hle hlast, fun _ => ⟨?_, hstate⟩, fun _ _ => rfl,
      fun _ hend => absurd hzero hend.1⟩
    exact ⟨rfl, h.fc, h.handle, h.indications, hcontent, rfl, rfl, fun hne => absurd hzero hne,
      h.quiet⟩
  rw [if_neg hzero]
  -- the counter of the receiving half is the number of the frame in its block
  have hbs := h.bs hzero
  have hnat : T.fc.bs.toNat ≠ 0 := fun h => hzero (eq_of_toNat_eq h)
  have hlt := mod_lt j (show 0 < T.fc.bs.toNat by omega)
  have hinc : (c.rx.con.bs + 1).toNat = j % T.fc.bs.toNat + 1 := by
    rw [toNat_add, hbs]
    exact mod_eq_of_lt (by show j % T.fc.bs.toNat + 1 < 256; omega)
  have hcount := block_count (succ_ne_zero j) (show 0 < T.fc.bs.toNat by omega)
  have hinside : c.rx.con.bs + 1 < T.fc.bs ↔ (j + 1) % T.fc.bs.toNat ≠ 0 := by
    rw [lt_def, hinc, ← not_le]
    exact not_congr hcount.1
  by_cases hend : (j + 1) % T.fc.bs.toNat = 0
  · rw [if_neg (fun h => hinside.mp h hend)]
    refine ⟨fun hle => absurd hle hlast, fun _ => ⟨?_, hstate⟩,
      fun _ hno => absurd ⟨hzero, hend⟩ hno, fun _ _ => ⟨rfl, _, rfl, isFc_fcFrame env⟩⟩
    exact ⟨rfl, h.fc, h.handle, h.indications, hcontent, rfl, rfl, fun _ => hend.symm, h.quiet⟩
  · rw [if_pos (hinside.mpr hend)]
    refine ⟨fun hle => absurd hle hlast, fun _ => ⟨?_, hstate⟩, fun _ _ => rfl,
      fun _ h => absurd h.2 hend⟩
    exact ⟨rfl, h.fc, h.handle, h.indications, hcontent, rfl, rfl,
      fun _ => hinc.trans (hcount.2 hend), h.quiet⟩

theorem step_fcConf {h : Int} (hat : T.RxAt c j) (hhandle : c.rx.con.txHandle = h) (hpos : 1 ≤ h)
    (hstate : c.rx.con.state = .sendingFc ∨ c.rx.con.state = .waitCf) :
    ∃ c', isotpStep c (env, .txConfirmation h) = some c' ∧ c'.tx = c.tx ∧ c'.rx.out = c.rx.out ∧
      T.RxAt c' j ∧ c'.rx.con.state = .waitCf := by
  have hne : c.tx.con.txHandle ≠ h := by
    rw [hat.handle]
    omega
  have hstep : isotpStep c (env, .txConfirmation h) = some { c with rx := isotpRxTxConf c.rx } := by
    show (if h < 1 then none else _) = _
    rw [if_neg (by omega), if_neg hne, if_pos hhandle]
  obtain ⟨timer, hshape⟩ : ∃ timer, isotpRxTxConf c.rx =
      { c.rx with timer := timer, con.txHandle := 0, con.state := .waitCf } := by
    unfold isotpRxTxConf
    dsimp only
    cases hstate with
    | inl hfc =>
      rw [hfc]
      exact ⟨_, rfl⟩
    | inr hwait =>
      rw [hwait]
      exact ⟨none, rfl⟩
  refine ⟨_, hstep, rfl, ?_⟩
  rw [hshape]
  exact ⟨rfl, ⟨hat.opt, hat.fc, hat.handle, hat.indications, hat.content, hat.idx, hat.sn, hat.bs, hat.quiet⟩,
    rfl⟩

end Transfer

end Riot.Can
