import Riot.Can.Copying
import Mathlib.Data.List.Nodup

/-!
# What the sending half owes

Each `isotp_send` that returns a length has one snip, which is released when the
transfer ends, with one notification. The transfer is only reserved when the
thread takes the message that `isotp_send` posts; a flow control frame that is too
short ends it without a word; and the flag that asks for no confirmation does not
fit the field it is stored in. `TxOk` excludes just this; over runs whose events
meet it the accounts are in order, a second `isotp_send` finds the channel busy,
and a transfer can always be brought to its end.
-/

namespace Riot.Can

open Riot.Lib List Nat Option

/-- A transfer is under way, or the message that starts it is in the queue. -/
def TxSide.Pending (t : TxSide) : Prop := 0 < t.posted ∨ t.con.state ≠ .idle

instance (t : TxSide) : Decidable t.Pending := inferInstanceAs (Decidable (_ ∨ _))

/-! ## The ledger -/

/-- Each transfer has its own snip; only that of the transfer under way is live. A transfer that
has ended has one notification, or none where none was asked for. -/
structure Ledger (snip : Option Nat) (mem : PktBuf) (sends : List (Nat × Bool))
    (notes : List (Option Nat × NoteType)) : Prop where
  holds : mem.Holds {n | snip = some n}
  current : ∀ n, snip = some n → (n, false) ∈ sends
  below : ∀ x ∈ sends, x.1 < mem.next
  nodup : (sends.map Prod.fst).Nodup
  noted : ∀ x ∈ sends, notes.countP (fun note => note.1 = some x.1) =
    if snip = some x.1 ∨ x.2 then 0 else 1
  source : ∀ note ∈ notes, ∃ x ∈ sends, note.1 = some x.1

namespace Ledger

variable {n : Nat} {mem : PktBuf} {sends : List (Nat × Bool)}
  {notes : List (Option Nat × NoteType)}

theorem empty : Ledger none .empty [] [] where
  holds := by
    have hset : {n | (none : Option Nat) = some n} = ∅ := by
      ext n
      simp
    rw [hset]
    exact PktBuf.empty_holds
  current := by simp
  below := by simp
  nodup := nodup_nil
  noted := by simp
  source := by simp

theorem content (h : Ledger (some n) mem sends notes) : ∃ data, mem.content n = some data :=
  h.holds.content rfl

theorem start (h : Ledger none mem sends notes) (data : List Byte) :
    Ledger (some mem.next) (mem.add data) (sends ++ [(mem.next, false)]) notes where
  holds := by
    have hset : {n | some mem.next = some n} = insert mem.next {n | (none : Option Nat) = some n} := by
      ext n
      simp [eq_comm]
    rw [hset]
    exact h.holds.add data
  current := by
    intro n hn
    cases hn
    simp
  below := by
    intro x hx
    show x.1 < mem.next + 1
    cases mem_append.mp hx with
    | inl hx =>
      have := h.below x hx
      omega
    | inr hx =>
      obtain rfl := mem_singleton.mp hx
      exact lt_succ_self _
  nodup := by
    rw [map_append, nodup_append]
    refine ⟨h.nodup, by simp, ?_⟩
    intro a ha b hb
    obtain ⟨x, hx, rfl⟩ := mem_map.mp ha
    obtain rfl := mem_singleton.mp hb
    exact Nat.ne_of_lt (h.below x hx)
  noted := by
    intro x hx
    cases mem_append.mp hx with
    | inl hx =>
      have hne : mem.next ≠ x.1 := ne_of_gt (h.below x hx)
      rw [h.noted x hx]
      simp [hne]
    | inr hx =>
      obtain rfl := mem_singleton.mp hx
      -- no notification names a snip that is only now allocated
      rw [if_pos (.inl rfl), countP_eq_zero]
      intro note hnote heq
      obtain ⟨y, hy, hsource⟩ := h.source note hnote
      have hy' := h.below y hy
      rw [hsource] at heq
      have : y.1 = mem.next := by simpa using heq
      omega
  source := by
    intro note hnote
    obtain ⟨x, hx, hsource⟩ := h.source note hnote
    exact ⟨x, mem_append_left _ hx, hsource⟩

/-- The transfer under way ends: its snip is released and one notification sent. -/
theorem finish (h : Ledger (some n) mem sends notes) (type : NoteType) :
    Ledger none (mem.release (some n)) sends (notes ++ [(some n, type)]) where
  holds := by
    have hset : {m | (none : Option Nat) = some m} = {m | some n = some m} \ {n} := by
      ext m
      simp
    rw [hset]
    exact h.holds.release rfl
  current := by simp
  below := by
    intro x hx
    have hnext : (mem.release (some n)).next = mem.next := by
      unfold PktBuf.release
      dsimp only
      split
      · rfl
      · rfl
    rw [hnext]
    exact h.below x hx
  nodup := h.nodup
  noted := by
    intro x hx
    rw [countP_append, h.noted x hx]
    by_cases hn : n = x.1
    · have hx' : x = (n, false) := inj_on_of_nodup_map h.nodup hx (h.current n rfl) hn.symm
      subst hx'
      simp
    · simp [hn]
  source := by
    intro note hnote
    cases mem_append.mp hnote with
    | inl hnote => exact h.source note hnote
    | inr hnote =>
      obtain rfl := mem_singleton.mp hnote
      exact ⟨(n, false), h.current n rfl, rfl⟩

end Ledger

/-- The accounts of the sending half are in order. At most one transfer is pending, and it alone
has a snip; while the thread waits for something, the timer runs or its message is in the queue. -/
structure TxSide.Accounted (t : TxSide) : Prop where
  ledger : Ledger t.con.snip t.mem t.sends t.notes
  snip_iff : t.con.snip.isSome ↔ t.Pending
  posted_le : t.posted ≤ 1
  posted_idle : 0 < t.posted → t.con.state = .idle ∧ t.con.idx = 0
  sending : t.con.state ≠ .waitCf ∧ t.con.state ≠ .sendingFc
  armed : t.con.state ≠ .idle → t.timer.isSome ∨ 0 < t.fired
  size_le : t.mem.size t.con.snip ≤ maxMsgLength
  idx_le : t.con.state ≠ .idle → t.con.idx ≤ t.mem.size t.con.snip
  idx_lt : t.con.state = .sendingFf ∨ t.con.state = .waitFc ∨ t.con.state = .sendingNextCf →
    t.con.idx < t.mem.size t.con.snip
  handle : t.con.state = .waitFc ∨ t.con.state = .sendingNextCf → t.con.txHandle = 0

/-! ## The handlers of the sending half -/

section Handlers

variable {env : Env} {opt : Options} {frame : CanFrame} {ae n : Nat} {t : TxSide} {err : Int}

theorem flags_txDontWait (flags : BitVec 16) : flags.setWidth 32 &&& txDontWait = 0 := by
  apply BitVec.eq_of_getLsbD_eq
  intro i hi
  rw [BitVec.getLsbD_and, BitVec.getLsbD_setWidth]
  by_cases h : i < 16
  · have hmask : ∀ j < 16, txDontWait.getLsbD j = false := by decide
    rw [hmask i h, Bool.and_false]
    exact BitVec.getLsbD_zero.symm
  · rw [BitVec.getLsbD_of_ge flags i (by omega)]
    simp

/-- A transfer whose frames are sent: `n` is its snip and `data` the message. -/
structure TxSide.Busy (t : TxSide) (n : Nat) (data : List Byte) : Prop where
  snip : t.con.snip = some n
  content : t.mem.content n = some data
  ledger : Ledger (some n) t.mem t.sends t.notes
  posted : t.posted = 0
  size_le : data.length ≤ maxMsgLength
  idx_le : t.con.idx ≤ data.length

variable {data : List Byte}

theorem TxSide.Busy.deref (h : t.Busy n data) : t.mem.deref t.con.snip = t.mem := by
  rw [h.snip]
  exact PktBuf.deref_of_content h.content

theorem TxSide.Busy.size (h : t.Busy n data) : t.mem.size t.con.snip = data.length := by
  rw [h.snip]
  exact PktBuf.size_of_content h.content

theorem isotpDispatchTx_accounted (h : t.Busy n data)
    (hstate : t.con.state = .idle) (henv : env.noteTaken = true) :
    (isotpDispatchTx env opt err t).1.Accounted := by
  unfold isotpDispatchTx
  rw [if_neg (by rw [flags_txDontWait]; exact fun h => h rfl), if_pos henv, h.snip]
  refine ⟨h.ledger.finish _, ?_, ?_, ?_, ?_, ?_, ?_, ?_, ?_, ?_⟩
  · refine iff_of_false (by simp) ?_
    intro hpending
    have := h.posted
    cases hpending with
    | inl hposted => exact absurd hposted (by dsimp only; omega)
    | inr hbusy => exact hbusy hstate
  · have := h.posted
    show t.posted ≤ 1
    omega
  · intro hposted
    have := h.posted
    exact absurd hposted (by dsimp only; omega)
  · rw [hstate]
    decide
  · exact fun hbusy => absurd hstate hbusy
  · exact zero_le _
  · exact fun hbusy => absurd hstate hbusy
  · rw [hstate]
    exact fun h => absurd h (by decide)
  · rw [hstate]
    exact fun h => absurd h (by decide)

theorem TxSide.Busy.accounted (h : t.Busy n data) (hidle : t.con.state ≠ .idle)
    (hsending : t.con.state ≠ .waitCf ∧ t.con.state ≠ .sendingFc)
    (harmed : t.timer.isSome ∨ 0 < t.fired)
    (hlt : t.con.state = .sendingFf ∨ t.con.state = .waitFc ∨ t.con.state = .sendingNextCf →
      t.con.idx < data.length)
    (hhandle : t.con.state = .waitFc ∨ t.con.state = .sendingNextCf → t.con.txHandle = 0) :
    t.Accounted where
  ledger := h.snip ▸ h.ledger
  snip_iff := iff_of_true (by rw [h.snip]; rfl) (.inr hidle)
  posted_le := by
    have := h.posted
    omega
  posted_idle := by
    intro hposted
    have := h.posted
    omega
  sending := hsending
  armed := fun _ => harmed
  size_le := h.size.symm ▸ h.size_le
  idx_le := fun _ => h.size.symm ▸ h.idx_le
  idx_lt := h.size.symm ▸ hlt
  handle := hhandle

theorem TxSide.Accounted.busy (h : t.Accounted) (hstate : t.con.state ≠ .idle) : ∃ n data, t.Busy n data := by
  obtain ⟨n, hsnip⟩ := isSome_iff_exists.mp (h.snip_iff.mpr (.inr hstate))
  have hledger : Ledger (some n) t.mem t.sends t.notes := hsnip ▸ h.ledger
  obtain ⟨data, hdata⟩ := hledger.content
  have hposted : ¬0 < t.posted := fun hposted => hstate (h.posted_idle hposted).1
  have hsize := h.size_le
  have hidx := h.idx_le hstate
  rw [hsnip, PktBuf.size_of_content hdata] at hsize hidx
  exact ⟨n, data, hsnip, hdata, hledger, by omega, hsize, hidx⟩

theorem isotpTxSend_accounted (h : t.Busy n data)
    (hstate : t.con.state = .sendingSf ∨ t.con.state = .sendingFf ∨ t.con.state = .sendingCf)
    (hlt : t.con.state = .sendingFf → t.con.idx < data.length) (henv : env.noteTaken = true) :
    (isotpTxSend env opt frame t).1.Accounted := by
  unfold isotpTxSend
  split
  · have hfailed : TxSide.Busy { t with
        timer := none, con.txHandle := env.send, con.state := .idle } n data :=
      ⟨h.snip, h.content, h.ledger, h.posted, h.size_le, h.idx_le⟩
    exact isotpDispatchTx_accounted hfailed rfl henv
  · have hbusy : TxSide.Busy { t with
        timer := some timeoutNAs, con.txHandle := env.send, out := t.out ++ [frame] } n data :=
      ⟨h.snip, h.content, h.ledger, h.posted, h.size_le, h.idx_le⟩
    refine hbusy.accounted ?_ ?_ (.inl rfl) ?_ ?_
    · grind
    · grind
    · grind
    · grind

theorem isotpFillDataframe_fst (h : t.Busy n data) : (isotpFillDataframe opt frame ae t).1 =
      { t with con.idx := t.con.idx + min (canMaxDlen - (nPciSz + ae)) (data.length - t.con.idx) } := by
  have hidx := h.idx_le
  have hsize := h.size_le
  have hwrap : (data.length + 2 ^ 32 - t.con.idx) % 2 ^ 32 = data.length - t.con.idx := by
    have : maxMsgLength = 4095 := rfl
    omega
  unfold isotpFillDataframe
  dsimp only
  rw [h.deref, h.size, hwrap, TxSide.load_eq (d := data) _ h.snip h.content (by omega)]

theorem isotpCreateFf_fst (h : t.Busy n data)
    (hroom : t.con.idx + (canMaxDlen - (ae + ffPciSz)) ≤ data.length) :
    (isotpCreateFf opt frame ae t).1 =
      { t with con.idx := t.con.idx + (canMaxDlen - (ae + ffPciSz)), con.sn := 1 } := by
  unfold isotpCreateFf
  dsimp only
  rw [h.deref, TxSide.load_eq (d := data) _ h.snip h.content hroom]

theorem ae_le (opt : Options) : opt.ae ≤ 1 := by
  unfold Options.ae
  split
  · exact le_refl 1
  · exact zero_le 1

theorem isotpSendSfFf_accounted (h : t.Accounted) (hposted : 0 < t.posted) (henv : env.noteTaken = true) :
    (isotpSendSfFf env opt { t with posted := t.posted - 1 }).1.Accounted := by
  obtain ⟨n, hsnip⟩ := isSome_iff_exists.mp (h.snip_iff.mpr (.inl hposted))
  have hledger : Ledger (some n) t.mem t.sends t.notes := hsnip ▸ h.ledger
  obtain ⟨data, hdata⟩ := hledger.content
  have hsize := h.size_le
  rw [hsnip, PktBuf.size_of_content hdata] at hsize
  have hidx := (h.posted_idle hposted).2
  have hone := h.posted_le
  obtain ⟨u, hu⟩ : ∃ u, u = { t with posted := t.posted - 1 } := ⟨_, rfl⟩
  have hbusy : u.Busy n data := by
    subst hu
    exact ⟨hsnip, hdata, hledger, by dsimp only; omega, hsize, by dsimp only; omega⟩
  have hstart : u.con.idx = 0 := by rw [hu]; exact hidx
  have hdata' := hbusy.content
  rw [← hu]
  unfold isotpSendSfFf
  dsimp only
  rw [hbusy.deref, hbusy.size]
  split
  · rename_i hfits
    have hpci : nPciSz = 1 := rfl
    rw [isotpFillDataframe_fst hbusy]
    have hsent : TxSide.Busy { u with
        con.idx := u.con.idx + min (canMaxDlen - (nPciSz + opt.ae)) (data.length - u.con.idx)
        con.state := .sendingSf } n data :=
      ⟨hbusy.snip, hdata', hbusy.ledger, hbusy.posted, hsize, by dsimp only; omega⟩
    exact isotpTxSend_accounted hsent (.inl rfl) nofun henv
  · have hsf : sfPciSz = 1 := rfl
    have hff : ffPciSz = 2 := rfl
    have hbusy' : TxSide.Busy { u with con.state := .sendingFf } n data :=
      ⟨hbusy.snip, hdata', hbusy.ledger, hbusy.posted, hsize, hbusy.idx_le⟩
    rw [isotpCreateFf_fst hbusy' (by dsimp only; omega)]
    have hsent : TxSide.Busy { u with
        con.state := .sendingFf
        con.idx := u.con.idx + (canMaxDlen - (opt.ae + ffPciSz))
        con.sn := 1 } n data :=
      ⟨hbusy.snip, hdata', hbusy.ledger, hbusy.posted, hsize, by dsimp only; omega⟩
    exact isotpTxSend_accounted hsent (.inr (.inl rfl)) (fun _ => by dsimp only; omega) henv

theorem isotpTxTimeoutTask_accounted (h : t.Accounted) (henv : env.noteTaken = true) :
    (isotpTxTimeoutTask env opt { t with fired := t.fired - 1 }).Accounted := by
  -- every state that waits for something is left, or the timer is set again
  have hend : t.con.state ≠ .idle → (isotpDispatchTx env opt etimedout
        { t with fired := t.fired - 1, con.state := .idle }).1.Accounted := by
    intro hstate
    obtain ⟨n, data, hbusy⟩ := h.busy hstate
    have hended : TxSide.Busy { t with fired := t.fired - 1, con.state := .idle } n data :=
      ⟨hbusy.snip, hbusy.content, hbusy.ledger, hbusy.posted, hbusy.size_le, hbusy.idx_le⟩
    exact isotpDispatchTx_accounted hended rfl henv
  unfold isotpTxTimeoutTask
  dsimp only
  split
  · rename_i hstate
    exact hend (by rw [hstate]; decide)
  · rename_i hstate
    obtain ⟨n, data, hbusy⟩ := h.busy (by rw [hstate]; decide)
    have hbusy' : TxSide.Busy { t with fired := t.fired - 1 } n data :=
      ⟨hbusy.snip, hbusy.content, hbusy.ledger, hbusy.posted, hbusy.size_le, hbusy.idx_le⟩
    have hidx := hbusy.idx_le
    rw [isotpFillDataframe_fst hbusy']
    have hsent : TxSide.Busy { t with
        fired := t.fired - 1
        con.idx := t.con.idx + min (canMaxDlen - (nPciSz + opt.ae)) (data.length - t.con.idx)
        con.sn := (t.con.sn + 1) % 16
        con.bs := t.con.bs + 1
        con.state := .sendingCf } n data :=
      ⟨hbusy.snip, hbusy.content, hbusy.ledger, hbusy.posted, hbusy.size_le, by dsimp only; omega⟩
    exact isotpTxSend_accounted hsent (.inr (.inr rfl)) nofun henv
  · rename_i hstate
    exact hend (by rw [hstate]; decide)
  · rename_i hstate
    exact hend (by rw [hstate]; decide)
  · rename_i hstate
    exact hend (by rw [hstate]; decide)
  · rename_i hwait hnext hcf hff hsf
    have hidle : t.con.state = .idle := by
      have := h.sending
      cases hstate : t.con.state with
      | idle => rfl
      | waitFc => exact absurd hstate hwait
      | waitCf => exact absurd hstate this.1
      | sendingSf => exact absurd hstate hsf
      | sendingFf => exact absurd hstate hff
      | sendingCf => exact absurd hstate hcf
      | sendingFc => exact absurd hstate this.2
      | sendingNextCf => exact absurd hstate hnext
    exact ⟨h.ledger, h.snip_iff, h.posted_le, h.posted_idle, h.sending,
      fun hbusy => absurd hidle hbusy, h.size_le, h.idx_le, h.idx_lt, h.handle⟩

theorem isotpTxTxConf_accounted (h : t.Accounted) (hhandle : t.con.txHandle ≠ 0)
    (henv : env.noteTaken = true) : (isotpTxTxConf env opt t).Accounted := by
  have hconf : ∀ {n : Nat} {data : List Byte} {state : TpState} {timer : Option Nat}, t.Busy n data →
      TxSide.Busy { t with timer := timer, con.txHandle := 0, con.state := state } n data := by
    intro n data state timer hbusy
    exact ⟨hbusy.snip, hbusy.content, hbusy.ledger, hbusy.posted, hbusy.size_le, hbusy.idx_le⟩
  unfold isotpTxTxConf
  dsimp only
  split
  · rename_i hstate
    obtain ⟨n, data, hbusy⟩ := h.busy (by rw [hstate]; decide)
    exact isotpDispatchTx_accounted (hconf hbusy) rfl henv
  · rename_i hstate
    obtain ⟨n, data, hbusy⟩ := h.busy (by rw [hstate]; decide)
    have hlt := h.idx_lt (.inl hstate)
    rw [hbusy.size] at hlt
    exact (hconf hbusy).accounted nofun ⟨nofun, nofun⟩
      (.inl rfl) (fun _ => hlt) (fun _ => rfl)
  · rename_i hstate
    obtain ⟨n, data, hbusy⟩ := h.busy (by rw [hstate]; decide)
    rw [hbusy.deref, hbusy.size]
    split
    · exact isotpDispatchTx_accounted (hconf hbusy) rfl henv
    rename_i hmore
    have hlt : t.con.idx < data.length := Nat.lt_of_not_le hmore
    split
    · exact (hconf hbusy).accounted nofun ⟨nofun, nofun⟩
        (.inl rfl) (fun _ => hlt) (fun _ => rfl)
    · exact (hconf hbusy).accounted nofun ⟨nofun, nofun⟩
        (.inl rfl) (fun _ => hlt) (fun _ => rfl)
  · rename_i hsf hff hcf
    -- no handle is remembered in a state in which no frame is with the driver
    have hidle : t.con.state = .idle := by
      have hkinds := h.sending
      have hnone := h.handle
      cases hstate : t.con.state with
      | idle => rfl
      | waitFc => exact absurd (hnone (.inl hstate)) hhandle
      | waitCf => exact absurd hstate hkinds.1
      | sendingSf => exact absurd hstate hsf
      | sendingFf => exact absurd hstate hff
      | sendingCf => exact absurd hstate hcf
      | sendingFc => exact absurd hstate hkinds.2
      | sendingNextCf => exact absurd (hnone (.inr hstate)) hhandle
    exact ⟨h.ledger, h.snip_iff, h.posted_le, h.posted_idle, h.sending,
      fun hbusy => absurd hidle hbusy, h.size_le, h.idx_le, h.idx_lt, fun _ => rfl⟩

theorem isotpRcvFc_accounted (h : t.Accounted) (henv : env.noteTaken = true)
    (hlen : t.con.state = .waitFc → ae + fcContentSz ≤ frame.len) :
    (isotpRcvFc env opt frame ae t).1.Accounted := by
  unfold isotpRcvFc
  dsimp only
  split
  · exact h
  rename_i hstate
  have hwait : t.con.state = .waitFc := Decidable.not_not.mp hstate
  have hlong := hlen hwait
  have hpci : fcContentSz = 3 := rfl
  rw [if_neg (by omega)]
  rw [TxSide.reading_of_lt (t := { t with timer := none }) (show ae + 1 < frame.len by omega),
    TxSide.reading_of_lt (t := { t with timer := none }) (show ae + 2 < frame.len by omega),
    TxSide.reading_of_lt (t := { t with timer := none }) (show ae < frame.len by omega)]
  obtain ⟨n, data, hbusy⟩ := h.busy (by rw [hwait]; decide)
  have hlt := h.idx_lt (.inr (.inl hwait))
  have hnone := h.handle (.inl hwait)
  rw [hbusy.size] at hlt
  have hkept : ∀ {bs : Byte} {state : TpState} {timer : Option Nat} {fc : FcOptions} {gap : Nat}
      {wft : Byte}, TxSide.Busy { t with
        timer := timer, fc := fc, gap := gap, wft := wft, con.bs := bs, con.state := state } n data := by
    intro bs state timer fc gap wft
    exact ⟨hbusy.snip, hbusy.content, hbusy.ledger, hbusy.posted, hbusy.size_le, hbusy.idx_le⟩
  split
  · exact hkept.accounted (fun h => nomatch h) ⟨(fun h => nomatch h), (fun h => nomatch h)⟩
      (.inl rfl) (fun _ => hlt) (fun _ => hnone)
  split
  · split
    · exact isotpDispatchTx_accounted hkept rfl henv
    · exact hkept.accounted (by dsimp only; rw [hwait]; exact fun h => nomatch h)
        (by dsimp only; rw [hwait]; exact ⟨(fun h => nomatch h), (fun h => nomatch h)⟩)
        (.inl rfl) (fun _ => hlt) (fun _ => hnone)
  · exact isotpDispatchTx_accounted hkept rfl henv

theorem isotpSend_accounted {buf : List Byte} {flags : BitVec 32} {c : Isotp} (h : c.tx.Accounted)
    (hlen : buf.length ≤ maxMsgLength)
    (hok : c.tx.con.state = .idle → c.tx.posted = 0 ∧ (env.alloc.isSome → flags &&& txDontWait = 0)) :
    (isotpSend env buf flags c).1.tx.Accounted := by
  unfold isotpSend
  dsimp only
  split
  · exact h
  rename_i hstate
  have hidle : c.tx.con.state = .idle := Decidable.not_not.mp hstate
  obtain ⟨hposted, hwait⟩ := hok hidle
  split
  · exact h
  rename_i memory halloc
  have hflags := hwait (by rw [halloc]; rfl)
  have hnone : c.tx.con.snip = none := by
    cases hsnip : c.tx.con.snip with
    | none => rfl
    | some n =>
      have hpending := h.snip_iff.mp (by rw [hsnip]; rfl)
      cases hpending with
      | inl hpos => omega
      | inr hbusy => exact absurd hidle hbusy
  have hledger : Ledger none c.tx.mem c.tx.sends c.tx.notes := hnone ▸ h.ledger
  have hsize : (c.tx.mem.add buf).size (some c.tx.mem.next) = buf.length :=
    PktBuf.size_of_content (PktBuf.add_content ..)
  rw [hflags]
  exact {
    ledger := hledger.start buf
    snip_iff := iff_of_true rfl (.inl (by dsimp only; omega))
    posted_le := by dsimp only; omega
    posted_idle := fun _ => ⟨hidle, rfl⟩
    sending := h.sending
    armed := fun hbusy => absurd hidle hbusy
    size_le := hsize.symm ▸ hlen
    idx_le := fun hbusy => absurd hidle hbusy
    idx_lt := by
      rw [hidle]
      exact fun h => absurd h (by decide)
    handle := by
      rw [hidle]
      exact fun h => absurd h (by decide) }

end Handlers

/-! ## Runs -/

/-- The frame is taken for a flow control frame. -/
def FcReceived (opt : Options) (frame : CanFrame) : Prop :=
  (opt.ae ≠ 0 → frame.byte 0 = opt.rxExtAddress) ∧ frame.byte opt.ae &&& 0xf0 = nPciFc

/-- The event does no harm to the sending half: `isotp_send` is not called while the message of an
earlier call is in the queue, and a call that is served does not ask for silence; where a flow
control frame is waited for, one that comes has all its bytes; the upper layer takes the
notification. -/
def TxOk (c : Isotp) : Env × Event → Prop
  | (env, .send _ flags) =>
    c.tx.con.state = .idle → c.tx.posted = 0 ∧ (env.alloc.isSome → flags &&& txDontWait = 0)
  | (env, .rxIndication frame) =>
    env.noteTaken = true ∧
      (c.tx.con.state = .waitFc → FcReceived c.opt frame → c.opt.ae + fcContentSz ≤ frame.len)
  | (env, .sendFrame) | (env, .txConfirmation _) | (env, .txTimeout) => env.noteTaken = true
  | (_, .freeRx _) | (_, .txTimer) | (_, .rxTimeout) => True

instance (opt : Options) (frame : CanFrame) : Decidable (FcReceived opt frame) :=
  inferInstanceAs (Decidable ((_ → _) ∧ _))

instance (c : Isotp) : ∀ e, Decidable (TxOk c e)
  | (_, .send _ _) => inferInstanceAs (Decidable (_ → _ ∧ (_ → _)))
  | (_, .rxIndication _) => inferInstanceAs (Decidable (_ ∧ (_ → _ → _)))
  | (env, .sendFrame) | (env, .txConfirmation _) | (env, .txTimeout) =>
    inferInstanceAs (Decidable (env.noteTaken = true))
  | (_, .freeRx _) | (_, .txTimer) | (_, .rxTimeout) => inferInstanceAs (Decidable True)

/-- While a transfer is pending, `isotp_send` says so and changes nothing. -/
def SendRefused (c : Isotp) : Env × Event → Prop
  | (env, .send buf flags) => c.tx.Pending → isotpSend env buf flags c = (c, -ebusy)
  | _ => True

theorem isotpRcv_tx (env : Env) (frame : CanFrame) (c : Isotp) : (isotpRcv env frame c).1.tx = c.tx ∨
      FcReceived c.opt frame ∧
        (isotpRcv env frame c).1.tx = (isotpRcvFc env c.opt frame c.opt.ae c.tx).1 := by
  obtain ⟨d, hd⟩ : ∃ d, d = if c.opt.ae ≠ 0 then { c with rx := c.rx.reading frame 0 } else c :=
    ⟨_, rfl⟩
  have hsame : d.opt = c.opt ∧ d.tx = c.tx := by
    rw [hd]
    split
    · exact ⟨rfl, rfl⟩
    · exact ⟨rfl, rfl⟩
  unfold isotpRcv
  dsimp only
  rw [← hd, hsame.1, hsame.2]
  split
  · exact .inl hsame.2
  split
  · rename_i htype
    exact .inr ⟨⟨by tauto, htype⟩, rfl⟩
  split
  · exact .inl rfl
  split
  · exact .inl rfl
  split
  · exact .inl rfl
  · exact .inl rfl

/-- **What one event keeps.** -/
theorem isotpStep_accounted {c c' : Isotp} {e : Env × Event} (h : c.tx.Accounted) (hok : TxOk c e)
    (hstep : isotpStep c e = some c') : c'.tx.Accounted := by
  obtain ⟨env, event⟩ := e
  cases event with
  | send buf flags =>
    obtain ⟨hlen, hc⟩ := ite_none_right_eq_some.mp hstep
    cases hc
    exact isotpSend_accounted h hlen.2 hok
  | freeRx snip =>
    obtain ⟨-, hc⟩ := ite_none_right_eq_some.mp hstep
    cases hc
    exact h
  | txTimer =>
    obtain ⟨-, hc⟩ := ite_none_right_eq_some.mp hstep
    cases hc
    exact ⟨h.ledger, h.snip_iff, h.posted_le, h.posted_idle, h.sending,
      fun _ => .inr (succ_pos _), h.size_le, h.idx_le, h.idx_lt, h.handle⟩
  | sendFrame =>
    obtain ⟨hposted, hc⟩ := ite_none_right_eq_some.mp hstep
    cases hc
    exact isotpSendSfFf_accounted h hposted hok
  | rxIndication frame =>
    obtain ⟨-, hc⟩ := ite_none_right_eq_some.mp hstep
    cases hc
    cases isotpRcv_tx env frame c with
    | inl hsame => exact hsame ▸ h
    | inr hfc => exact hfc.2 ▸ isotpRcvFc_accounted h hok.1 (fun hwait => hok.2 hwait hfc.1)
  | txConfirmation handle =>
    simp only [isotpStep] at hstep
    split at hstep
    · exact absurd hstep (by simp)
    split at hstep
    · cases hstep
      exact isotpTxTxConf_accounted h (by omega) hok
    split at hstep
    · cases hstep
      exact h
    · cases hstep
      exact h
  | rxTimeout =>
    cases hstep
    exact h
  | txTimeout =>
    obtain ⟨-, hc⟩ := ite_none_right_eq_some.mp hstep
    cases hc
    exact isotpTxTimeoutTask_accounted h hok

theorem isotpBind_accounted (opt : Options) (fcOptions : Option FcOptions) :
    (isotpBind opt fcOptions).tx.Accounted where
  ledger := .empty
  snip_iff := iff_of_false (fun h => nomatch h) (fun h => h.elim (fun h => nomatch h) (fun h => h rfl))
  posted_le := zero_le 1
  posted_idle := fun h => nomatch h
  sending := ⟨(fun h => nomatch h), (fun h => nomatch h)⟩
  armed := fun h => absurd rfl h
  size_le := zero_le _
  idx_le := fun _ => zero_le _
  idx_lt := fun h => h.elim (fun h => nomatch h) (fun h => h.elim (fun h => nomatch h) (fun h => nomatch h))
  handle := fun _ => rfl

/-! ## Every transfer can end -/

section Progress

variable {env : Env} {opt : Options} {frame : CanFrame} {t : TxSide} {c : Isotp} {err : Int}

theorem isotpDispatchTx_state : (isotpDispatchTx env opt err t).1.con.state = t.con.state ∧
      (isotpDispatchTx env opt err t).1.posted = t.posted := by
  unfold isotpDispatchTx
  dsimp only
  split
  · exact ⟨rfl, rfl⟩
  · split
    · exact ⟨rfl, rfl⟩
    · exact ⟨rfl, rfl⟩

theorem isotpTxSend_state : ((isotpTxSend env opt frame t).1.con.state = t.con.state ∨
        (isotpTxSend env opt frame t).1.con.state = .idle) ∧
      (isotpTxSend env opt frame t).1.posted = t.posted := by
  unfold isotpTxSend
  split
  · exact ⟨.inr isotpDispatchTx_state.1, isotpDispatchTx_state.2⟩
  · exact ⟨.inl rfl, rfl⟩

/-- The thread or the timer of the channel does something, without anything from outside. -/
def Event.Own (event : Event) : Prop := event = .sendFrame ∨ event = .txTimer ∨ event = .txTimeout

/-- Left to itself, the channel comes from `c` to `c'` in at most `k` events. -/
def Reaches (env : Env) (k : Nat) (c c' : Isotp) : Prop :=
  ∃ events : List Event, (∀ event ∈ events, event.Own) ∧ events.length ≤ k ∧
    run isotpStep c (events.map (env, ·)) = some c'

variable {c' : Isotp}

theorem Reaches.step {event : Event} (hown : event.Own)
    (hstep : isotpStep c (env, event) = some c') : Reaches env 1 c c' := by
  refine ⟨[event], ?_, le_refl 1, ?_⟩
  · intro e he
    obtain rfl := mem_singleton.mp he
    exact hown
  · rw [map_singleton, run, hstep]
    rfl

theorem Reaches.trans {c'' : Isotp} {k l : Nat} (h : Reaches env k c c')
    (h' : Reaches env l c' c'') : Reaches env (k + l) c c'' := by
  obtain ⟨events, hown, hlen, hrun⟩ := h
  obtain ⟨events', hown', hlen', hrun'⟩ := h'
  refine ⟨events ++ events', ?_, ?_, ?_⟩
  · intro e he
    exact (mem_append.mp he).elim (hown e) (hown' e)
  · rw [length_append]
    omega
  · rw [map_append, run_append hrun]
    exact hrun'

theorem Reaches.mono {k l : Nat} (h : Reaches env k c c') (hkl : k ≤ l) : Reaches env l c c' := by
  obtain ⟨events, hown, hlen, hrun⟩ := h
  exact ⟨events, hown, by omega, hrun⟩

theorem load_posted (n : Nat) : ∀ {i : Nat} {t : TxSide} {f : CanFrame},
    (t.load n i f).1.posted = t.posted := by
  induction n with
  | zero => exact rfl
  | succ n ih => exact ih

theorem isotpSendSfFf_posted : (isotpSendSfFf env opt t).1.posted = t.posted := by
  unfold isotpSendSfFf
  dsimp only
  split
  · rw [isotpTxSend_state.2]
    exact load_posted _
  · rw [isotpTxSend_state.2]
    exact load_posted _

theorem isotpTxTimeoutTask_state (hstate : t.con.state ≠ .idle)
    (hsending : t.con.state ≠ .waitCf ∧ t.con.state ≠ .sendingFc) :
    ((isotpTxTimeoutTask env opt t).con.state = .idle ∨
        t.con.state = .sendingNextCf ∧ (isotpTxTimeoutTask env opt t).con.state = .sendingCf) ∧
      (isotpTxTimeoutTask env opt t).posted = t.posted := by
  unfold isotpTxTimeoutTask
  dsimp only
  split
  · exact ⟨.inl isotpDispatchTx_state.1, isotpDispatchTx_state.2⟩
  · rename_i hnext
    refine ⟨isotpTxSend_state.1.elim (fun h => .inr ⟨hnext, h⟩) .inl, ?_⟩
    rw [isotpTxSend_state.2]
    exact load_posted _
  · exact ⟨.inl isotpDispatchTx_state.1, isotpDispatchTx_state.2⟩
  · exact ⟨.inl isotpDispatchTx_state.1, isotpDispatchTx_state.2⟩
  · exact ⟨.inl isotpDispatchTx_state.1, isotpDispatchTx_state.2⟩
  · rename_i hwait hnext hcf hff hsf
    exfalso
    cases h : t.con.state with
    | idle => exact hstate h
    | waitFc => exact hwait h
    | waitCf => exact hsending.1 h
    | sendingSf => exact hsf h
    | sendingFf => exact hff h
    | sendingCf => exact hcf h
    | sendingFc => exact hsending.2 h
    | sendingNextCf => exact hnext h

theorem reaches_timeout (h : c.tx.Accounted) (hstate : c.tx.con.state ≠ .idle) (henv : env.noteTaken = true) :
    ∃ c', Reaches env 2 c c' ∧ c'.tx.Accounted ∧ c'.tx.posted = c.tx.posted ∧ (c'.tx.con.state = .idle ∨
        c.tx.con.state = .sendingNextCf ∧ c'.tx.con.state = .sendingCf) := by
  -- the timeout, once its message is in the queue
  have htimeout : ∀ d : Isotp, d.tx.Accounted → d.tx.con = c.tx.con → d.tx.posted = c.tx.posted →
      0 < d.tx.fired → ∃ c', Reaches env 1 d c' ∧ c'.tx.Accounted ∧ c'.tx.posted = c.tx.posted ∧
        (c'.tx.con.state = .idle ∨ c.tx.con.state = .sendingNextCf ∧ c'.tx.con.state = .sendingCf) := by
    intro d hd hcon hposted hfired
    obtain ⟨hend, hkept⟩ := @isotpTxTimeoutTask_state env d.opt
      { d.tx with fired := d.tx.fired - 1 } (by rw [hcon]; exact hstate) hd.sending
    refine ⟨_, .step (.inr (.inr rfl)) (if_pos hfired),
      isotpTxTimeoutTask_accounted hd henv, hkept.trans hposted, ?_⟩
    rw [hcon] at hend
    exact hend
  by_cases hfired : 0 < c.tx.fired
  · obtain ⟨c', hreach, hrest⟩ := htimeout c h rfl rfl hfired
    exact ⟨c', hreach.mono (by omega), hrest⟩
  · have htimer : c.tx.timer.isSome = true := (h.armed hstate).resolve_right hfired
    have hstep : isotpStep c (env, .txTimer) =
        some { c with tx := { c.tx with timer := none, fired := c.tx.fired + 1 } } := if_pos htimer
    have hacc := isotpStep_accounted h (e := (env, .txTimer)) trivial hstep
    obtain ⟨c', hreach, hrest⟩ := htimeout _ hacc rfl rfl (succ_pos _)
    exact ⟨c', (Reaches.step (.inr (.inl rfl)) hstep).trans hreach, hrest⟩

theorem reaches_idle (h : c.tx.Accounted) (hstate : c.tx.con.state ≠ .idle)
    (henv : env.noteTaken = true) : ∃ c', Reaches env 4 c c' ∧ ¬c'.tx.Pending := by
  have hposted : ¬0 < c.tx.posted := fun hpos => hstate (h.posted_idle hpos).1
  obtain ⟨c', hreach, hacc, hsame, hend⟩ := reaches_timeout h hstate henv
  cases hend with
  | inl hidle =>
    refine ⟨c', hreach.mono (by omega), ?_⟩
    intro hpending
    exact hpending.elim (fun hpos => hposted (hsame ▸ hpos)) (fun hbusy => hbusy hidle)
  | inr hnext =>
    have hstate' : c'.tx.con.state ≠ .idle := by rw [hnext.2]; decide
    obtain ⟨c'', hreach', -, hsame', hend'⟩ := reaches_timeout hacc hstate' henv
    refine ⟨c'', hreach.trans hreach', ?_⟩
    have hidle : c''.tx.con.state = .idle := by
      refine hend'.resolve_right ?_
      rw [hnext.2]
      exact fun h => nomatch h.1
    intro hpending
    exact hpending.elim (fun hpos => hposted (hsame ▸ hsame' ▸ hpos)) (fun hbusy => hbusy hidle)

theorem reaches_end (h : c.tx.Accounted) (henv : env.noteTaken = true) :
    ∃ c', Reaches env 5 c c' ∧ ¬c'.tx.Pending := by
  by_cases hstate : c.tx.con.state = .idle
  · by_cases hposted : 0 < c.tx.posted
    · have hstep : isotpStep c (env, .sendFrame) = some { c with
          tx := (isotpSendSfFf env c.opt { c.tx with posted := c.tx.posted - 1 }).1 } :=
        if_pos hposted
      have hacc := isotpStep_accounted h (e := (env, .sendFrame)) henv hstep
      have hreach := Reaches.step (.inl rfl) hstep
      by_cases hidle : (isotpSendSfFf env c.opt { c.tx with posted := c.tx.posted - 1 }).1.con.state = .idle
      · refine ⟨_, hreach.mono (by omega), ?_⟩
        intro hpending
        have hone := h.posted_le
        have hsame := @isotpSendSfFf_posted env c.opt { c.tx with posted := c.tx.posted - 1 }
        cases hpending with
        | inl hpos =>
          dsimp only at hpos hsame
          omega
        | inr hbusy => exact hbusy hidle
      · obtain ⟨c', hreach', hend⟩ := reaches_idle hacc hidle henv
        exact ⟨c', hreach.trans hreach', hend⟩
    · refine ⟨c, ⟨[], by simp, by simp, rfl⟩, ?_⟩
      intro hpending
      exact hpending.elim hposted (fun hbusy => hbusy hstate)
  · obtain ⟨c', hreach, hend⟩ := reaches_idle h hstate henv
    exact ⟨c', hreach.mono (by omega), hend⟩

end Progress

/-- The accounts are in order, and a pending transfer can be brought to its end. -/
structure SenderSafe (c : Isotp) : Prop where
  accounted : c.tx.Accounted
  ends : ∀ env : Env, env.noteTaken = true → ∃ c', Reaches env 5 c c' ∧ ¬c'.tx.Pending

/-- **The sending half over a run.** When no call comes before the thread has taken up the one
before, none that is served asks for silence, no flow control frame that is waited for is short, and
notifications are taken, each transfer has its snip released once and one notification, and a
call while one is pending is refused. -/
theorem isotp_sender (opt : Options) (fcOptions : Option FcOptions) (es : List (Env × Event))
    (h : Along isotpStep TxOk (isotpBind opt fcOptions) es) :
    Always isotpStep SenderSafe (isotpBind opt fcOptions) es ∧
      Along isotpStep SendRefused (isotpBind opt fcOptions) es := by
  have hkept : ∀ c e c', c.tx.Accounted → TxOk c e → isotpStep c e = some c' → c'.tx.Accounted :=
    fun _ _ _ hacc hok hstep => isotpStep_accounted hacc hok hstep
  constructor
  · refine always_of_along ?_ hkept es (isotpBind_accounted opt fcOptions) h
    exact fun c hacc => ⟨hacc, fun env henv => reaches_end hacc henv⟩
  · refine along_of_along ?_ hkept es (isotpBind_accounted opt fcOptions) h
    intro c e c' _ hok _
    obtain ⟨env, event⟩ := e
    cases event with
    | send buf flags =>
      intro hpending
      have hbusy : c.tx.con.state ≠ .idle := by
        intro hidle
        have hposted := (hok hidle).1
        cases hpending with
        | inl hpos => omega
        | inr hbusy => exact hbusy hidle
      exact if_pos hbusy
    | _ => trivial

theorem isotp_sender_three_bytes :
    Along isotpStep TxOk (isotpBind plainOptions none)
        [(granted, .send [1, 2, 3] 0), (granted, .sendFrame), (granted, .send [4] 0),
          (granted, .txConfirmation 1)] ∧
      Always isotpStep SenderSafe (isotpBind plainOptions none)
        [(granted, .send [1, 2, 3] 0), (granted, .sendFrame), (granted, .send [4] 0),
          (granted, .txConfirmation 1)] :=
  ⟨by decide +kernel, (isotp_sender plainOptions none _ (by decide +kernel)).1⟩

/-- Two calls before the thread has run: both return a length, and the snip of the first stays
live though the channel has forgotten it. -/
theorem not_isotp_sender :
    ¬∀ (opt : Options) (fcOptions : Option FcOptions) (es : List (Env × Event)),
      (∀ e ∈ es, e.1.noteTaken = true) →
      Always isotpStep SenderSafe (isotpBind opt fcOptions) es ∧
        Along isotpStep SendRefused (isotpBind opt fcOptions) es := by
  intro h
  have hall := (h plainOptions none [(granted, .send [1, 2, 3] 0), (granted, .send [4] 0)]
    (by decide)).1
  have hrun : (run isotpStep (isotpBind plainOptions none)
      [(granted, .send [1, 2, 3] 0), (granted, .send [4] 0)]).any
      (fun c => decide (c.tx.mem.Live 0 ∧ c.tx.con.snip = some 1)) = true := by decide +kernel
  obtain ⟨c, hc, hlost⟩ := (Option.any_eq_true _ _).mp hrun
  obtain ⟨hlive, hsnip⟩ := of_decide_eq_true hlost
  have howned := ((hall.last hc).accounted.ledger.holds.live_iff 0).mp hlive
  have hzero : c.tx.con.snip = some 0 := howned
  rw [hsnip] at hzero
  exact absurd hzero (by decide)

end Riot.Can
