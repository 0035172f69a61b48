import Riot.Tcp.TimedSim

/-!
# Samples of the round trip time

A sample is taken when the retransmit queue is acknowledged and `retries` is zero, and
counts from `rtt_start`. Both fields belong to the TCB and not to the segment in the
queue: any segment that is sent past the queue starts the measurement anew. Beside the
run of the state machine, a record is kept of the segment in the queue: how often it
has been sent, and when first.
-/

namespace Riot.Tcp

open Riot.Lib Option BitVec

/-- The segment in the retransmit queue on its way. -/
structure Flight where
  /-- How often it has been sent. -/
  sends : Nat
  /-- When it has been sent first, in milliseconds. -/
  first : Nat
  deriving DecidableEq

/-- The record after a call: a segment that was not in the queue before is on its way from now on. -/
def Flight.after (f : Flight) (now : Nat) (slot slot' : Option Segment) (sent : List Segment) : Flight :=
  match slot' with
  | none => f
  | some seg =>
    if slot = none then { sends := sent.count seg, first := now }
    else { f with sends := f.sends + sent.count seg }

/-- A TCB with its clock, and the segment in its queue on its way. -/
structure KarnHist where
  tcb : Tcb
  rtt : Rtt
  flight : Flight
  /-- The milliseconds since the system has started. -/
  now : Nat

/-- What happens to a TCB, and how many milliseconds later. -/
structure TimedEvent where
  wait : Nat
  event : TcbEvent

/-- A call of `_gnrc_tcp_fsm` at a time. -/
def timedCall (t : Tcb) (r : Rtt) (c : Call) (now : Nat) : Option TimedFsm :=
  Timed.fsm { toEnv := c.env, now := BitVec.ofNat 32 now }
    { fsm := fsmStart t c.list c.bufUsed, rtt := r, samples := [] } c.event

def karnStep (h : KarnHist) (ev : TimedEvent) : Option KarnHist :=
  match ev.event with
  | .call c => (timedCall h.tcb h.rtt c (h.now + ev.wait)).map fun w =>
    { tcb := w.fsm.tcb
      rtt := w.rtt
      flight := h.flight.after (h.now + ev.wait) h.tcb.pktRetransmit w.fsm.tcb.pktRetransmit w.fsm.sent
      now := h.now + ev.wait }
  | .api a => (apiWrite h.tcb a).map fun t => { h with tcb := t, now := h.now + ev.wait }

def karnStart : KarnHist := { tcb := tcbInit, rtt := rttInit, flight := { sends := 0, first := 0 }, now := 0 }

/-- The RTO lies between its bounds while the timer is set, and no computation of a call with times
overflows: the call comes to an end as it does without a clock. -/
def RtoRight (h : KarnHist) : Prop :=
  (h.tcb.eventRetransmit = true → RtoBounded h.rtt) ∧
    ∀ c now, (timedCall h.tcb h.rtt c now).map TimedFsm.fsm = fsmCall h.tcb c

/-- A sample is the time that a segment sent exactly once has been on its way, and the segment is
acknowledged with it. -/
def SampleOf (h : KarnHist) (now : Nat) (w : TimedFsm) (rtt : BitVec 32) : Prop :=
  h.tcb.pktRetransmit ≠ none ∧ w.fsm.tcb.pktRetransmit = none ∧ h.flight.sends = 1 ∧
    rtt.toInt = now - h.flight.first

/-- The estimates change by a sample; a retransmission may drop them. -/
def EstimatesFrom (r r' : Rtt) (event : Event) (samples : List (BitVec 32)) : Prop :=
  (samples = [] ∧ r'.srtt = r.srtt ∧ r'.rttVar = r.rttVar) ∨
    (samples = [] ∧ event = .timeoutRetransmit ∧ r'.srtt = rtoUninitialized ∧ r'.rttVar = rtoUninitialized) ∨
    ∃ rtt r₁, samples = [rtt] ∧ r.sample rtt = some r₁ ∧ r'.srtt = r₁.srtt ∧ r'.rttVar = r₁.rttVar

/-- A call takes samples of segments sent once only, and changes the estimates by nothing else. -/
def SampleRight (h : KarnHist) (ev : TimedEvent) : Prop :=
  match ev.event with
  | .call c => ∀ w, timedCall h.tcb h.rtt c (h.now + ev.wait) = some w →
    (∀ rtt ∈ w.samples, SampleOf h (h.now + ev.wait) w rtt) ∧ EstimatesFrom h.rtt w.rtt c.event w.samples
  | .api _ => True

/-- A call that leaves a segment in the queue sends nothing. -/
def SendsNothing (t : Tcb) (c : Call) : Prop :=
  match fsmCall t c with
  | some w => w.tcb.pktRetransmit ≠ none → w.sent = []
  | none => True

instance (t : Tcb) (c : Call) : Decidable (SendsNothing t c) := by
  unfold SendsNothing
  split <;> infer_instance

/-- While a segment is in the queue, nothing but the retransmission timer sends, and it is sent no more
than 256 times; what has been sent once stays there for less than 2³² milliseconds. -/
def KarnOk (h : KarnHist) (ev : TimedEvent) : Prop :=
  match ev.event with
  | .call c => h.tcb.pktRetransmit ≠ none →
    (c.event ≠ .timeoutRetransmit → SendsNothing h.tcb c) ∧
      (c.event = .timeoutRetransmit → h.flight.sends < 256) ∧
      (h.flight.sends = 1 → h.now + ev.wait - h.flight.first < 2 ^ 32)
  | .api _ => True

instance (h : KarnHist) (ev : TimedEvent) : Decidable (KarnOk h ev) := by
  unfold KarnOk
  split <;> infer_instance

/-- The fields of the TCB measure the segment in the queue: `retries` counts how often it has been sent
again, and `rtt_start` is the time when it has been sent first. -/
structure Measures (r : Rtt) (f : Flight) (now : Nat) : Prop where
  sends : 1 ≤ f.sends ∧ f.sends ≤ 256
  retries : r.retries = BitVec.ofNat 8 (f.sends - 1)
  first : f.first ≤ now
  start : r.rttStart = BitVec.ofNat 32 f.first

structure KarnInv (h : KarnHist) : Prop where
  ok : RttOk h.tcb h.rtt
  flight : h.tcb.pktRetransmit ≠ none → Measures h.rtt h.flight h.now

variable {h h' : KarnHist} {ev : TimedEvent} {c : Call} {e : TimedEnv} {w w' : TimedFsm} {seg : Segment}
  {r : Rtt} {f : Flight} {now now' : Nat}

/-! ## The record of the segment in the queue -/

theorem Measures.later (hm : Measures r f now) (hle : now ≤ now') : Measures r f now' :=
  ⟨hm.sends, hm.retries, hm.first.trans hle, hm.start⟩

/-- The record begins with the transmission of the segment that has been put into the queue. -/
theorem measures_queued {r0 : Rtt} (hrtt : r = r0.send (BitVec.ofNat 32 now) false) :
    Measures r { sends := [seg].count seg, first := now } now := by
  have hcount : [seg].count seg = 1 := by rw [List.count_singleton, beq_self_eq_true, if_pos rfl]
  rw [hcount, hrtt]
  have hbounds : 1 ≤ 1 ∧ 1 ≤ 256 := by decide
  exact ⟨hbounds, rfl, le_rfl, rfl⟩

theorem Measures.sendAgain {r1 : Rtt} (hm : Measures r f now) (hlt : f.sends < 256)
    (hsetup : r.setup true = some r1) (hle : now ≤ now') :
    Measures (r1.send (BitVec.ofNat 32 now') true) { f with sends := f.sends + [seg].count seg } now' := by
  obtain ⟨hpos, hretries, hfirst, hstart⟩ := hm
  obtain ⟨hretries1, hstart1⟩ := setup_measure hsetup
  have hcount : [seg].count seg = 1 := by rw [List.count_singleton, beq_self_eq_true, if_pos rfl]
  have hbounds : 1 ≤ f.sends + 1 ∧ f.sends + 1 ≤ 256 := by omega
  rw [hcount]
  refine ⟨hbounds, ?_, hfirst.trans hle, hstart1.trans hstart⟩
  show r1.retries + 1 = BitVec.ofNat 8 (f.sends + 1 - 1)
  rw [hretries1, hretries]
  refine eq_of_toNat_eq ?_
  rw [toNat_add, toNat_ofNat, toNat_ofNat]
  show ((f.sends - 1) % 2 ^ 8 + 1) % 2 ^ 8 = _
  omega

theorem Measures.sendsOnce (hm : Measures r f now) (hretries : r.retries = 0) : f.sends = 1 := by
  obtain ⟨⟨hpos, hle⟩, hcount, -, -⟩ := hm
  rw [hcount] at hretries
  have hnat : (f.sends - 1) % 2 ^ 8 = 0 := congrArg BitVec.toNat hretries
  omega

theorem Measures.elapsed (hm : Measures r f now) (hle : now ≤ now') (hlt : now' - f.first < 2 ^ 32)
    (hpos : (0#32).slt (BitVec.ofNat 32 now' - r.rttStart) = true) :
    (BitVec.ofNat 32 now' - r.rttStart).toInt = now' - f.first := by
  obtain ⟨-, -, hfirst, hstart⟩ := hm
  have hnat : (BitVec.ofNat 32 now' - r.rttStart).toNat = now' - f.first := by
    rw [hstart, toNat_sub, toNat_ofNat, toNat_ofNat]
    omega
  rw [toInt_of_lt (toNat_of_pos hpos).2, hnat]
  omega

/-! ## One call -/

theorem timedCall_follows (hok : RttOk h.tcb h.rtt) (c : Call) (now : Nat) : Follows TimedFsm.fsm
    (fun w => CallOutcome { toEnv := c.env, now := BitVec.ofNat 32 now }
      { fsm := fsmStart h.tcb c.list c.bufUsed, rtt := h.rtt, samples := [] } w c.event)
    (timedCall h.tcb h.rtt c now) (fsmCall h.tcb c) :=
  fsm_follows (e := { toEnv := c.env, now := BitVec.ofNat 32 now })
    (w := { fsm := fsmStart h.tcb c.list c.bufUsed, rtt := h.rtt, samples := [] }) hok c.event

theorem rtoRight_of_ok (hok : RttOk h.tcb h.rtt) : RtoRight h :=
  ⟨fun hevent => hok.bounded (.inr hevent), fun c now => (timedCall_follows hok c now).erase⟩

/-- Every call keeps the estimates right, and the RTO of a queued segment between its bounds. -/
theorem rttOk_step (hok : RttOk h.tcb h.rtt) (hstep : karnStep h ev = some h') : RttOk h'.tcb h'.rtt := by
  unfold karnStep at hstep
  cases hev : ev.event with
  | call c =>
    rw [hev] at hstep
    obtain ⟨w, hcall, rfl⟩ := map_eq_some_iff.mp hstep
    exact ((timedCall_follows hok c _).result w hcall).rttOk hok
  | api a =>
    rw [hev] at hstep
    obtain ⟨t, happly, rfl⟩ := map_eq_some_iff.mp hstep
    obtain ⟨_, _, _, _, _, _, rfl⟩ := apiWrite_fields happly
    exact ⟨hok.estimated, hok.kept, hok.bounded⟩

theorem flight_after (hinv : KarnInv h) (hok : KarnOk h ev) (hev : ev.event = .call c)
    (hcall : timedCall h.tcb h.rtt c (h.now + ev.wait) = some w) (hslot : w.fsm.tcb.pktRetransmit = some seg) :
    Measures w.rtt (h.flight.after (h.now + ev.wait) h.tcb.pktRetransmit w.fsm.tcb.pktRetransmit w.fsm.sent)
      (h.now + ev.wait) := by
  have hfollows := timedCall_follows hinv.ok c (h.now + ev.wait)
  have hout := hfollows.result w hcall
  have hfsm : fsmCall h.tcb c = some w.fsm := by rw [← hfollows.erase, hcall, map_some]
  have hlater : h.now ≤ h.now + ev.wait := Nat.le_add_right _ _
  unfold KarnOk at hok
  rw [hev] at hok
  rw [hslot]
  unfold Flight.after
  dsimp only
  rcases hout with ⟨hother, hout⟩ | ⟨hretransmit, ⟨hsame, hnone⟩ | ⟨seg', hagain⟩⟩
  · cases hout with
    | sends segs past =>
      have hkeep : h.tcb.pktRetransmit = some seg := by
        rcases past.slot with hs | hs
        · exact hs.symm.trans hslot
        · rw [hs] at hslot
          cases hslot
      have hfull : h.tcb.pktRetransmit ≠ none := by
        rw [hkeep]
        exact some_ne_none seg
      -- a call that leaves the segment in the queue has sent nothing
      have hnothing : w.fsm.sent = [] := by
        have hsends := (hok hfull).1 hother
        unfold SendsNothing at hsends
        rw [hfsm] at hsends
        exact hsends (by rw [hslot]; exact some_ne_none seg)
      have hsegs : segs = [] := past.sent.symm.trans hnothing
      have hrtt : w.rtt = h.rtt := by
        rw [past.rtt, hsegs]
        rfl
      rw [if_neg hfull, hnothing, hrtt]
      exact (hinv.flight hfull).later hlater
    | acks w1 segs acked past =>
      rcases past.slot with hs | hs
      · rw [hs, acked.slot'] at hslot
        cases hslot
      · rw [hs] at hslot
        cases hslot
    | queues seg' queued =>
      obtain ⟨r, -, hrtt⟩ := queued.rtt
      obtain rfl := some.inj (queued.slot'.symm.trans hslot)
      have hsent : w.fsm.sent = [seg'] := queued.sent
      have hempty : h.tcb.pktRetransmit = none := queued.slot
      rw [if_pos hempty, hsent]
      exact measures_queued hrtt
  · rw [hsame.slot, hnone] at hslot
    cases hslot
  · obtain ⟨r, hsetup, hrtt⟩ := hagain.rtt
    obtain rfl := some.inj (hagain.slot'.symm.trans hslot)
    have hsent : w.fsm.sent = [seg'] := hagain.sent
    have hfull : h.tcb.pktRetransmit ≠ none := by
      have hs : h.tcb.pktRetransmit = some seg' := hagain.slot
      rw [hs]
      exact some_ne_none seg'
    rw [if_neg hfull, hsent, hrtt]
    exact (hinv.flight hfull).sendAgain ((hok hfull).2.1 hretransmit) hsetup hlater

theorem KarnInv.step (hinv : KarnInv h) (hok : KarnOk h ev) (hstep : karnStep h ev = some h') : KarnInv h' := by
  refine ⟨rttOk_step hinv.ok hstep, fun hfull => ?_⟩
  unfold karnStep at hstep
  cases hev : ev.event with
  | call c =>
    rw [hev] at hstep
    obtain ⟨w, hcall, rfl⟩ := map_eq_some_iff.mp hstep
    obtain ⟨seg, hslot⟩ := ne_none_iff_exists'.mp hfull
    exact flight_after hinv hok hev hcall hslot
  | api a =>
    rw [hev] at hstep
    obtain ⟨t, happly, rfl⟩ := map_eq_some_iff.mp hstep
    obtain ⟨_, _, _, _, _, _, rfl⟩ := apiWrite_fields happly
    exact (hinv.flight hfull).later (Nat.le_add_right _ _)

theorem sentPast_estimates {segs : List Segment} :
    (sentPast e r segs).srtt = r.srtt ∧ (sentPast e r segs).rttVar = r.rttVar := by
  unfold sentPast
  split <;> exact ⟨rfl, rfl⟩

/-- A sample is taken of a segment that has been sent once, for the time since then. -/
theorem KarnInv.sampleRight (hinv : KarnInv h) (hok : KarnOk h ev) : SampleRight h ev := by
  unfold SampleRight
  cases hev : ev.event with
  | api a => trivial
  | call c =>
    intro w hcall
    unfold KarnOk at hok
    rw [hev] at hok
    have hout := (timedCall_follows hinv.ok c (h.now + ev.wait)).result w hcall
    have hnil : ∀ rtt ∈ ([] : List (BitVec 32)), SampleOf h (h.now + ev.wait) w rtt := by
      intro _ hmem
      cases hmem
    rcases hout with ⟨-, hout⟩ | ⟨hretransmit, ⟨hsame, -⟩ | ⟨seg', hagain⟩⟩
    · cases hout with
      | sends segs past =>
        have hnone : w.samples = [] := past.samples
        refine ⟨by rw [hnone]; exact hnil, .inl ⟨hnone, ?_⟩⟩
        rw [past.rtt]
        exact sentPast_estimates
      | acks w1 segs acked past =>
        have hslot' : w.fsm.tcb.pktRetransmit = none := by
          rcases past.slot with hs | hs
          · exact hs.trans acked.slot'
          · exact hs
        rw [past.samples, past.rtt]
        rcases acked.measured with ⟨-, hrtt, hsamples⟩ | ⟨rtt, hmeasure, hsample, hsamples⟩
        · rw [hsamples, hrtt]
          exact ⟨hnil, .inl ⟨rfl, sentPast_estimates⟩⟩
        · obtain ⟨hretries, rfl, hpos⟩ := measure_pos hmeasure
          have hm : Measures h.rtt h.flight h.now := hinv.flight acked.slot
          have honce : h.flight.sends = 1 := hm.sendsOnce hretries
          rw [hsamples]
          refine ⟨fun rtt hmem => ?_, .inr (.inr ⟨_, w1.rtt, rfl, hsample, sentPast_estimates⟩)⟩
          obtain rfl := List.mem_singleton.mp hmem
          exact ⟨acked.slot, hslot', honce,
            hm.elapsed (Nat.le_add_right _ _) ((hok acked.slot).2.2 honce) hpos⟩
      | queues seg' queued =>
        obtain ⟨r, hsetup, hrtt⟩ := queued.rtt
        have hnone : w.samples = [] := queued.samples
        refine ⟨by rw [hnone]; exact hnil, .inl ⟨hnone, ?_⟩⟩
        rw [hrtt]
        rcases setup_estimates hsetup with hest | ⟨hc, -⟩
        · exact hest
        · cases hc
    · have hnone : w.samples = [] := hsame.samples
      refine ⟨by rw [hnone]; exact hnil, .inl ⟨hnone, ?_⟩⟩
      rw [hsame.rtt]
      exact ⟨rfl, rfl⟩
    · obtain ⟨r, hsetup, hrtt⟩ := hagain.rtt
      have hnone : w.samples = [] := hagain.samples
      refine ⟨by rw [hnone]; exact hnil, ?_⟩
      rw [hrtt, hnone]
      rcases setup_estimates hsetup with hest | ⟨-, hest⟩
      · exact .inl ⟨rfl, hest⟩
      · exact .inr (.inl ⟨rfl, hretransmit, hest⟩)

/-! ## Runs -/

theorem karnStart_ok : RttOk karnStart.tcb karnStart.rtt where
  estimated := .inl ⟨rfl, rfl⟩
  kept := by
    intro seg hc
    cases hc
  bounded := by
    rintro (hc | hc)
    · exact absurd rfl hc
    · cases hc

theorem karnStart_inv : KarnInv karnStart := ⟨karnStart_ok, fun hc => absurd rfl hc⟩

/-- **Round trip times.** In every run the RTO lies between its bounds while the timer is set, and
nothing overflows. As long as nothing is sent past a segment in the queue, which is sent no more than 256
times and, if once, acknowledged in less than 2³² milliseconds, every sample is the time that a segment
sent exactly once has been on its way, and the estimates change by nothing else. -/
theorem rtt_samples (es : List TimedEvent) : Always karnStep RtoRight karnStart es ∧
    (Along karnStep KarnOk karnStart es → Along karnStep SampleRight karnStart es) :=
  ⟨always_of_step (I := fun h => RttOk h.tcb h.rtt) (fun _ hok => rtoRight_of_ok hok)
      (fun _ _ _ hok hstep => rttOk_step hok hstep) es karnStart_ok,
    fun hok => along_of_along (I := KarnInv) (fun _ _ _ hinv hok _ => hinv.sampleRight hok)
      (fun _ _ _ hinv hok hstep => hinv.step hok hstep) es karnStart_inv hok⟩

/-- A call in the system with one TCB, so many milliseconds later. -/
def soloAt (wait : Nat) (event : Event) : TimedEvent := { wait := wait, event := soloCall event }

/-- The listening TCB is connected, and has three bytes on the way. -/
def soloData : List TimedEvent :=
  (soloListen.map fun ev => { wait := 0, event := ev }) ++
    [soloAt 10 (.rcvdPkt { peerSegment { syn := true } 5000 0 [] with options := mssOption }),
      soloAt 40 (.rcvdPkt (peerSegment { ack := true } 5001 101 [])), soloAt 5 (.callSend [1, 2, 3])]

/-- The bytes are sent again and acknowledged then; so is more, in time. -/
def soloTimes : List TimedEvent :=
  soloData ++ [soloAt 1000 .timeoutRetransmit,
    soloAt 70 (.rcvdPkt (peerSegment { ack := true } 5001 104 [])), soloAt 0 (.callSend [4]),
    soloAt 35 (.rcvdPkt (peerSegment { ack := true } 5001 105 []))]

theorem rtt_samples_soloTimes : Along karnStep SampleRight karnStart soloTimes ∧
    Always karnStep RtoRight karnStart soloTimes :=
  ⟨(rtt_samples soloTimes).2 (by decide +kernel), (rtt_samples soloTimes).1⟩

/-- What a call would sample. -/
def samplesOf (h : KarnHist) (ev : TimedEvent) : List (BitVec 32) :=
  match ev.event with
  | .call c => ((timedCall h.tcb h.rtt c (h.now + ev.wait)).map TimedFsm.samples).getD []
  | .api _ => []

/-- A sample of a segment that has been sent more than once, or of another time, is wrong. -/
theorem not_sampleRight {rtt : BitVec 32} (hmem : rtt ∈ samplesOf h ev)
    (hwrong : h.flight.sends ≠ 1 ∨ rtt.toInt ≠ (h.now + ev.wait : Nat) - h.flight.first) :
    ¬SampleRight h ev := by
  intro hright
  unfold SampleRight at hright
  unfold samplesOf at hmem
  cases hev : ev.event with
  | api a =>
    rw [hev] at hmem
    cases hmem
  | call c =>
    rw [hev] at hmem hright
    dsimp only at hmem hright
    cases hcall : timedCall h.tcb h.rtt c (h.now + ev.wait) with
    | none =>
      rw [hcall] at hmem
      cases hmem
    | some w =>
      rw [hcall] at hmem
      obtain ⟨-, -, honce, htime⟩ := (hright w hcall).1 rtt hmem
      exact hwrong.elim (fun hc => hc honce) (fun hc => hc htime)

/-- Data of the peer, and the acknowledgment of our three bytes. -/
def peerData : TimedEvent := soloAt 500 (.rcvdPkt (peerSegment { ack := true } 5001 101 [[7]]))

def peerAck : TimedEvent := soloAt 30 (.rcvdPkt (peerSegment { ack := true } 5002 104 []))

/-- The ACK of data of the peer starts the measurement anew: a sample is taken of a segment that has
been sent twice; and of one that has been sent once, 530 milliseconds ago, the sample is 30. -/
theorem not_rtt_samples :
    (∃ h, run karnStep karnStart (soloData ++ [soloAt 1000 .timeoutRetransmit, peerData]) = some h ∧
      ¬SampleRight h peerAck) ∧
    ∃ h, run karnStep karnStart (soloData ++ [peerData]) = some h ∧ ¬SampleRight h peerAck := by
  constructor
  · have hend : (run karnStep karnStart (soloData ++ [soloAt 1000 .timeoutRetransmit, peerData])).any
        (fun h => decide (30#32 ∈ samplesOf h peerAck ∧ h.flight.sends = 2)) = true := by
      decide +kernel
    obtain ⟨h, hrun, hend⟩ := (Option.any_eq_true _ _).mp hend
    have hend := of_decide_eq_true hend
    exact ⟨h, hrun, not_sampleRight hend.1 (Or.inl (by rw [hend.2]; decide))⟩
  · have hend : (run karnStep karnStart (soloData ++ [peerData])).any
        (fun h => decide (30#32 ∈ samplesOf h peerAck ∧
          (30#32).toInt ≠ (h.now + peerAck.wait : Nat) - h.flight.first)) = true := by
      decide +kernel
    obtain ⟨h, hrun, hend⟩ := (Option.any_eq_true _ _).mp hend
    have hend := of_decide_eq_true hend
    exact ⟨h, hrun, not_sampleRight hend.1 (Or.inr hend.2)⟩

end Riot.Tcp
