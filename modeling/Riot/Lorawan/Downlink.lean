import Riot.Lib.Runs

/-!
# LoRaWAN downlinks (`gnrc_lorawan_mcps.c`)

The network sends frames with 32 bit counters, one counter for all frames or, in LoRaWAN 1.1, one for
each of the network and the applications. A frame carries the lower 16 bits of its counter only. The
cryptographic functions are parameters.
-/

namespace Riot.Lorawan

open Riot.Lib List Nat UInt32

/-- `sizeof(lorawan_hdr_t)` -/
def hdrSize : Nat := 8

def micSize : Nat := 4

def maxFcntGap : UInt32 := 16384

def portMax : UInt8 := 223

def mtypeCnfDownlink : UInt8 := 5

/-- The block in front of the frame that the MIC is calculated of. -/
structure Block0 where
  confFcnt : UInt16
  devAddr : List UInt8
  fcnt : UInt32
  len : UInt8

/-- The version, and the cryptographic functions. -/
structure Cfg where
  /-- `MODULE_GNRC_LORAWAN_1_1` -/
  lorawan11 : Bool
  /-- The first four bytes of the CMAC: of the key, the block and the frame. -/
  mic : List UInt8 → Block0 → List UInt8 → List UInt8
  /-- `gnrc_lorawan_encrypt_payload`, downlink: of the key, the address and the counter -/
  encryptPayload : List UInt8 → List UInt8 → UInt32 → List UInt8 → List UInt8
  /-- `gnrc_lorawan_encrypt_fopts`, downlink: of the key, the address, the counter and whether it is
  the one of the applications -/
  encryptFopts : List UInt8 → List UInt8 → UInt32 → Bool → List UInt8 → List UInt8

/-- What the handling of downlinks uses of `gnrc_lorawan_t`. -/
structure Mac where
  devAddr : List UInt8
  snwksintkey : List UInt8
  nwksenckey : List UInt8
  appskey : List UInt8
  optneg : Bool
  fcnt : UInt32
  fcntDown : UInt32
  afcntDown : UInt32
  lastFcntDown : UInt32
  ackRequested : Bool
  waitingForAck : Bool

/-- What happens with a downlink. -/
inductive Output where
  /-- `gnrc_lorawan_event_no_rx` -/
  | noRx
  /-- `gnrc_lorawan_process_fopts` -/
  | fopts (bytes : List UInt8)
  /-- `_end_of_tx`, as a success -/
  | endOfTx
  /-- the indication `MLME_SCHEDULE_UPLINK` -/
  | scheduleUplink
  /-- `gnrc_lorawan_mcps_indication` -/
  | indication (ackReq : Bool) (port : UInt8) (payload : List UInt8)

/-- `struct parsed_packet` -/
structure Parsed where
  fcntDown : UInt32
  ackReq : Bool
  fopts : Option (List UInt8)
  encPayload : Option (List UInt8)
  port : UInt8
  ack : Bool
  framePending : Bool

/-! ## The header -/

def byte (psdu : List UInt8) (i : Nat) : UInt8 := psdu.getD i 0

def hdrMtype (psdu : List UInt8) : UInt8 := (byte psdu 0 &&& 0xe0) >>> 5

def hdrAddr (psdu : List UInt8) : List UInt8 := (psdu.drop 1).take 4

def hdrAck (psdu : List UInt8) : Bool := (byte psdu 5 &&& 0x20) >>> 5 ≠ 0

def hdrFramePending (psdu : List UInt8) : Bool := (byte psdu 5 &&& 0x10) >>> 4 ≠ 0

def hdrFrameOptsLen (psdu : List UInt8) : Nat := (byte psdu 5 &&& 0x0f).toNat

def hdrFcnt (psdu : List UInt8) : UInt16 := (byte psdu 6).toUInt16 ||| (byte psdu 7).toUInt16 <<< 8

/-- Where the MIC is. -/
def pMic (psdu : List UInt8) : Nat := psdu.length - micSize

/-- The port of the packet, behind the options; 0 without one. -/
def framePort (psdu : List UInt8) : UInt8 :=
  if hdrSize + hdrFrameOptsLen psdu < pMic psdu then byte psdu (hdrSize + hdrFrameOptsLen psdu) else 0

/-! ## The counter -/

def fcntStol (fcntDown : UInt32) (sFcnt : UInt16) : UInt32 :=
  let u32Fcnt := fcntDown &&& 0xFFFF0000 ||| sFcnt.toUInt32
  if 0xFFFF ≤ fcntDown + maxFcntGap ∧ sFcnt.toUInt32 < fcntDown &&& 0xFFFF then u32Fcnt + 0xFFFF else u32Fcnt

/-- The counter that the MIC is checked with. -/
def micFcnt (psdu : List UInt8) : UInt32 := (hdrFcnt psdu).toUInt32

/-- The counter that the payload is decrypted with. -/
def cryptFcnt (psdu : List UInt8) : UInt32 := (hdrFcnt psdu).toUInt32

variable (cfg : Cfg)

def micIsValid (psdu key : List UInt8) (fcntUp : UInt32) (optneg : Bool) : Bool :=
  let confFcnt := if cfg.lorawan11 && optneg && hdrAck psdu then fcntUp.toUInt16 else 0
  cfg.mic key ⟨confFcnt, hdrAddr psdu, micFcnt psdu, UInt8.ofNat (pMic psdu)⟩ (psdu.take (pMic psdu)) =
    psdu.drop (pMic psdu)

/-- The counter of the application counts. -/
def isApplication (psdu : List UInt8) : Bool := cfg.lorawan11 && framePort psdu ≠ 0

/-- The stored counter that the one of the packet is compared with. -/
def domainFcntDown (mac : Mac) (psdu : List UInt8) : UInt32 :=
  if isApplication cfg psdu then mac.afcntDown else mac.fcntDown

def parseDl (mac : Mac) (psdu : List UInt8) : Option Parsed :=
  let foptsLength := hdrFrameOptsLen psdu
  let buf := hdrSize + foptsLength
  if hdrAddr psdu ≠ mac.devAddr then none
  -- packet with options but no payload
  else if 0 < foptsLength ∧ pMic psdu ≤ buf then none
  else if buf < pMic psdu ∧ (framePort psdu = 0 ∧ 0 < foptsLength ∨ portMax < framePort psdu) then none
  else
    let fcnt := fcntStol mac.fcntDown (hdrFcnt psdu)
    let fcntDown := domainFcntDown cfg mac psdu
    if fcnt < fcntDown ∨ fcntDown + maxFcntGap < fcnt then none
    else
      some {
        fcntDown := fcnt
        ackReq := hdrMtype psdu = mtypeCnfDownlink
        fopts := if 0 < foptsLength then some ((psdu.drop hdrSize).take foptsLength) else none
        encPayload :=
          if buf + 1 < pMic psdu then some ((psdu.drop (buf + 1)).take (pMic psdu - (buf + 1))) else none
        port := framePort psdu
        ack := hdrAck psdu
        framePending := hdrFramePending psdu }

/-- The packet passes all checks. -/
def accepts (mac : Mac) (psdu : List UInt8) : Option Parsed :=
  if psdu.length < hdrSize + micSize then none
  else if micIsValid cfg psdu mac.snwksintkey mac.fcnt mac.optneg then parseDl cfg mac psdu
  else none

/-- The counters after a packet. -/
def storeCounter (mac : Mac) (pkt : Parsed) : Mac :=
  let mac :=
    if cfg.lorawan11 && pkt.port ≠ 0 then { mac with afcntDown := pkt.fcntDown }
    else { mac with fcntDown := pkt.fcntDown }
  if cfg.lorawan11 then { mac with lastFcntDown := pkt.fcntDown } else mac

/-- What follows when a packet passed the checks. -/
def handlePacket (mac : Mac) (psdu : List UInt8) (pkt : Parsed) : Mac × List Output :=
  let key := if pkt.port ≠ 0 then mac.appskey else mac.nwksenckey
  let payload := pkt.encPayload.map (cfg.encryptPayload key (hdrAddr psdu) (cryptFcnt psdu))
  let fopts := if pkt.encPayload.isSome ∧ pkt.port = 0 then payload else pkt.fopts
  let mac := storeCounter cfg mac pkt
  if mac.waitingForAck && !pkt.ack then (mac, [.noRx])
  else
    let mac := if pkt.ackReq then { mac with ackRequested := true } else mac
    let fopts :=
      if cfg.lorawan11 && mac.optneg then
        if pkt.port ≠ 0 then fopts.map (cfg.encryptFopts mac.nwksenckey mac.devAddr mac.afcntDown true)
        else fopts.map (cfg.encryptFopts mac.nwksenckey mac.devAddr mac.fcntDown false)
      else fopts
    (mac, fopts.toList.map .fopts ++ [.endOfTx] ++ (if pkt.framePending then [.scheduleUplink] else []) ++
      (if pkt.port ≠ 0 then [.indication pkt.ackReq pkt.port (payload.getD [])] else []))

def mcpsProcessDownlink (mac : Mac) (psdu : List UInt8) : Mac × List Output :=
  if psdu.length < hdrSize + micSize then (mac, [])
  else
    match accepts cfg mac psdu with
    | none => (mac, [.noRx])
    | some pkt => handlePacket cfg mac psdu pkt

/-! ## A session -/

/-- The MAC, and the packets that passed the checks so far, in order. -/
structure Session where
  mac : Mac
  accepted : List (List UInt8)

inductive Event where
  | downlink (psdu : List UInt8)
  /-- What else the MAC does in a session: it sends, and waits for and is asked for acknowledgements. -/
  | other (fcnt : UInt32) (ackRequested waitingForAck : Bool)

def step (s : Session) : Event → Option Session
  | .downlink psdu =>
    some {
      mac := (mcpsProcessDownlink cfg s.mac psdu).1
      accepted := s.accepted ++ if (accepts cfg s.mac psdu).isSome then [psdu] else [] }
  | .other fcnt ackRequested waitingForAck =>
    some { s with mac := { s.mac with
      fcnt := fcnt, ackRequested := ackRequested, waitingForAck := waitingForAck } }

/-- The packets of one of the counters that passed the checks. -/
def ofDomain (accepted : List (List UInt8)) (application : Bool) : List (List UInt8) :=
  accepted.filter fun psdu => isApplication cfg psdu = application

/-- **What is relied on**: the packets that passed the checks have increasing counters. Where
`counterOf` is the 32 bit counter the network sent a packet with. -/
def Increasing (counterOf : List UInt8 → UInt32) (s : Session) : Prop :=
  ∀ application, ((ofDomain cfg s.accepted application).map counterOf).Pairwise (· < ·)

/-- Nobody else can send packets whose MIC is valid: they were sent with the counter it is checked
with. -/
def Unforgeable (counterOf : List UInt8 → UInt32) (key : List UInt8) (optneg : Bool) : Prop :=
  ∀ psdu fcntUp, hdrSize + micSize ≤ psdu.length → micIsValid cfg psdu key fcntUp optneg = true →
    counterOf psdu = micFcnt psdu

/-- The packet has a valid MIC and the address, and its options and its port are in order. -/
structure Authentic (mac : Mac) (psdu : List UInt8) : Prop where
  length : hdrSize + micSize ≤ psdu.length
  mic : micIsValid cfg psdu mac.snwksintkey mac.fcnt mac.optneg = true
  addr : hdrAddr psdu = mac.devAddr
  options : ¬ (0 < hdrFrameOptsLen psdu ∧ pMic psdu ≤ hdrSize + hdrFrameOptsLen psdu)
  port : ¬ (hdrSize + hdrFrameOptsLen psdu < pMic psdu ∧
    (framePort psdu = 0 ∧ 0 < hdrFrameOptsLen psdu ∨ portMax < framePort psdu))

/-- The counter `fcnt` passes the check, when `n` is the counter stored for the network and `d` the one
it is compared with: one that is less than `n` counts as 65535 more, if `n` is large. -/
def InWindow (n d fcnt : Nat) : Prop :=
  if 49151 ≤ n ∧ fcnt < n then d ≤ fcnt + 65535 ∧ fcnt + 49151 ≤ d else d ≤ fcnt ∧ fcnt ≤ d + 16384

/-- The last packet of a counter that passed the checks. -/
def lastOf (s : Session) (application : Bool) : Option (List UInt8) :=
  (ofDomain cfg s.accepted application).getLast?

/-- The packet is not one with a counter that was used before and passes the check again. -/
def NoReplay (counterOf : List UInt8 → UInt32) (s : Session) : Event → Prop
  | .downlink psdu => Authentic cfg s.mac psdu →
    (∃ last, lastOf cfg s (isApplication cfg psdu) = some last ∧ counterOf psdu ≤ counterOf last) →
    ¬ InWindow s.mac.fcntDown.toNat (domainFcntDown cfg s.mac psdu).toNat (counterOf psdu).toNat
  | .other _ _ _ => True

variable {cfg} {mac : Mac} {psdu : List UInt8} {pkt : Parsed} {s s' : Session}
  {counterOf : List UInt8 → UInt32} {key : List UInt8} {optneg : Bool}

/-! ## The counter of a packet -/

theorem upper_and {n : Nat} (h : n < 2 ^ 32) : n &&& 0xFFFF0000 = 2 ^ 16 * (n / 2 ^ 16) := by
  have hmask : 0xFFFF0000 = (2 ^ 16 - 1) <<< 16 := rfl
  apply eq_of_testBit_eq
  intro i
  rw [hmask, testBit_and, testBit_shiftLeft, testBit_two_pow_sub_one, testBit_two_pow_mul,
    testBit_div_two_pow]
  by_cases hi : 16 ≤ i
  · by_cases h32 : i < 32
    · have : i - 16 < 16 := by omega
      simp [hi, this]
    · have hf : n.testBit i = false :=
        Nat.testBit_lt_two_pow (Nat.lt_of_lt_of_le h (Nat.pow_le_pow_right (by decide) (by omega)))
      simp [hi, hf]
  · simp [hi]

theorem toNat_fcntStol (c : UInt32) (s : UInt16) : (fcntStol c s).toNat =
    if 0xFFFF ≤ (c.toNat + 16384) % 2 ^ 32 ∧ s.toNat < c.toNat % 2 ^ 16 then
      (2 ^ 16 * (c.toNat / 2 ^ 16) + s.toNat + 0xFFFF) % 2 ^ 32
    else 2 ^ 16 * (c.toNat / 2 ^ 16) + s.toNat := by
  have hs := s.toNat_lt
  have hbase : (c &&& 0xFFFF0000 ||| s.toUInt32).toNat = 2 ^ 16 * (c.toNat / 2 ^ 16) + s.toNat := by
    rw [UInt32.toNat_or, UInt32.toNat_and, two_pow_add_eq_or_of_lt hs]
    exact congrArg (· ||| s.toNat) (upper_and c.toNat_lt)
  have hlower : (c &&& 0xFFFF).toNat = c.toNat % 2 ^ 16 := by
    exact and_two_pow_sub_one_eq_mod c.toNat 16
  have hcarry : (0xFFFF ≤ c + maxFcntGap ∧ s.toUInt32 < c &&& 0xFFFF) ↔
      0xFFFF ≤ (c.toNat + 16384) % 2 ^ 32 ∧ s.toNat < c.toNat % 2 ^ 16 := by
    rw [UInt32.le_iff_toNat_le, UInt32.lt_iff_toNat_lt, UInt32.toNat_add, hlower]
    rfl
  unfold fcntStol
  by_cases h : 0xFFFF ≤ c + maxFcntGap ∧ s.toUInt32 < c &&& 0xFFFF
  · rw [if_pos h, if_pos (hcarry.mp h), UInt32.toNat_add, hbase]
    rfl
  · rw [if_neg h, if_neg (mt hcarry.mpr h), hbase]

/-- **What is reconstructed of a counter**: it is right exactly if the stored counter has the same
upper half, and nothing is added. -/
theorem fcntStol_eq_iff (c fcnt : UInt32) : fcntStol c fcnt.toUInt16 = fcnt ↔
    fcnt.toNat / 2 ^ 16 = c.toNat / 2 ^ 16 ∧
      ¬ (0xFFFF ≤ (c.toNat + 16384) % 2 ^ 32 ∧ fcnt.toNat % 2 ^ 16 < c.toNat % 2 ^ 16) := by
  have hlow : fcnt.toUInt16.toNat = fcnt.toNat % 2 ^ 16 := UInt32.toNat_toUInt16 fcnt
  rw [← UInt32.toNat_inj, toNat_fcntStol, hlow]
  split
  case isTrue hcarry =>
    refine ⟨fun heq => ?_, fun h => absurd hcarry h.2⟩
    omega
  case isFalse hcarry =>
    refine ⟨fun heq => ⟨?_, hcarry⟩, fun h => ?_⟩
    · omega
    · omega

theorem inWindow_iff {n d : UInt32} {f : UInt16} (hn : n.toNat < 2 ^ 16) :
    ¬ (fcntStol n f < d ∨ d + maxFcntGap < fcntStol n f) ↔ InWindow n.toNat d.toNat f.toNat := by
  have hf := f.toNat_lt
  have hadd : (d + maxFcntGap).toNat = (d.toNat + 16384) % 2 ^ 32 := UInt32.toNat_add d maxFcntGap
  have hmod : n.toNat % 2 ^ 16 = n.toNat := mod_eq_of_lt hn
  have hdiv : n.toNat / 2 ^ 16 = 0 := div_eq_of_lt hn
  have hcarry : (0xFFFF ≤ (n.toNat + 16384) % 2 ^ 32 ∧ f.toNat < n.toNat) ↔ 49151 ≤ n.toNat ∧ f.toNat < n.toNat := by
    omega
  rw [lt_iff_toNat_lt, lt_iff_toNat_lt, toNat_fcntStol, hadd, hmod, hdiv, InWindow]
  simp only [hcarry]
  split
  · omega
  · omega

/-! ## What passes the checks -/

theorem parseDl_isSome_iff : (parseDl cfg mac psdu).isSome ↔
    hdrAddr psdu = mac.devAddr ∧ ¬ (0 < hdrFrameOptsLen psdu ∧ pMic psdu ≤ hdrSize + hdrFrameOptsLen psdu) ∧
      ¬ (hdrSize + hdrFrameOptsLen psdu < pMic psdu ∧
        (framePort psdu = 0 ∧ 0 < hdrFrameOptsLen psdu ∨ portMax < framePort psdu)) ∧
      ¬ (fcntStol mac.fcntDown (hdrFcnt psdu) < domainFcntDown cfg mac psdu ∨
        domainFcntDown cfg mac psdu + maxFcntGap < fcntStol mac.fcntDown (hdrFcnt psdu)) := by
  unfold parseDl
  dsimp only
  split
  case isTrue h => exact ⟨fun hs => absurd hs (by decide), fun h' => absurd h'.1 h⟩
  case isFalse haddr =>
    have haddr := not_not.mp haddr
    rw [and_iff_right haddr]
    split
    case isTrue h => exact ⟨fun hs => absurd hs (by decide), fun h' => absurd h h'.1⟩
    case isFalse hopts =>
      rw [and_iff_right hopts]
      split
      case isTrue h => exact ⟨fun hs => absurd hs (by decide), fun h' => absurd h h'.1⟩
      case isFalse hport =>
        rw [and_iff_right hport]
        split
        case isTrue h => exact ⟨fun hs => absurd hs (by decide), fun h' => absurd h h'⟩
        case isFalse h => exact ⟨fun _ => h, fun _ => rfl⟩

theorem parseDl_eq_some (h : parseDl cfg mac psdu = some pkt) :
    pkt.fcntDown = fcntStol mac.fcntDown (hdrFcnt psdu) ∧ pkt.port = framePort psdu := by
  unfold parseDl at h
  dsimp only at h
  split at h
  · cases h
  · split at h
    · cases h
    · split at h
      · cases h
      · split at h
        · cases h
        · obtain rfl := Option.some.inj h
          dsimp only
          exact ⟨rfl, rfl⟩

/-- **A packet passes the checks exactly if it is authentic and its counter is in the window.** -/
theorem accepts_isSome_iff (hn : mac.fcntDown.toNat < 2 ^ 16) : (accepts cfg mac psdu).isSome ↔
    Authentic cfg mac psdu ∧
      InWindow mac.fcntDown.toNat (domainFcntDown cfg mac psdu).toNat (hdrFcnt psdu).toNat := by
  rw [← inWindow_iff hn]
  unfold accepts
  split
  case isTrue h => exact ⟨fun hs => absurd hs (by decide), fun h' => absurd h (Nat.not_lt.mpr h'.1.length)⟩
  case isFalse hlen =>
    split
    case isTrue hmic =>
      rw [parseDl_isSome_iff]
      constructor
      · rintro ⟨haddr, hopts, hport, hwin⟩
        exact ⟨⟨Nat.le_of_not_lt hlen, hmic, haddr, hopts, hport⟩, hwin⟩
      · rintro ⟨hauth, hwin⟩
        exact ⟨hauth.addr, hauth.options, hauth.port, hwin⟩
    case isFalse hmic => exact ⟨fun hs => absurd hs (by decide), fun h' => absurd h'.1.mic hmic⟩

theorem accepts_eq_some (h : accepts cfg mac psdu = some pkt) : hdrSize + micSize ≤ psdu.length ∧
    micIsValid cfg psdu mac.snwksintkey mac.fcnt mac.optneg = true ∧
    pkt.fcntDown = fcntStol mac.fcntDown (hdrFcnt psdu) ∧ pkt.port = framePort psdu := by
  unfold accepts at h
  split at h
  case isTrue => cases h
  case isFalse hlen =>
    split at h
    case isTrue hmic => exact ⟨Nat.le_of_not_lt hlen, hmic, parseDl_eq_some h⟩
    case isFalse => cases h

/-! ## What a packet does to the counters -/

theorem storeCounter_fcntDown : (storeCounter cfg mac pkt).fcntDown =
    if cfg.lorawan11 && pkt.port ≠ 0 then mac.fcntDown else pkt.fcntDown := by
  unfold storeCounter
  split <;> split <;> rfl

/-- What is kept of the MAC when a packet is handled. -/
structure SameSession (mac mac' : Mac) : Prop where
  key : mac'.snwksintkey = mac.snwksintkey
  optneg : mac'.optneg = mac.optneg

theorem handlePacket_counters : SameSession mac (handlePacket cfg mac psdu pkt).1 ∧
    (handlePacket cfg mac psdu pkt).1.fcntDown = (storeCounter cfg mac pkt).fcntDown ∧
    (handlePacket cfg mac psdu pkt).1.afcntDown = (storeCounter cfg mac pkt).afcntDown := by
  have hkey : (storeCounter cfg mac pkt).snwksintkey = mac.snwksintkey := by
    unfold storeCounter
    split <;> split <;> rfl
  have hoptneg : (storeCounter cfg mac pkt).optneg = mac.optneg := by
    unfold storeCounter
    split <;> split <;> rfl
  unfold handlePacket
  dsimp only
  split
  · exact ⟨⟨hkey, hoptneg⟩, rfl, rfl⟩
  · dsimp only
    split
    · exact ⟨⟨hkey, hoptneg⟩, rfl, rfl⟩
    · exact ⟨⟨hkey, hoptneg⟩, rfl, rfl⟩

theorem mcpsProcessDownlink_none (h : accepts cfg mac psdu = none) : (mcpsProcessDownlink cfg mac psdu).1 = mac := by
  unfold mcpsProcessDownlink
  split
  · rfl
  · rw [h]

theorem mcpsProcessDownlink_some (h : accepts cfg mac psdu = some pkt) :
    mcpsProcessDownlink cfg mac psdu = handlePacket cfg mac psdu pkt := by
  unfold mcpsProcessDownlink
  rw [if_neg (Nat.not_lt.mpr (accepts_eq_some h).1), h]

/-! ## The packets of a session -/

/-- What holds of a session: the counter stored for the network is the one of its last packet; the one
for the applications too, or that is 65535 more. -/
structure Inv (cfg : Cfg) (counterOf : List UInt8 → UInt32) (key : List UInt8) (optneg : Bool) (s : Session) :
    Prop where
  key : s.mac.snwksintkey = key
  optneg : s.mac.optneg = optneg
  small : s.mac.fcntDown.toNat < 2 ^ 16
  net : ∀ last, lastOf cfg s false = some last → s.mac.fcntDown = counterOf last
  first : lastOf cfg s false = none → s.mac.fcntDown = 0

theorem ofDomain_append (accepted : List (List UInt8)) (application : Bool) :
    ofDomain cfg (accepted ++ [psdu]) application =
      ofDomain cfg accepted application ++ if isApplication cfg psdu = application then [psdu] else [] := by
  unfold ofDomain
  rw [filter_append, filter_cons, filter_nil]
  by_cases h : isApplication cfg psdu = application
  · rw [if_pos h, if_pos (decide_eq_true h)]
  · rw [if_neg h, if_neg (by simpa using h)]

/-- A list grows in order exactly if what is put behind it is larger than its last element. -/
theorem pairwise_append_singleton {l : List UInt32} {x : UInt32} (h : l.Pairwise (· < ·)) :
    (l ++ [x]).Pairwise (· < ·) ↔ ∀ y, l.getLast? = some y → y < x := by
  rw [pairwise_append]
  constructor
  · rintro ⟨-, -, hlt⟩ y hy
    exact hlt y (mem_of_getLast? hy) x (mem_singleton_self x)
  · intro hlast
    refine ⟨h, pairwise_singleton _ _, fun y hy z hz => ?_⟩
    rw [mem_singleton.mp hz]
    obtain ⟨init, last, rfl⟩ : ∃ init last, l = init ++ [last] :=
      ⟨l.dropLast, l.getLast (ne_nil_of_mem hy), (dropLast_concat_getLast _).symm⟩
    have hx := hlast last getLast?_concat
    rcases mem_append.mp hy with hy | hy
    · exact UInt32.lt_trans ((pairwise_append.mp h).2.2 y hy last (mem_singleton_self last)) hx
    · rw [mem_singleton.mp hy]
      exact hx

/-- The counters stay in order exactly if a packet that passes the checks has a larger one than the
last of its kind. -/
theorem increasing_append_iff (h : Increasing cfg counterOf s) (mac : Mac) :
    Increasing cfg counterOf ⟨mac, s.accepted ++ [psdu]⟩ ↔
      ∀ last, lastOf cfg s (isApplication cfg psdu) = some last → counterOf last < counterOf psdu := by
  have hlast : (∀ y, ((ofDomain cfg s.accepted (isApplication cfg psdu)).map counterOf).getLast? = some y →
      y < counterOf psdu) ↔
      ∀ last, lastOf cfg s (isApplication cfg psdu) = some last → counterOf last < counterOf psdu := by
    rw [getLast?_map]
    constructor
    · intro hy last hl
      exact hy _ (by rw [show (ofDomain cfg s.accepted (isApplication cfg psdu)).getLast? = some last from hl]; rfl)
    · intro hl y hy
      obtain ⟨last, hlast, rfl⟩ := Option.map_eq_some_iff.mp hy
      exact hl last hlast
  rw [← hlast, ← pairwise_append_singleton (h _)]
  constructor
  · intro hinc
    have hd := hinc (isApplication cfg psdu)
    rwa [ofDomain_append, if_pos rfl, map_append] at hd
  · intro hinc application
    rw [ofDomain_append]
    by_cases heq : isApplication cfg psdu = application
    · rw [if_pos heq, map_append, ← heq]
      exact hinc
    · rw [if_neg heq, append_nil]
      exact h application

/-- Step lemma: what has been in order stays so exactly if no packet is replayed. -/
theorem Inv.noReplay_iff {e : Event} (h : Inv cfg counterOf key optneg s)
    (hmic : Unforgeable cfg counterOf key optneg) (hinc : Increasing cfg counterOf s)
    (hs : step cfg s e = some s') : NoReplay cfg counterOf s e ↔ Increasing cfg counterOf s' := by
  cases e with
  | other fcnt ackRequested waitingForAck =>
    cases hs
    exact ⟨fun _ => hinc, fun _ => trivial⟩
  | downlink psdu =>
    cases hs
    have haccepts := @accepts_isSome_iff cfg s.mac psdu h.small
    have hcounter (hauth : Authentic cfg s.mac psdu) : (counterOf psdu).toNat = (hdrFcnt psdu).toNat := by
      have hvalid := hauth.mic
      rw [h.key, h.optneg] at hvalid
      rw [hmic psdu s.mac.fcnt hauth.length hvalid]
      rfl
    cases ha : accepts cfg s.mac psdu with
    | none =>
      rw [ha] at haccepts
      refine ⟨fun _ => ?_, fun _ hauth _ hwin => ?_⟩
      · show Increasing cfg counterOf ⟨_, s.accepted ++ []⟩
        rw [append_nil]
        exact hinc
      · rw [hcounter hauth] at hwin
        exact absurd (haccepts.mpr ⟨hauth, hwin⟩) (by decide)
    | some pkt =>
      rw [ha] at haccepts
      obtain ⟨hauth, hwin⟩ := haccepts.mp rfl
      show _ ↔ Increasing cfg counterOf ⟨_, s.accepted ++ [psdu]⟩
      rw [increasing_append_iff hinc]
      rw [← hcounter hauth] at hwin
      constructor
      · intro hno last hlast
        exact UInt32.not_le.mp fun hle => hno hauth ⟨last, hlast, hle⟩ hwin
      · rintro hlt - ⟨last, hlast, hle⟩ -
        exact absurd (hlt last hlast) (UInt32.not_lt.mpr hle)

theorem Inv.step {e : Event} (h : Inv cfg counterOf key optneg s) (hmic : Unforgeable cfg counterOf key optneg)
    (hinc : Increasing cfg counterOf s) (hno : NoReplay cfg counterOf s e) (hs : step cfg s e = some s') :
    Inv cfg counterOf key optneg s' := by
  have hinc' := (h.noReplay_iff hmic hinc hs).mp hno
  cases e with
  | other fcnt ackRequested waitingForAck =>
    cases hs
    exact ⟨h.key, h.optneg, h.small, h.net, h.first⟩
  | downlink psdu =>
    cases hs
    cases ha : accepts cfg s.mac psdu with
    | none =>
      simp only [mcpsProcessDownlink_none ha, Option.isSome_none, Bool.false_eq_true, if_false, append_nil]
      exact h
    | some pkt =>
      obtain ⟨hlen, hvalid, hfcnt, hport⟩ := accepts_eq_some ha
      rw [h.key, h.optneg] at hvalid
      have hcounter : counterOf psdu = micFcnt psdu := hmic psdu s.mac.fcnt hlen hvalid
      obtain ⟨hsame, hfcntDown, -⟩ := @handlePacket_counters cfg s.mac psdu pkt
      simp only [mcpsProcessDownlink_some ha, ha, Option.isSome_some, if_true] at hinc' ⊢
      rw [storeCounter_fcntDown, hport] at hfcntDown
      have hlast (application : Bool) : lastOf cfg ⟨(handlePacket cfg s.mac psdu pkt).1, s.accepted ++ [psdu]⟩
          application = if isApplication cfg psdu = application then some psdu else lastOf cfg s application := by
        unfold lastOf
        rw [ofDomain_append]
        by_cases heq : isApplication cfg psdu = application
        · rw [if_pos heq, if_pos heq, getLast?_concat]
        · rw [if_neg heq, if_neg heq, append_nil]
      by_cases happ : isApplication cfg psdu = true
      · -- the other counter is not touched
        have hif : (cfg.lorawan11 && decide (framePort psdu ≠ 0)) = true := happ
        rw [if_pos hif] at hfcntDown
        have hnet := hlast false
        rw [happ, if_neg (by decide)] at hnet
        refine ⟨hsame.key.trans h.key, hsame.optneg.trans h.optneg, ?_, ?_, ?_⟩
        · rw [hfcntDown]
          exact h.small
        · intro last hl
          rw [hfcntDown]
          exact h.net last (hnet ▸ hl)
        · intro hl
          rw [hfcntDown]
          exact h.first (hnet ▸ hl)
      · have happ := Bool.eq_false_iff.mpr happ
        have hif : ¬ (cfg.lorawan11 && decide (framePort psdu ≠ 0)) = true := fun h => by
          rw [show (cfg.lorawan11 && decide (framePort psdu ≠ 0)) = false from happ] at h
          exact absurd h (by decide)
        have hnet := hlast false
        rw [happ, if_pos rfl] at hnet
        -- the counter is not less than the stored one, so that nothing is added to it
        have hle : s.mac.fcntDown.toNat ≤ (hdrFcnt psdu).toNat := by
          cases hl : lastOf cfg s false with
          | none =>
            rw [h.first hl]
            exact zero_le _
          | some last =>
            have hlt := (increasing_append_iff hinc _).mp hinc' last (by rw [happ]; exact hl)
            rw [← h.net last hl, hcounter, lt_iff_toNat_lt] at hlt
            exact Nat.le_of_lt hlt
        have hstored : (handlePacket cfg s.mac psdu pkt).1.fcntDown = micFcnt psdu := by
          rw [hfcntDown, if_neg hif, hfcnt, ← UInt32.toNat_inj, toNat_fcntStol, div_eq_of_lt h.small,
            Nat.mod_eq_of_lt h.small, if_neg (by omega), Nat.mul_zero, Nat.zero_add]
          rfl
        refine ⟨hsame.key.trans h.key, hsame.optneg.trans h.optneg, ?_, ?_, ?_⟩
        · rw [hstored]
          exact (hdrFcnt psdu).toNat_lt
        · intro last hl
          rw [hnet] at hl
          rw [hstored, ← Option.some.inj hl, hcounter]
        · intro hl
          rw [hnet] at hl
          cases hl

/-- A session begins: `gnrc_lorawan_mcps_reset` -/
def startSession (mac : Mac) : Session where
  mac := { mac with fcnt := 0, fcntDown := 0, ackRequested := false, waitingForAck := false }
  accepted := []

theorem inv_startSession (mac : Mac) : Inv cfg counterOf mac.snwksintkey mac.optneg (startSession mac) :=
  ⟨rfl, rfl, Nat.two_pow_pos 16, fun _ h => (by cases h), fun _ => rfl⟩

/-- The counter that is reconstructed of a packet, and those its MIC is checked and its payload is
decrypted with. -/
structure UsesCounter (mac : Mac) (psdu : List UInt8) (fcnt : UInt32) : Prop where
  stol : fcntStol mac.fcntDown (hdrFcnt psdu) = fcnt
  mic : micFcnt psdu = fcnt
  crypt : cryptFcnt psdu = fcnt

/-- **The counter of a packet above the stored one** is the one that is used exactly if it has no upper
half, and nothing is added to it on account of the network's counter. -/
theorem usesCounter_iff {fcnt : UInt32} (hhdr : hdrFcnt psdu = fcnt.toUInt16)
    (hlt : domainFcntDown cfg mac psdu < fcnt) :
    UsesCounter mac psdu fcnt ↔ fcnt.toNat < 2 ^ 16 ∧
      (isApplication cfg psdu = true → mac.fcntDown.toNat < 2 ^ 16 ∧
        ¬ (49151 ≤ mac.fcntDown.toNat ∧ fcnt.toNat < mac.fcntDown.toNat)) := by
  have hmic : micFcnt psdu = fcnt ↔ fcnt.toNat < 2 ^ 16 := by
    have hlow : (micFcnt psdu).toNat = fcnt.toNat % 2 ^ 16 := by
      unfold micFcnt
      rw [hhdr]
      exact toNat_toUInt16 fcnt
    rw [← UInt32.toNat_inj, hlow]
    omega
  have huses : UsesCounter mac psdu fcnt ↔ fcntStol mac.fcntDown fcnt.toUInt16 = fcnt ∧ fcnt.toNat < 2 ^ 16 := by
    rw [← hmic, ← hhdr]
    exact ⟨fun h => ⟨h.stol, h.mic⟩, fun h => ⟨h.1, h.2, h.2⟩⟩
  rw [huses, fcntStol_eq_iff]
  by_cases happ : isApplication cfg psdu = true
  · constructor
    · rintro ⟨⟨hdiv, hadd⟩, hsmall⟩
      refine ⟨hsmall, fun _ => ⟨by omega, fun hcarry => hadd ?_⟩⟩
      omega
    · rintro ⟨hsmall, hand⟩
      obtain ⟨hsmall', hcarry⟩ := hand happ
      refine ⟨⟨by omega, fun hadd => hcarry ?_⟩, hsmall⟩
      omega
  · have hd : domainFcntDown cfg mac psdu = mac.fcntDown := if_neg happ
    rw [hd, lt_iff_toNat_lt] at hlt
    constructor
    · rintro ⟨-, hsmall⟩
      exact ⟨hsmall, fun h => absurd h happ⟩
    · rintro ⟨hsmall, -⟩
      exact ⟨⟨by omega, by omega⟩, hsmall⟩

/-- **Downlink counters.** In a session the packets that pass the checks have increasing counters
exactly as long as none is replayed whose counter is in the window again. And the counter the network
sent a packet with, above the stored one, is used exactly if it fits the 16 bits of the header and
nothing is added to it on account of the network's counter. -/
theorem downlink_counters_iff (cfg : Cfg) (counterOf : List UInt8 → UInt32) (mac : Mac)
    (hmic : Unforgeable cfg counterOf mac.snwksintkey mac.optneg) (es : List Event) :
    (Along (step cfg) (NoReplay cfg counterOf) (startSession mac) es ↔
      Always (step cfg) (Increasing cfg counterOf) (startSession mac) es) ∧
    ∀ (mac : Mac) (psdu : List UInt8) (fcnt : UInt32), hdrFcnt psdu = fcnt.toUInt16 →
      domainFcntDown cfg mac psdu < fcnt →
      (UsesCounter mac psdu fcnt ↔ fcnt.toNat < 2 ^ 16 ∧
        (isApplication cfg psdu = true → mac.fcntDown.toNat < 2 ^ 16 ∧
          ¬ (49151 ≤ mac.fcntDown.toNat ∧ fcnt.toNat < mac.fcntDown.toNat))) := by
  constructor
  · refine along_iff_always (I := Inv cfg counterOf mac.snwksintkey mac.optneg)
      (fun s e s' h hinc hs => h.noReplay_iff hmic hinc hs)
      (fun s e s' h hinc hno hs => h.step hmic hinc hno hs) es (inv_startSession mac) ?_
    intro application
    exact List.Pairwise.nil
  · intro mac psdu fcnt hhdr hlt
    exact usesCounter_iff hhdr hlt

/-- LoRaWAN 1.0, with a MIC that consists of the counter. -/
def plainCfg : Cfg where
  lorawan11 := false
  mic := fun _ block _ => [block.fcnt.toUInt8, (block.fcnt >>> 8).toUInt8, 0, 0]
  encryptPayload := fun _ _ _ bytes => bytes
  encryptFopts := fun _ _ _ _ bytes => bytes

def plainMac : Mac := ⟨[1, 2, 3, 4], [], [], [], false, 0, 0, 0, 0, false, false⟩

/-- A packet with one byte for port 10. -/
def packet (fcnt : UInt8) : List UInt8 := [0x60, 1, 2, 3, 4, 0, fcnt, 0, 10, 0xAA, fcnt, 0, 0, 0]

theorem downlink_counters_iff_packets : Always (step plainCfg) (Increasing plainCfg micFcnt)
    (startSession plainMac) [.downlink (packet 1), .downlink (packet 3)] := by
  refine ((downlink_counters_iff plainCfg micFcnt plainMac (fun _ _ _ _ => rfl)
    [.downlink (packet 1), .downlink (packet 3)]).1).mp ⟨?_, ?_, trivial⟩
  · rintro - ⟨last, hlast, -⟩
    exact absurd (Option.isSome_of_eq_some hlast) (by decide)
  · rintro - ⟨last, hlast, hle⟩
    obtain rfl : packet 1 = last := Option.some.inj hlast
    exact absurd hle (by decide)

/-- **The newest packet passes the checks again, and crossing a multiple of 65536 is reconstructed one
too low.** -/
theorem not_downlink_counters :
    (∃ s, run (step plainCfg) (startSession plainMac) [.downlink (packet 1), .downlink (packet 1)] = some s ∧
      s.accepted = [packet 1, packet 1] ∧ ¬ Increasing plainCfg micFcnt s) ∧
    fcntStol 65535 (UInt32.toUInt16 65536) = 65535 := by
  refine ⟨⟨_, rfl, by decide, fun h => ?_⟩, by decide⟩
  have hpair := h false
  revert hpair
  decide

end Riot.Lorawan
