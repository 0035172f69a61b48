import Riot.Nanocoap.Builder
import Riot.Nanocoap.ParseSound

/-!
# Handling requests (`coap_handle_req`)

Resources are looked up by path, their handlers are arbitrary functions of the
memory and the packet. A violated assertion has no result. Two expressions are
undefined and may have any value: a flag shifted by -1, which is computed for an
empty code, and whether the endpoint `NULL` is a multicast one.
-/

namespace Riot.Nanocoap

open Riot.Lib Memory Option

def ECANCELED : Int := 125

def coapTypeCon : Nat := 0
def coapTypeNon : Nat := 1
def coapTypeAck : Nat := 2
def coapTypeRst : Nat := 3

def coapOptUriPath : Nat := 11

def coapOptNoResponse : Nat := 258

def coapCodeEmpty : Nat := 0

def coapCodePathNotFound : Nat := 4 <<< 5 ||| 4

def coapCodeMethodNotAllowed : Nat := 4 <<< 5 ||| 5

def coapMatchSubtree : Nat := 0x8000

/-- Configuration of a server; `coap_opt_get_string` asserts that there is room for
more than the end of a string. -/
structure ServerCfg extends Cfg where
  /-- `CONFIG_NANOCOAP_URI_MAX` -/
  uriMax : Nat
  uriMax_gt : 1 < uriMax

/-- The values of undefined expressions. -/
structure Undefined where
  shiftNegative : Nat
  multicastNull : Bool

/-- Memory and packet of a request. -/
structure Request where
  mem : Memory UInt8
  pkt : Pkt

/-- `coap_resource_t`; `path` is without the end of the string. -/
structure Resource where
  path : List UInt8
  methods : Nat
  handler : Request → Int × Request

/-! ## Header fields -/

def coapGetType (σ : Request) : Nat := ((σ.mem σ.pkt.buf &&& 0x30) >>> 4).toNat

def coapGetCodeRaw (σ : Request) : Nat := (σ.mem (σ.pkt.buf + 1)).toNat

def coapGetId (σ : Request) : Nat :=
  256 * (σ.mem (σ.pkt.buf + 2)).toNat + (σ.mem (σ.pkt.buf + 3)).toNat

/-- `coap_method2flag`, 16 bits wide. -/
def coapMethod2flag (u : Undefined) (code : Nat) : Nat :=
  if code = 0 then u.shiftNegative % 2 ^ 16 else 1 <<< (code - 1) % 2 ^ 16

/-! ## Options -/

/-- The loop of `coap_opt_get_string`, for at most `fuel` parts: result and string. Each
part takes a byte of what is left, so that there is always fuel. -/
def getString (mem : Memory UInt8) (pkt : Pkt) (optNum maxLen : Nat) (separator : UInt8) :
    Nat → Nat → Nat → List UInt8 → Int × List UInt8
  | fuel, left, optPos, target =>
    match coapIterateOption mem pkt optNum optPos with
    | (partStart, optLen, optPos) =>
      if partStart = 0 then
        if optPos = 0 then ((maxLen : Int) - (left - 1 - 1 : Int), target ++ [separator])
        else ((maxLen : Int) - (left - 1 : Int), target)
      else if left < ((optLen + 2) % 2 ^ 32).toNat then (-ENOSPC, target)
      else
        match fuel with
        | 0 => (-ENOSPC, target)
        | fuel + 1 =>
          getString mem pkt optNum maxLen separator fuel (left - (optLen.toNat + 1)) optPos
            (target ++ separator :: slice mem partStart optLen.toNat)

/-- `coap_get_uri_path`: result, string, and the packet with the option marked as
processed. -/
def coapGetUriPath (cfg : ServerCfg) (mem : Memory UInt8) (pkt : Pkt) : Int × List UInt8 × Pkt :=
  match getString mem pkt coapOptUriPath cfg.uriMax 47 cfg.uriMax cfg.uriMax 0 [] with
  | (r, uri) => (r, uri, (coapFindOption pkt coapOptUriPath).2)

/-- `coap_match_path`: whether it returns 0. Strings end at their first zero. -/
def coapMatchPath (resource : Resource) (uri : List UInt8) : Bool :=
  let uri := uri.takeWhile (· ≠ 0)
  if resource.methods &&& coapMatchSubtree ≠ 0 then resource.path.isPrefixOf uri else uri == resource.path

/-! ## Replies -/

def coapBuildReply (cfg : Cfg) (σ : Request) (code rbuf rlen maxDataLen : Nat) : Option (Int × Request) :=
  let rd := fun a => some (σ.mem a)
  match coapHdrGetTokenLen cfg rd σ.pkt.buf, coapGetTotalHdrLen cfg rd σ.pkt.buf,
      coapHdrDataPtr cfg rd σ.pkt.buf with
  | some tkl, some hdrLen, some token =>
    let type :=
      if code = 0 then coapTypeRst else if coapGetType σ = coapTypeCon then coapTypeAck else coapTypeNon
    let len := if code = 0 then udpHdrSize else hdrLen
    let tkl := if code = 0 then 0 else tkl
    if rlen < (len + maxDataLen) % 2 ^ 32 then some (-ENOSPC, σ)
    else
      match coapOptGetUint σ.mem σ.pkt coapOptNoResponse with
      | (r, noResponse, pkt) =>
        let noResponseIndex := (code >>> 5 + (2 ^ 32 - 1)) % 2 ^ 8
        if r = 0 ∧ 7 ≤ noResponseIndex then none
        else if r = 0 ∧ noResponse &&& (1 <<< noResponseIndex) % 2 ^ 8 ≠ 0 then
          some (-ECANCELED, { σ with pkt := pkt })
        else
          (coapBuildUdpHdr cfg σ.mem rbuf rlen type token tkl (UInt8.ofNat code) (coapGetId σ)).map
            fun (_, mem) => ((len + maxDataLen : Nat), { mem := mem, pkt := { pkt with buf := rbuf } })
  | _, _, _ => none

def coapBuildEmptyAck (cfg : Cfg) (σ : Request) (ack : Nat) : Option (Int × Request) :=
  if coapGetType σ ≠ coapTypeCon then some (0, σ)
  else
    (coapBuildUdpHdr cfg σ.mem ack udpHdrSize coapTypeAck 0 0 0 (coapGetId σ)).map
      fun (r, mem) => (r, { σ with mem := mem })

/-! ## Requests -/

def coapTreeHandler (cfg : ServerCfg) (u : Undefined) (σ : Request) (respBuf respBufLen : Nat)
    (resources : List Resource) : Option (Int × Request) :=
  let methodFlag := coapMethod2flag u (coapGetCodeRaw σ &&& 0x1f)
  match coapGetUriPath cfg σ.mem σ.pkt with
  | (r, uri, pkt) =>
    let σ := { σ with pkt := pkt }
    if r ≤ 0 then some (-EBADMSG, σ)
    else
      match resources.find? fun resource => coapMatchPath resource uri with
      | some resource =>
        if resource.methods &&& methodFlag = 0 then
          coapBuildReply cfg.toCfg σ coapCodeMethodNotAllowed respBuf respBufLen 0
        else some (resource.handler σ)
      | none => coapBuildReply cfg.toCfg σ coapCodePathNotFound respBuf respBufLen 0

/-- `sock_udp_ep_is_multicast`; `none` is `NULL`. -/
def sockUdpEpIsMulticast (u : Undefined) (ep : Option Bool) : Bool := ep.getD u.multicastNull

/-- `coap_handle_req`; `localEp` says whether the endpoint that the request came in at is a
multicast one, `none` is `NULL`. -/
def coapHandleReq (cfg : ServerCfg) (u : Undefined) (σ : Request) (respBuf respBufLen : Nat)
    (localEp : Option Bool) (resources : List Resource) : Option (Int × Request) :=
  if coapGetType σ ≠ coapTypeCon ∧ coapGetType σ ≠ coapTypeNon then some (-EBADMSG, σ)
  else if coapGetCodeRaw σ >>> 5 ≠ 0 then some (-EBADMSG, σ)
  else if coapGetCodeRaw σ = coapCodeEmpty ∧ ¬ sockUdpEpIsMulticast u localEp then
    coapBuildReply cfg.toCfg σ coapCodeEmpty respBuf respBufLen 0
  else
    match coapTreeHandler cfg u σ respBuf respBufLen resources with
    | none => none
    | some (retval, σ) =>
      if retval < 0 then
        if retval = -ECANCELED then
          if coapGetType σ = coapTypeCon then coapBuildEmptyAck cfg.toCfg σ respBuf else some (0, σ)
        else if localEp ≠ some true then coapBuildReply cfg.toCfg σ coapCodeEmpty respBuf respBufLen 0
        else some (retval, σ)
      else some (retval, σ)

/-! ## When replies are built -/

/-- The token length cannot be read. -/
def BadTkl (cfg : Cfg) (σ : Request) : Prop :=
  cfg.tokenExt = true ∧ (σ.mem σ.pkt.buf &&& 0x0f).toNat = 15

/-- The header of a reply with the token of the request does not fit. -/
def NoRoom (cfg : Cfg) (σ : Request) (rlen : Nat) : Prop :=
  ∃ hdrLen, coapGetTotalHdrLen cfg (fun a => some (σ.mem a)) σ.pkt.buf = some hdrLen ∧ rlen < hdrLen

/-- A reset cannot be sent: a No-Response option is found where there is no class of the
reply to look up in it. -/
def ResetAsserts (cfg : Cfg) (σ : Request) (rlen : Nat) : Prop :=
  BadTkl cfg σ ∨ udpHdrSize ≤ rlen ∧ (coapOptGetUint σ.mem σ.pkt coapOptNoResponse).1 = 0

/-- The request, and the resource for it if there is one, once the path was read. -/
def afterPath (cfg : ServerCfg) (σ : Request) : Request :=
  { σ with pkt := (coapGetUriPath cfg σ.mem σ.pkt).2.2 }

def findResource (cfg : ServerCfg) (σ : Request) (resources : List Resource) : Option Resource :=
  resources.find? fun resource => coapMatchPath resource (coapGetUriPath cfg σ.mem σ.pkt).2.1

/-- The resource allows the method of the request. -/
def Allows (u : Undefined) (σ : Request) (resource : Resource) : Prop :=
  resource.methods &&& coapMethod2flag u (coapGetCodeRaw σ &&& 0x1f) ≠ 0

/-- A request fails and leaves a packet behind: its path is unreadable, there is no
room to say that there is nothing at the path, or the handler fails. -/
inductive Fails (cfg : ServerCfg) (u : Undefined) (σ : Request) (rlen : Nat) (resources : List Resource) :
    Request → Prop
  | path (h : (coapGetUriPath cfg σ.mem σ.pkt).1 ≤ 0) : Fails cfg u σ rlen resources (afterPath cfg σ)
  | noRoom (h : 0 < (coapGetUriPath cfg σ.mem σ.pkt).1)
      (hres : ∀ resource, findResource cfg σ resources = some resource → ¬ Allows u σ resource)
      (hroom : NoRoom cfg.toCfg (afterPath cfg σ) rlen) : Fails cfg u σ rlen resources (afterPath cfg σ)
  | handler (resource : Resource) (h : 0 < (coapGetUriPath cfg σ.mem σ.pkt).1)
      (hres : findResource cfg σ resources = some resource) (hallow : Allows u σ resource)
      (hneg : (resource.handler (afterPath cfg σ)).1 < 0)
      (hne : (resource.handler (afterPath cfg σ)).1 ≠ -ECANCELED) :
      Fails cfg u σ rlen resources (resource.handler (afterPath cfg σ)).2

/-- The request fails, which is answered by a reset, and that cannot be sent. -/
def FailsUnsafely (cfg : ServerCfg) (u : Undefined) (σ : Request) (rlen : Nat) (localEp : Option Bool)
    (resources : List Resource) : Prop :=
  (coapGetType σ = coapTypeCon ∨ coapGetType σ = coapTypeNon) ∧ coapGetCodeRaw σ >>> 5 = 0 ∧
    (coapGetCodeRaw σ = coapCodeEmpty → sockUdpEpIsMulticast u localEp = true) ∧ localEp ≠ some true ∧
    ∃ τ, Fails cfg u σ rlen resources τ ∧ ResetAsserts cfg.toCfg τ rlen

variable {cfg : Cfg} {scfg : ServerCfg} {u : Undefined} {σ σ' : Request} {rbuf rlen code : Nat}
  {localEp : Option Bool} {resources : List Resource}

theorem coapHdrTklExtLen_none {b : UInt8} :
    coapHdrTklExtLen cfg b = none ↔ cfg.tokenExt = true ∧ (b &&& 0x0f).toNat = 15 := by
  unfold coapHdrTklExtLen
  split
  · simp_all
  · dsimp only
    split_ifs <;> simp_all

theorem header_of_not_badTkl (h : ¬ BadTkl cfg σ) : ∃ tkl hdrLen token,
    coapHdrGetTokenLen cfg (fun a => some (σ.mem a)) σ.pkt.buf = some tkl ∧
    coapGetTotalHdrLen cfg (fun a => some (σ.mem a)) σ.pkt.buf = some hdrLen ∧
    coapHdrDataPtr cfg (fun a => some (σ.mem a)) σ.pkt.buf = some token := by
  obtain ⟨ext, hext⟩ := ne_none_iff_exists'.mp fun hn => h (coapHdrTklExtLen_none.mp hn)
  obtain ⟨tkl, htkl⟩ : ∃ tkl, coapHdrGetTokenLen cfg (fun a => some (σ.mem a)) σ.pkt.buf = some tkl := by
    unfold coapHdrGetTokenLen
    rw [bind_some, hext, bind_some]
    split_ifs <;> exact ⟨_, rfl⟩
  obtain ⟨token, htoken⟩ : ∃ token, coapHdrDataPtr cfg (fun a => some (σ.mem a)) σ.pkt.buf = some token := by
    unfold coapHdrDataPtr
    rw [bind_some, hext]
    split <;> exact ⟨_, rfl⟩
  refine ⟨tkl, udpHdrSize + ext + tkl, token, htkl, ?_, htoken⟩
  rw [coapGetTotalHdrLen, bind_some, hext, bind_some, htkl, map_some]

theorem coapBuildUdpHdr_isSome {mem : Memory UInt8} {buf bufLen type token tokenLen id : Nat} {code : UInt8}
    (ht : type ≤ 3) : (coapBuildUdpHdr cfg mem buf bufLen type token tokenLen code id).isSome := by
  unfold coapBuildUdpHdr
  rw [if_neg (by omega)]
  dsimp only
  split
  · rfl
  rw [isSome_map]
  unfold coapHdrDataPtr
  split
  case isFalse => rfl
  rename_i hx
  rw [bind_some, isSome_map, isSome_iff_ne_none]
  intro hn
  have hnib := (coapHdrTklExtLen_none.mp hn).2
  have htkl : (tokenLength cfg tokenLen).2 ≤ 14 := by
    unfold tokenLength
    split_ifs
    · exact le_refl _
    · exact Nat.le_succ _
    · rename_i h1 h2
      have := not_and.mp h2
      by_contra hgt
      exact this (by omega) hx
  rw [store_of_lt (by have : udpHdrSize = 4 := rfl; omega), (holds_cons.mp holds_store).1,
    verTTkl_and ht (by omega)] at hnib
  omega

theorem coapGetTotalHdrLen_lt {rd : Nat → Option UInt8} {hdr hdrLen : Nat}
    (h : coapGetTotalHdrLen cfg rd hdr = some hdrLen) : hdrLen < 2 ^ 32 := by
  simp only [coapGetTotalHdrLen, bind_eq_some_iff, map_eq_some_iff] at h
  obtain ⟨b, hb, ext, hext, tkl, htkl, rfl⟩ := h
  have hsize : udpHdrSize = 4 := rfl
  have hext2 : ext ≤ 2 := by
    unfold coapHdrTklExtLen at hext
    dsimp only at hext
    split_ifs at hext <;> simp_all <;> omega
  simp only [coapHdrGetTokenLen, hb, bind_some, hext] at htkl
  have hnib := (b &&& 0x0f).toNat_lt
  split_ifs at htkl
  · cases htkl
    omega
  · obtain ⟨c, -, rfl⟩ := map_eq_some_iff.mp htkl
    have := c.toNat_lt
    omega
  · obtain ⟨c, -, h⟩ := bind_eq_some_iff.mp htkl
    obtain ⟨d, -, rfl⟩ := map_eq_some_iff.mp h
    have := c.toNat_lt
    have := d.toNat_lt
    omega

theorem coapBuildReply_bad (h : BadTkl cfg σ) : coapBuildReply cfg σ code rbuf rlen 0 = none := by
  have hext : coapHdrTklExtLen cfg (σ.mem σ.pkt.buf) = none := coapHdrTklExtLen_none.mpr h
  unfold coapBuildReply
  dsimp only
  rw [coapHdrGetTokenLen, bind_some, hext, bind_none]

/-- **A reset is built unless there is a No-Response option.** -/
theorem coapBuildReply_empty :
    coapBuildReply cfg σ coapCodeEmpty rbuf rlen 0 = none ↔ ResetAsserts cfg σ rlen := by
  unfold ResetAsserts
  by_cases hbad : BadTkl cfg σ
  · simp [coapBuildReply_bad hbad, hbad]
  obtain ⟨tkl, hdrLen, token, htkl, hhdr, htoken⟩ := header_of_not_badTkl hbad
  have h0 : coapCodeEmpty = 0 := rfl
  unfold coapBuildReply
  dsimp only
  rw [htkl, hhdr, htoken]
  dsimp only
  rw [if_pos h0, if_pos h0, if_pos h0, add_zero, Nat.mod_eq_of_lt (by decide)]
  by_cases hlen : rlen < udpHdrSize
  · simp [hbad, hlen]
  rw [if_neg hlen]
  by_cases hr : (coapOptGetUint σ.mem σ.pkt coapOptNoResponse).1 = 0
  · rw [if_pos ⟨hr, by decide⟩]
    simp [hr, not_lt.mp hlen]
  · have hsome := @coapBuildUdpHdr_isSome cfg σ.mem rbuf rlen coapTypeRst token 0 (coapGetId σ)
      (UInt8.ofNat coapCodeEmpty) (by decide)
    rw [isSome_iff_ne_none] at hsome
    simp [hbad, hr, hsome]

theorem coapBuildReply_error (hbad : ¬ BadTkl cfg σ)
    (hcode : code = coapCodePathNotFound ∨ code = coapCodeMethodNotAllowed) :
    ∃ r σ', coapBuildReply cfg σ code rbuf rlen 0 = some (r, σ') ∧
      (r < 0 ∧ r ≠ -ECANCELED ↔ NoRoom cfg σ rlen) ∧ (NoRoom cfg σ rlen → σ' = σ) := by
  obtain ⟨tkl, hdrLen, token, htkl, hhdr, htoken⟩ := header_of_not_badTkl hbad
  have hroom : NoRoom cfg σ rlen ↔ rlen < hdrLen := by
    unfold NoRoom
    rw [hhdr]
    simp
  have hne : code ≠ 0 := by
    obtain rfl | rfl := hcode <;> decide
  have hindex : ¬ 7 ≤ (code >>> 5 + (2 ^ 32 - 1)) % 2 ^ 8 := by
    obtain rfl | rfl := hcode <;> decide
  unfold coapBuildReply
  dsimp only
  rw [htkl, hhdr, htoken]
  dsimp only
  rw [if_neg hne, if_neg hne, if_neg hne, add_zero, Nat.mod_eq_of_lt (coapGetTotalHdrLen_lt hhdr), hroom]
  by_cases hlen : rlen < hdrLen
  · rw [if_pos hlen]
    exact ⟨_, _, rfl, ⟨fun _ => hlen, fun _ => by decide⟩, fun _ => rfl⟩
  rw [if_neg hlen, if_neg (fun h => hindex h.2)]
  have hno : ¬ ((-ECANCELED : Int) < 0 ∧ (-ECANCELED : Int) ≠ -ECANCELED) := fun h => h.2 rfl
  split
  · exact ⟨_, _, rfl, iff_of_false hno hlen, fun h => absurd h hlen⟩
  · obtain ⟨res, hres⟩ := isSome_iff_exists.mp (@coapBuildUdpHdr_isSome cfg σ.mem rbuf rlen
      (if coapGetType σ = coapTypeCon then coapTypeAck else coapTypeNon) token tkl (coapGetId σ)
      (UInt8.ofNat code) (by split <;> decide))
    rw [hres]
    exact ⟨_, _, rfl, iff_of_false (by omega) hlen, fun h => absurd h hlen⟩

/-! ## Safety -/

theorem coapFindOption_buf {pkt : Pkt} {optNum : Nat} : (coapFindOption pkt optNum).2.buf = pkt.buf := by
  unfold coapFindOption
  split <;> rfl

theorem badTkl_afterPath : BadTkl cfg (afterPath scfg σ) ↔ BadTkl cfg σ := by
  have hpkt : (afterPath scfg σ).pkt = (coapFindOption σ.pkt coapOptUriPath).2 := rfl
  have hmem : (afterPath scfg σ).mem = σ.mem := rfl
  unfold BadTkl
  rw [hpkt, hmem, coapFindOption_buf]

theorem coapTreeHandler_spec (hbad : ¬ BadTkl scfg.toCfg σ) :
    ∃ r σ', coapTreeHandler scfg u σ rbuf rlen resources = some (r, σ') ∧
      ∀ τ, Fails scfg u σ rlen resources τ ↔ r < 0 ∧ r ≠ -ECANCELED ∧ τ = σ' := by
  unfold coapTreeHandler
  dsimp only
  by_cases hpath : (coapGetUriPath scfg σ.mem σ.pkt).1 ≤ 0
  · rw [if_pos hpath]
    refine ⟨_, _, rfl, fun τ => ⟨fun h => ?_, fun h => ?_⟩⟩
    · cases h with
      | path => exact ⟨by decide, by decide, rfl⟩
      | noRoom h => omega
      | handler _ h => omega
    · rw [h.2.2]
      exact .path hpath
  rw [if_neg hpath]
  have hbad' : ¬ BadTkl scfg.toCfg (afterPath scfg σ) := fun h => hbad (badTkl_afterPath.mp h)
  -- a reply that there is nothing at the path
  have hreply : ∀ {c : Nat}, c = coapCodePathNotFound ∨ c = coapCodeMethodNotAllowed →
      (∀ resource, findResource scfg σ resources = some resource → ¬ Allows u σ resource) →
      ∃ r σ', coapBuildReply scfg.toCfg (afterPath scfg σ) c rbuf rlen 0 = some (r, σ') ∧
        ∀ τ, Fails scfg u σ rlen resources τ ↔ r < 0 ∧ r ≠ -ECANCELED ∧ τ = σ' := by
    intro c hc hres
    obtain ⟨r, σ', hr, hiff, heq⟩ := @coapBuildReply_error scfg.toCfg (afterPath scfg σ) rbuf rlen c hbad' hc
    refine ⟨r, σ', hr, fun τ => ⟨fun h => ?_, fun ⟨h1, h2, h3⟩ => ?_⟩⟩
    · cases h with
      | path h => exact absurd h hpath
      | noRoom _ _ hroom =>
        obtain ⟨h1, h2⟩ := hiff.mpr hroom
        exact ⟨h1, h2, (heq hroom).symm⟩
      | handler resource _ hr' hallow => exact absurd hallow (hres resource hr')
    · have hroom := hiff.mp ⟨h1, h2⟩
      rw [h3, heq hroom]
      exact .noRoom (by omega) hres hroom
  cases hfind : findResource scfg σ resources with
  | none =>
    have hf := hfind
    unfold findResource at hf
    rw [hf]
    exact hreply (.inl rfl) (by simp [hfind])
  | some resource =>
    have hf := hfind
    unfold findResource at hf
    rw [hf]
    dsimp only
    by_cases hallow : Allows u σ resource
    · rw [if_neg hallow]
      refine ⟨_, _, rfl, fun τ => ⟨fun h => ?_, fun ⟨h1, h2, h3⟩ => ?_⟩⟩
      · cases h with
        | path h => exact absurd h hpath
        | noRoom _ hres => exact absurd hallow (hres resource hfind)
        | handler resource' _ hr' _ hneg hne =>
          obtain rfl := some.inj (hfind.symm.trans hr')
          exact ⟨hneg, hne, rfl⟩
      · rw [h3]
        exact .handler resource (by omega) hfind hallow h1 h2
    · rw [if_pos (not_not.mp hallow)]
      refine hreply (.inr rfl) fun resource' hr' => ?_
      obtain rfl := some.inj (hfind.symm.trans hr')
      exact hallow

theorem coapBuildEmptyAck_ne : coapBuildEmptyAck cfg σ rbuf ≠ none := by
  unfold coapBuildEmptyAck
  split
  · simp
  · rw [ne_eq, map_eq_none_iff, ← ne_eq, ← isSome_iff_ne_none]
    exact coapBuildUdpHdr_isSome (by decide)

/-- An accepted packet has a header that can be read, and an empty one has no options. -/
theorem accepted_spec {buf len : Nat} {options : Memory OptPos} {r : Int}
    (hparse : coapParseUdp cfg σ.mem buf len options = some (r, σ.pkt)) (hr : 0 ≤ r) :
    ¬ BadTkl cfg σ ∧ (coapGetCodeRaw σ = coapCodeEmpty → ¬ ResetAsserts cfg σ rlen) := by
  have hh : HeaderReadable cfg σ.mem buf len := by
    by_contra hh
    rw [coapParseUdp_none hh] at hparse
    exact absurd hparse (by simp)
  obtain ⟨r', pkt', hparse', hres⟩ := @coapParseUdp_sound cfg σ.mem buf len options hh
  obtain ⟨rfl, rfl⟩ := Prod.mk.inj (some.inj (hparse'.symm.trans hparse))
  obtain ⟨h, os, tail, m⟩ := hres.resolve_left (by omega)
  rw [coapParseUdp_eq m] at hparse
  have hpkt := (Prod.mk.inj (some.inj hparse)).2
  obtain ⟨hbuf, -, -, hcount, -⟩ := @parsedPkt_spec buf h options os tail m.tail
  rw [hpkt] at hbuf hcount
  have hbad : ¬ BadTkl cfg σ := by
    intro ⟨hx, h15⟩
    rw [hbuf] at h15
    exact (hh hx).2 h15
  refine ⟨hbad, fun hcode => ?_⟩
  have hlen := m.length_eq
  have hshort := m.code (by
    apply UInt8.toNat_inj.mp
    rw [← hbuf]
    exact hcode)
  have hos : (entriesFrom h 0 os).length = 0 := by
    have := @length_entriesFrom_le h 0 os
    have := m.header.2.1
    rw [List.length_append] at hlen
    omega
  rw [hos] at hcount
  intro hreset
  obtain hb | ⟨-, huint⟩ := hreset
  · exact hbad hb
  · have hfind : coapFindOption σ.pkt coapOptNoResponse = (0, σ.pkt) := by
      unfold coapFindOption
      rw [hcount]
      rfl
    rw [coapOptGetUint, hfind] at huint
    exact absurd (show -ENOENT = 0 from huint) (by decide)

/-- **Requests are handled without violated assertions**, exactly unless one fails and
cannot be answered by a reset. -/
theorem coapHandleReq_safe (cfg : ServerCfg) (u : Undefined) (σ : Request) (respBuf respBufLen : Nat)
    (localEp : Option Bool) (resources : List Resource) (buf len : Nat) (options : Memory OptPos) (r : Int)
    (hparse : coapParseUdp cfg.toCfg σ.mem buf len options = some (r, σ.pkt)) (hr : 0 ≤ r) :
    coapHandleReq cfg u σ respBuf respBufLen localEp resources ≠ none ↔
      ¬ FailsUnsafely cfg u σ respBufLen localEp resources := by
  obtain ⟨hbad, hempty⟩ := @accepted_spec cfg.toCfg σ respBufLen buf len options r hparse hr
  obtain ⟨retval, σ', htree, hfails⟩ := @coapTreeHandler_spec cfg u σ respBuf respBufLen resources hbad
  unfold coapHandleReq FailsUnsafely
  by_cases htype : coapGetType σ = coapTypeCon ∨ coapGetType σ = coapTypeNon
  case neg =>
    rw [if_pos (not_or.mp htype)]
    simp [htype]
  rw [if_neg (fun h => htype.elim h.1 h.2)]
  by_cases hclass : coapGetCodeRaw σ >>> 5 = 0
  case neg =>
    simp [hclass]
  rw [if_neg (not_not.mpr hclass)]
  by_cases hcode : coapGetCodeRaw σ = coapCodeEmpty ∧ ¬ sockUdpEpIsMulticast u localEp
  · rw [if_pos hcode, ne_eq, coapBuildReply_empty]
    have := hempty hcode.1
    simp [this, hcode]
  rw [if_neg hcode, htree]
  have hmulti : coapGetCodeRaw σ = coapCodeEmpty → sockUdpEpIsMulticast u localEp = true := by
    intro h
    by_contra hm
    exact hcode ⟨h, hm⟩
  dsimp only
  by_cases hneg : retval < 0 ∧ retval ≠ -ECANCELED
  · rw [if_pos hneg.1, if_neg hneg.2]
    by_cases hlocal : localEp = some true
    · simp [hlocal]
    · rw [if_pos hlocal, ne_eq, coapBuildReply_empty, not_iff_not]
      constructor
      · intro hreset
        exact ⟨htype, hclass, hmulti, hlocal, σ', (hfails σ').mpr ⟨hneg.1, hneg.2, rfl⟩, hreset⟩
      · intro hunsafe
        obtain ⟨-, -, -, -, τ, hf, hreset⟩ := hunsafe
        obtain ⟨-, -, rfl⟩ := (hfails τ).mp hf
        exact hreset
  · refine iff_of_true ?_ ?_
    · by_cases hlt : retval < 0
      · rw [if_pos hlt, if_pos (by by_contra h; exact hneg ⟨hlt, h⟩)]
        split
        · exact coapBuildEmptyAck_ne
        · simp
      · rw [if_neg hlt]
        simp
    · intro hunsafe
      obtain ⟨-, -, -, -, τ, hf, -⟩ := hunsafe
      obtain ⟨h₁, h₂, -⟩ := (hfails τ).mp hf
      exact hneg ⟨h₁, h₂⟩

/-! ## A request -/

/-- A server with paths of up to 64 bytes. -/
def server : ServerCfg := { noptsMax := 16, tokenExt := false, uriMax := 64, uriMax_gt := by decide }

/-- The resource `/a`, whose handler fails. -/
def failing : Resource := { path := [47, 97], methods := 1, handler := fun σ => (-1, σ) }

/-- The packet at address 1 of a request for `/a`, with more options `os`. -/
def requestFor (mem : Memory UInt8) (os : List NumberedOption) : Request :=
  ⟨mem, parsedPkt 1 4 (fun _ => ⟨0, 0⟩) ((11, [97]) :: os) []⟩

/-- The failing request is answered by a reset. -/
theorem coapHandleReq_safe_reset :
    coapHandleReq server ⟨0, false⟩ (requestFor (packetAt [0x40, 1, 0, 1, 0xB1, 97]) []) 100 64 none [failing] ≠
      none := by
  have m : IsMessage server.toCfg (packetAt [0x40, 1, 0, 1, 0xB1, 97]) 1 6 4 [(11, [97])] [] :=
    ⟨by decide, by decide, by decide, by simp [fieldMax], .inl rfl, by decide, by decide⟩
  refine (coapHandleReq_safe server ⟨0, false⟩ (requestFor (packetAt [0x40, 1, 0, 1, 0xB1, 97]) []) 100 64 none
    [failing] 1 6 (fun _ => ⟨0, 0⟩) 6 (coapParseUdp_eq m) (by decide)).mpr ?_
  rintro ⟨-, -, -, -, τ, hf, hreset⟩
  cases hf with
  | path h => exact absurd h (by decide)
  | noRoom _ hres => exact hres failing rfl (by unfold Allows; decide)
  | handler resource _ hres =>
    obtain rfl : failing = resource := Option.some.inj hres
    obtain ⟨hx, -⟩ | ⟨-, hr⟩ := hreset
    · exact absurd hx (by decide)
    · exact absurd hr (by decide)

/-- The same request with a No-Response option violates the assertion. -/
theorem not_coapHandleReq_safe :
    coapParseUdp server.toCfg (packetAt [0x40, 1, 0, 1, 0xB1, 97, 0xD1, 0xEA, 2]) 1 9 (fun _ => ⟨0, 0⟩) =
        some (9, (requestFor (packetAt [0x40, 1, 0, 1, 0xB1, 97, 0xD1, 0xEA, 2]) [(258, [2])]).pkt) ∧
      coapHandleReq server ⟨0, false⟩
        (requestFor (packetAt [0x40, 1, 0, 1, 0xB1, 97, 0xD1, 0xEA, 2]) [(258, [2])]) 100 64 none [failing] =
        none := by
  have m : IsMessage server.toCfg (packetAt [0x40, 1, 0, 1, 0xB1, 97, 0xD1, 0xEA, 2]) 1 9 4
      [(11, [97]), (258, [2])] [] :=
    ⟨by decide, by decide, by decide, by simp [fieldMax], .inl rfl, by decide, by decide⟩
  refine ⟨coapParseUdp_eq m, ?_⟩
  have hnone : (coapHandleReq server ⟨0, false⟩ (requestFor
      (packetAt [0x40, 1, 0, 1, 0xB1, 97, 0xD1, 0xEA, 2]) [(258, [2])]) 100 64 none [failing]).isNone = true := by
    decide
  exact Option.isNone_iff_eq_none.mp hnone

end Riot.Nanocoap
