import Riot.Lib.BigEndian

/-!
# Parsing DNS replies

`sys/net/application_layer/dns/msg.c`. A message is the list of its bytes, and a pointer into it
a position, which may be behind its end. A read where there is no byte is a failure of its own,
beside the `-EBADMSG` the functions return.
-/

namespace Riot.Dns

open Riot.Lib

inductive Failure where
  /-- a read outside of the buffer -/
  | outOfBounds
  /-- `-EBADMSG` -/
  | ebadmsg
  deriving DecidableEq

/-- The families that `dns_msg_parse_reply` tells apart. -/
inductive Family where
  /-- `AF_INET` -/
  | inet
  /-- `AF_INET6` -/
  | inet6
  /-- `AF_UNSPEC` -/
  | unspec
  /-- any other number -/
  | other
  deriving DecidableEq

def dnsTypeA : Nat := 1

def dnsTypeAaaa : Nat := 28

def dnsClassIn : Nat := 1

def inaddrsz : Nat := 4

def in6addrsz : Nat := 16

/-- The size of `dns_hdr_t`. -/
def hdrSize : Nat := 12

def byteAt (buf : List UInt8) (pos : Nat) : Except Failure UInt8 :=
  match buf[pos]? with
  | some b => .ok b
  | none => .error .outOfBounds

/-- `_get_short`, in host byte order. -/
def getShort (buf : List UInt8) (pos : Nat) : Except Failure Nat :=
  (byteAt buf pos).bind fun hi => (byteAt buf (pos + 1)).bind fun lo => .ok (256 * hi.toNat + lo.toNat)

/-- `byteorder_bebuftohl` -/
def getLong (buf : List UInt8) (pos : Nat) : Except Failure Nat :=
  (getShort buf pos).bind fun hi => (getShort buf (pos + 2)).bind fun lo => .ok (65536 * hi + lo)

/-- The loop of `_skip_hostname`, from the label at `res` on; there are fewer labels than bytes. -/
def skipLabels (buf : List UInt8) (bufpos : Nat) : Nat → Nat → Except Failure Nat
  | 0, _ => .error .ebadmsg
  | fuel + 1, res =>
    (byteAt buf (bufpos + res)).bind fun label =>
      if label = 0 then .ok (res + 1)
      else
        let res := res + (label.toNat + 1)
        if buf.length ≤ bufpos + res then .error .ebadmsg else skipLabels buf bufpos fuel res

def skipHostname (buf : List UInt8) (bufpos : Nat) : Except Failure Nat :=
  if buf.length ≤ bufpos then .error .ebadmsg
  else
    (byteAt buf bufpos).bind fun b =>
      -- DNS message compression
      if b &&& 0xc0 ≠ 0 then if buf.length ≤ bufpos + 2 then .error .ebadmsg else .ok 2
      else skipLabels buf bufpos buf.length 0

/-- The loop of `dns_msg_parse_reply` over the queries: where the answers begin. -/
def skipQueries (buf : List UInt8) : Nat → Nat → Except Failure Nat
  | 0, bufpos => .ok bufpos
  | n + 1, bufpos => (skipHostname buf bufpos).bind fun tmp => skipQueries buf n (bufpos + tmp + 4)

/-- The record is of no use for the family. -/
def unwanted (family : Family) (type cls : Nat) : Bool :=
  cls ≠ dnsClassIn || (type = dnsTypeA && family = .inet6) || (type = dnsTypeAaaa && family = .inet) ||
    !(type = dnsTypeA || type = dnsTypeAaaa)

/-- The length of an address does not fit the family. -/
def badLength (family : Family) (rdlen : Nat) : Bool :=
  (rdlen ≠ inaddrsz && family = .inet) || (rdlen ≠ in6addrsz && family = .inet6) ||
    (rdlen ≠ in6addrsz && rdlen ≠ inaddrsz && family = .unspec)

/-- The loop of `dns_msg_parse_reply` over the answers: what is copied to `addr_out`, as many
bytes as are returned, and the last value of `*ttl`. -/
def findAnswer (buf : List UInt8) (family : Family) : Nat → Nat → Except Failure (List UInt8 × Nat)
  | 0, _ => .error .ebadmsg
  | n + 1, bufpos =>
    (skipHostname buf bufpos).bind fun tmp =>
      let bufpos := bufpos + tmp
      if buf.length ≤ bufpos + 10 then .error .ebadmsg
      else
        (getShort buf bufpos).bind fun type =>
        (getShort buf (bufpos + 2)).bind fun cls =>
        (getLong buf (bufpos + 4)).bind fun ttl =>
        (getShort buf (bufpos + 8)).bind fun rdlen =>
          let bufpos := bufpos + 10
          if buf.length < bufpos + rdlen then .error .ebadmsg
          else if unwanted family type cls then
            if buf.length < rdlen then .error .ebadmsg else findAnswer buf family n (bufpos + rdlen)
          else if badLength family rdlen then .error .ebadmsg
          else .ok ((buf.drop bufpos).take rdlen, ttl)

def dnsMsgParseReply (buf : List UInt8) (family : Family) : Except Failure (List UInt8 × Nat) :=
  (getShort buf 4).bind fun qdcount =>
  (skipQueries buf qdcount hdrSize).bind fun bufpos =>
  (getShort buf 6).bind fun ancount =>
    findAnswer buf family ancount bufpos

/-! ## The format -/

/-- The bytes of a name: labels and the root, a pointer, or labels that end in a pointer. -/
inductive IsName : List UInt8 → Prop
  | root : IsName [0]
  | pointer {a b : UInt8} (h : 0xc0 ≤ a) : IsName [a, b]
  | label {n : UInt8} {label rest : List UInt8} (hpos : 0 < n) (hlt : n < 0x40)
      (hlen : label.length = n.toNat) (h : IsName rest) : IsName (n :: (label ++ rest))

/-- A resource record. -/
structure Record where
  name : List UInt8
  type : Nat
  cls : Nat
  ttl : Nat
  rdata : List UInt8
  isName : IsName name
  type_lt : type < 2 ^ 16
  cls_lt : cls < 2 ^ 16
  ttl_lt : ttl < 2 ^ 32
  rdata_lt : rdata.length < 2 ^ 16

/-- The fields of a record behind its name. -/
def Record.fields (r : Record) : List UInt8 :=
  toBytes 2 r.type ++ (toBytes 2 r.cls ++ (toBytes 4 r.ttl ++ (toBytes 2 r.rdata.length ++ r.rdata)))

/-- `Queries n s s'`: at `s` there are `n` queries, each a name, a type and a class, and then `s'`. -/
inductive Queries : Nat → List UInt8 → List UInt8 → Prop
  | nil {s : List UInt8} : Queries 0 s s
  | cons {n : Nat} {name typeClass s s' : List UInt8} (hname : IsName name)
      (hlen : typeClass.length = 4) (h : Queries n s s') :
      Queries (n + 1) (name ++ (typeClass ++ s)) s'

/-- `Records rs s s'`: at `s` there are the records `rs`, and then `s'`. -/
inductive Records : List Record → List UInt8 → List UInt8 → Prop
  | nil {s : List UInt8} : Records [] s s
  | cons {r : Record} {rs : List Record} {s s' : List UInt8} (h : Records rs s s') :
      Records (r :: rs) (r.name ++ (r.fields ++ s)) s'

/-- The counts of a header. -/
def countAt (msg : List UInt8) (pos : Nat) : Nat :=
  256 * (msg[pos]?.getD 0).toNat + (msg[pos + 1]?.getD 0).toNat

/-- `msg` has a header and as many queries as that says; at `s` the answers begin. -/
def AnswersAt (msg s : List UInt8) : Prop :=
  hdrSize ≤ msg.length ∧ Queries (countAt msg 4) (msg.drop hdrSize) s

/-- The message is well formed, with the answers `rs`; what follows them is not looked at. -/
def IsReply (msg : List UInt8) (rs : List Record) : Prop :=
  rs.length = countAt msg 6 ∧ ∃ s rest, AnswersAt msg s ∧ Records rs s rest

/-- The record is of class IN and of a type that the family asks for. -/
def Record.Asked (r : Record) (family : Family) : Prop :=
  r.cls = dnsClassIn ∧ ((r.type = dnsTypeA ∧ family ≠ .inet6) ∨ (r.type = dnsTypeAaaa ∧ family ≠ .inet))

/-- The record has an address of the family, of the length of its type. -/
def Record.Matches (r : Record) (family : Family) : Prop :=
  r.Asked family ∧ family ≠ .other ∧
    r.rdata.length = if r.type = dnsTypeA then inaddrsz else in6addrsz

/-- **What `dns_msg_parse_reply` is for.** It reads inside of the message; what it writes fits the
address; it finds an address exactly in the well-formed messages with a record that matches, and
then that of the first such record, with its time to live. -/
structure Right (msg : List UInt8) (family : Family) : Prop where
  inside : dnsMsgParseReply msg family ≠ .error .outOfBounds
  fits : ∀ addr ttl, dnsMsgParseReply msg family = .ok (addr, ttl) →
    addr.length ≤ if family = .inet then inaddrsz else in6addrsz
  finds : (∃ addr ttl, dnsMsgParseReply msg family = .ok (addr, ttl) ∧ 0 < addr.length) ↔
    ∃ rs, IsReply msg rs ∧ ∃ r ∈ rs, r.Matches family
  first : ∀ addr ttl, dnsMsgParseReply msg family = .ok (addr, ttl) → ∀ rs, IsReply msg rs →
    ∃ pre r post, rs = pre ++ r :: post ∧ (∀ x ∈ pre, ¬ x.Matches family) ∧ r.Matches family ∧
      addr = r.rdata ∧ ttl = r.ttl

end Riot.Dns
