import Riot.Dns.Msg

/-!
# What is found in a DNS reply

`_skip_hostname` takes a name for compressed if either of the two top bits of its first byte is
set, and the length of a later label for a number of bytes whatever these bits are. Names that it
reads so are the first thing a message must not have; the second is a record that is asked for but
not of the right length, at which `dns_msg_parse_reply` gives up or takes it, and the third is a
message that is not well formed behind the record that is found.
-/

namespace Riot.Dns

open Riot.Lib List Nat Except

variable {buf msg s t rest name : List UInt8} {family : Family} {pos bufpos res fuel n v : Nat} {b : UInt8}

/-- At `pos` the buffer goes on with `s`, to its end. -/
structure At (buf : List UInt8) (pos : Nat) (s : List UInt8) : Prop where
  le : pos ≤ buf.length
  drop : buf.drop pos = s

theorem At.length (h : At buf pos s) : buf.length = pos + s.length := by
  have hle := h.le
  rw [← h.drop, length_drop]
  omega

theorem At.byte (h : At buf pos (b :: s)) : byteAt buf pos = .ok b := by
  have hget : buf[pos]? = some b := by
    rw [← add_zero pos, ← getElem?_drop, h.drop]
    rfl
  unfold byteAt
  rw [hget]

theorem At.append {a : List UInt8} (h : At buf pos (a ++ s)) : At buf (pos + a.length) s := by
  have hlen := h.length
  rw [length_append] at hlen
  refine ⟨by omega, ?_⟩
  rw [← drop_drop, h.drop, drop_left]

theorem At.tail (h : At buf pos (b :: s)) : At buf (pos + 1) s := At.append (a := [b]) h

theorem At.short (h : At buf pos (toBytes 2 v ++ s)) (hv : v < 2 ^ 16) : getShort buf pos = .ok v := by
  have hbytes : toBytes 2 v ++ s = UInt8.ofNat (v / 256) :: UInt8.ofNat v :: s := rfl
  unfold getShort
  rw [h.byte, Except.bind, h.tail.byte, Except.bind, UInt8.toNat_ofNat', UInt8.toNat_ofNat']
  exact congrArg ok (by omega)

theorem toBytes_four : toBytes 4 v = toBytes 2 (v / 65536) ++ toBytes 2 (v % 65536) := by
  have h1 : v / 256 / 256 = v / 65536 := by omega
  have h2 : UInt8.ofNat (v % 65536 / 256) = UInt8.ofNat (v / 256) := by
    apply UInt8.toNat_inj.mp
    rw [UInt8.toNat_ofNat', UInt8.toNat_ofNat']
    omega
  have h3 : UInt8.ofNat (v % 65536) = UInt8.ofNat v := by
    apply UInt8.toNat_inj.mp
    rw [UInt8.toNat_ofNat', UInt8.toNat_ofNat']
    omega
  simp only [toBytes, nil_append, cons_append, h1, h2, h3]

theorem At.long (h : At buf pos (toBytes 4 v ++ s)) (hv : v < 2 ^ 32) : getLong buf pos = .ok v := by
  rw [toBytes_four, append_assoc] at h
  have hlo : At buf (pos + 2) (toBytes 2 (v % 65536) ++ s) := At.append (a := toBytes 2 (v / 65536)) h
  unfold getLong
  rw [h.short (by omega), Except.bind, hlo.short (by omega), Except.bind]
  exact congrArg ok (by omega)

theorem At.toBytes_countAt (h : At buf pos s) (hlen : 2 ≤ s.length) :
    s = toBytes 2 (countAt buf pos) ++ s.drop 2 ∧ countAt buf pos < 2 ^ 16 ∧ At buf (pos + 2) (s.drop 2) := by
  obtain ⟨a, s, rfl⟩ := exists_cons_of_length_pos (show 0 < s.length by omega)
  obtain ⟨b, s, rfl⟩ := exists_cons_of_length_pos (show 0 < s.length by rw [length_cons] at hlen; omega)
  have hcount : countAt buf pos = 256 * a.toNat + b.toNat := by
    have ha : buf[pos]? = some a := by
      rw [← add_zero pos, ← getElem?_drop, h.drop]
      rfl
    have hb : buf[pos + 1]? = some b := by
      rw [← getElem?_drop, h.drop]
      rfl
    unfold countAt
    rw [ha, hb]
    rfl
  have ha := a.toNat_lt
  have hb := b.toNat_lt
  refine ⟨?_, by omega, h.tail.tail⟩
  have hhi : UInt8.ofNat (countAt buf pos / 256) = a := by
    apply UInt8.toNat_inj.mp
    rw [UInt8.toNat_ofNat', hcount]
    omega
  have hlo : UInt8.ofNat (countAt buf pos) = b := by
    apply UInt8.toNat_inj.mp
    rw [UInt8.toNat_ofNat', hcount]
    omega
  simp only [toBytes, nil_append, cons_append, hhi, hlo, drop_succ_cons, drop_zero]

theorem byteAt_ok (h : pos < buf.length) : ∃ b, byteAt buf pos = .ok b := by
  refine ⟨buf[pos], ?_⟩
  unfold byteAt
  rw [getElem?_eq_getElem h]

theorem getShort_ok (h : pos + 1 < buf.length) : getShort buf pos = .ok (countAt buf pos) := by
  unfold getShort byteAt countAt
  rw [getElem?_eq_getElem (show pos < buf.length by omega), getElem?_eq_getElem h]
  rfl

/-! ## Names -/

/-- A length with a top bit is come to, at `s` or behind labels. -/
inductive MisreadLabels : List UInt8 → Prop
  | here {b : UInt8} {s : List UInt8} (h : 0x40 ≤ b) : MisreadLabels (b :: s)
  | label {n : UInt8} {label s : List UInt8} (hpos : 0 < n) (hlt : n < 0x40) (hlen : label.length = n.toNat)
      (h : MisreadLabels s) : MisreadLabels (n :: (label ++ s))

/-- The name at `s` is none that `_skip_hostname` reads as one: it begins with just one of the top
bits, or goes on with one behind a label. A pointer at its beginning is read. -/
def Misread (s : List UInt8) : Prop := MisreadLabels s ∧ ∀ b ∈ s.head?, b < 0xc0

theorem IsName.length_pos (h : IsName name) : 0 < name.length := by
  cases h with
  | root => decide
  | pointer => exact succ_pos _
  | label => exact succ_pos _

theorem skipLabels_name (hname : IsName name) : ∀ {fuel res : Nat}, At buf (bufpos + res) (name ++ rest) →
    ¬ MisreadLabels (name ++ rest) → name.length ≤ fuel →
    skipLabels buf bufpos fuel res = .ok (res + name.length) := by
  induction hname with
  | root =>
    intro fuel res hat _ hfuel
    obtain ⟨fuel, rfl⟩ := Nat.exists_eq_succ_of_ne_zero (Nat.ne_of_gt hfuel)
    unfold skipLabels
    rw [At.byte (b := 0) hat, Except.bind, if_pos rfl]
    rfl
  | pointer h =>
    intro fuel res _ hplain _
    exact absurd (.here (UInt8.le_trans (by decide) h)) hplain
  | @label n label name' hpos hlt hlen hname' ih =>
    intro fuel res hat hplain hfuel
    obtain ⟨fuel, rfl⟩ := exists_eq_succ_of_ne_zero (show fuel ≠ 0 by simp at hfuel; omega)
    have hcons : n :: (label ++ name') ++ rest = n :: (label ++ (name' ++ rest)) := by
      rw [cons_append, append_assoc]
    rw [hcons] at hat hplain
    have hnext : At buf (bufpos + (res + (n.toNat + 1))) (name' ++ rest) := by
      have := hat.tail.append
      rwa [hlen, show bufpos + res + 1 + n.toNat = bufpos + (res + (n.toNat + 1)) by omega] at this
    have hlength := hnext.length
    have hname'pos := hname'.length_pos
    rw [length_append] at hlength
    unfold skipLabels
    rw [hat.byte, Except.bind, if_neg (fun h0 => by rw [h0] at hpos; exact absurd hpos (by decide))]
    rw [if_neg (by omega)]
    rw [length_cons, length_append] at hfuel
    rw [ih hnext (fun hmis => hplain (.label hpos hlt hlen hmis)) (by omega), length_cons,
      length_append, hlen]
    exact congrArg ok (by omega)

theorem skipLabels_sound : ∀ {fuel res : Nat} {s : List UInt8} {k : Nat}, At buf (bufpos + res) s →
    ¬ MisreadLabels s → skipLabels buf bufpos fuel res = .ok k →
    ∃ name rest, IsName name ∧ s = name ++ rest ∧ k = res + name.length := by
  intro fuel
  induction fuel with
  | zero =>
    intro res s k _ _ h
    cases h
  | succ fuel ih =>
    intro res s k hat hplain h
    cases s with
    | nil =>
      have hlen := hat.length
      rw [length_nil] at hlen
      unfold skipLabels byteAt at h
      rw [getElem?_eq_none (by omega)] at h
      cases h
    | cons b s =>
      unfold skipLabels at h
      rw [hat.byte, Except.bind] at h
      by_cases hb : b = 0
      · subst hb
        exact ⟨[0], s, .root, rfl, (ok.inj h).symm⟩
      rw [if_neg hb] at h
      dsimp only at h
      have hlt : b < 0x40 := UInt8.not_le.mp fun hle => hplain (.here hle)
      have hpos : 0 < b := UInt8.pos_iff_ne_zero.mpr hb
      have hlen := hat.length
      rw [length_cons] at hlen
      split at h
      · cases h
      · have htake : s = s.take b.toNat ++ s.drop b.toNat := (take_append_drop _ _).symm
        have hlabel : (s.take b.toNat).length = b.toNat := by
          rw [length_take]
          omega
        rw [htake] at hat hplain
        have hnext : At buf (bufpos + (res + (b.toNat + 1))) (s.drop b.toNat) := by
          have := hat.tail.append
          rwa [hlabel, show bufpos + res + 1 + b.toNat = bufpos + (res + (b.toNat + 1)) by omega] at this
        obtain ⟨name, rest, hname, heq, hk⟩ := ih hnext (fun hmis => hplain (.label hpos hlt hlabel hmis)) h
        refine ⟨b :: (s.take b.toNat ++ name), rest, .label hpos hlt hlabel hname, ?_, ?_⟩
        · rw [cons_append, append_assoc, ← heq, ← htake]
        · rw [length_cons, length_append, hlabel]
          omega

theorem skipLabels_inside : ∀ {fuel res : Nat}, bufpos + res < buf.length →
    skipLabels buf bufpos fuel res ≠ .error .outOfBounds := by
  intro fuel
  induction fuel with
  | zero =>
    intro res _ h
    cases h
  | succ fuel ih =>
    intro res hlt
    obtain ⟨b, hb⟩ := byteAt_ok hlt
    unfold skipLabels
    rw [hb, Except.bind]
    split
    · exact nofun
    · dsimp only
      split
      · exact nofun
      · exact ih (by omega)

theorem and_topBits (b : UInt8) : b &&& 0xc0 ≠ 0 ↔ 0x40 ≤ b := by
  have hall : ∀ n : Fin 256, UInt8.ofNat n.val &&& 0xc0 ≠ 0 ↔ 0x40 ≤ UInt8.ofNat n.val := by decide +kernel
  have hb := hall ⟨b.toNat, b.toNat_lt⟩
  rwa [UInt8.ofNat_toNat] at hb

/-- A name that is not misread is skipped, unless it is a pointer with nothing behind it. -/
theorem skipHostname_name (hname : IsName name) (hat : At buf pos (name ++ rest))
    (hread : ¬ Misread (name ++ rest)) (hrest : rest ≠ []) : skipHostname buf pos = .ok name.length := by
  have hlen := hat.length
  have hpos := hname.length_pos
  have hrestpos := length_pos_of_ne_nil hrest
  rw [length_append] at hlen
  unfold skipHostname
  rw [if_neg (by omega)]
  obtain ⟨b, s, hcons⟩ := exists_cons_of_length_pos hpos
  have hbyte : byteAt buf pos = .ok b := by
    rw [hcons] at hat
    exact hat.byte
  rw [hbyte, Except.bind]
  by_cases htop : b &&& 0xc0 ≠ 0
  · rw [if_pos htop]
    have hle := (and_topBits b).mp htop
    cases hname with
    | root =>
      cases hcons
      exact absurd htop (by decide)
    | pointer h =>
      rw [if_neg (by simp at hlen; omega)]
      rfl
    | label _ hlt _ _ =>
      cases hcons
      exact absurd hle (UInt8.not_le.mpr hlt)
  · rw [if_neg htop]
    have hplain : ¬ MisreadLabels (name ++ rest) := by
      refine fun hmis => hread ⟨hmis, fun b' hb' => ?_⟩
      rw [hcons] at hb'
      cases hb'
      have hlt : b < 0x40 := UInt8.not_le.mp fun hle => htop ((and_topBits b).mpr hle)
      exact UInt8.lt_trans hlt (by decide)
    have hskip : skipLabels buf pos buf.length 0 = .ok (0 + name.length) :=
      skipLabels_name hname hat hplain (by omega)
    rw [hskip, zero_add]

theorem skipHostname_sound {k : Nat} (hat : At buf pos s) (hread : ¬ Misread s)
    (h : skipHostname buf pos = .ok k) : ∃ name rest, IsName name ∧ s = name ++ rest ∧ k = name.length := by
  have hlen := hat.length
  unfold skipHostname at h
  split at h
  · cases h
  cases s with
  | nil => exact absurd hlen (by rw [length_nil]; omega)
  | cons b s =>
    rw [hat.byte, Except.bind] at h
    by_cases htop : b &&& 0xc0 ≠ 0
    · rw [if_pos htop] at h
      have hge : 0xc0 ≤ b := by
        refine UInt8.not_lt.mp fun hlt => hread ⟨.here ((and_topBits b).mp htop), fun b' hb' => ?_⟩
        cases hb'
        exact hlt
      split at h
      · cases h
      · cases s with
        | nil =>
          rw [length_singleton] at hlen
          omega
        | cons c s => exact ⟨[b, c], s, .pointer hge, rfl, (ok.inj h).symm⟩
    · rw [if_neg htop] at h
      have hplain : ¬ MisreadLabels (b :: s) := by
        refine fun hmis => hread ⟨hmis, fun b' hb' => ?_⟩
        cases hb'
        have hlt : b < 0x40 := UInt8.not_le.mp fun hle => htop ((and_topBits b).mpr hle)
        exact UInt8.lt_trans hlt (by decide)
      have hstart : At buf (pos + 0) (b :: s) := hat
      obtain ⟨name, rest, hname, heq, hk⟩ := skipLabels_sound hstart hplain h
      exact ⟨name, rest, hname, heq, by rw [hk, zero_add]⟩

theorem skipHostname_inside : skipHostname buf pos ≠ .error .outOfBounds := by
  unfold skipHostname
  split
  · exact nofun
  rename_i hin
  obtain ⟨b, hb⟩ := byteAt_ok (Nat.not_le.mp hin)
  rw [hb, Except.bind]
  split
  · split
    · exact nofun
    · exact nofun
  · exact skipLabels_inside (by omega)

theorem skipHostname_behind (h : buf.length ≤ pos) : skipHostname buf pos = .error .ebadmsg := if_pos h

/-! ## Queries -/

/-- No name of the `n` queries at `s` is misread. -/
def QueriesRead (n : Nat) (s : List UInt8) : Prop := ∀ k t, k < n → Queries k s t → ¬ Misread t

theorem QueriesRead.tail {typeClass : List UInt8} (h : QueriesRead (n + 1) (name ++ (typeClass ++ s)))
    (hname : IsName name) (hlen : typeClass.length = 4) : QueriesRead n s :=
  fun k t hk hq => h (k + 1) t (succ_lt_succ hk) (.cons hname hlen hq)

theorem skipQueries_queries (h : Queries n s t) : ∀ {pos : Nat}, At buf pos s → QueriesRead n s →
    ∃ pos', skipQueries buf n pos = .ok pos' ∧ At buf pos' t := by
  induction h with
  | nil => exact fun hat _ => ⟨_, rfl, hat⟩
  | @cons n name typeClass s t hname hlen _ ih =>
    intro pos hat hread
    have hne : typeClass ++ s ≠ [] := append_ne_nil_of_left_ne_nil (fun h0 => by simp [h0] at hlen) _
    have hskip := skipHostname_name hname hat (hread 0 _ (succ_pos n) .nil) hne
    have hnext : At buf (pos + name.length + 4) s := by
      have := hat.append.append
      rwa [hlen] at this
    obtain ⟨pos', hpos', hat'⟩ := ih hnext (hread.tail hname hlen)
    refine ⟨pos', ?_, hat'⟩
    unfold skipQueries
    rw [hskip, Except.bind]
    exact hpos'

theorem skipQueries_sound : ∀ {n pos : Nat} {s : List UInt8} {pos' : Nat}, At buf pos s → QueriesRead n s →
    skipQueries buf n pos = .ok pos' → (∃ t, Queries n s t ∧ At buf pos' t) ∨ buf.length < pos' := by
  intro n
  induction n with
  | zero =>
    intro pos s pos' hat _ h
    cases h
    exact .inl ⟨s, .nil, hat⟩
  | succ n ih =>
    intro pos s pos' hat hread h
    unfold skipQueries at h
    cases hskip : skipHostname buf pos with
    | error e =>
      rw [hskip] at h
      cases h
    | ok k =>
      rw [hskip, Except.bind] at h
      obtain ⟨name, rest, hname, rfl, rfl⟩ := skipHostname_sound hat (hread 0 _ (succ_pos n) .nil) hskip
      by_cases hshort : rest.length < 4
      · -- the query is cut short, and the position behind the end of the message
        have hlen := hat.append.length
        cases n with
        | zero =>
          cases h
          exact .inr (by omega)
        | succ n =>
          unfold skipQueries at h
          rw [skipHostname_behind (by omega)] at h
          cases h
      · have hlen : (rest.take 4).length = 4 := by
          rw [length_take]
          omega
        have hrest : rest = rest.take 4 ++ rest.drop 4 := (take_append_drop _ _).symm
        rw [hrest] at hat hread
        have hnext : At buf (pos + name.length + 4) (rest.drop 4) := by
          have := hat.append.append
          rwa [hlen] at this
        rcases ih hnext (hread.tail hname hlen) h with ⟨t, hq, hat'⟩ | hbehind
        · refine .inl ⟨t, ?_, hat'⟩
          rw [hrest]
          exact .cons hname hlen hq
        · exact .inr hbehind

theorem skipQueries_inside : ∀ {n pos : Nat}, skipQueries buf n pos ≠ .error .outOfBounds := by
  intro n
  induction n with
  | zero => exact nofun
  | succ n ih =>
    intro pos h
    unfold skipQueries at h
    cases hskip : skipHostname buf pos with
    | error e =>
      rw [hskip] at h
      cases h
      exact skipHostname_inside hskip
    | ok k =>
      rw [hskip] at h
      exact ih h

/-! ## Records -/

/-- What is asked of the `n` records at `s`: no name that is come to is misread, and a record that
is asked for matches and is followed by well-formed ones. -/
structure RecordsRead (family : Family) (n : Nat) (s : List UInt8) : Prop where
  names : ∀ pre t, Records pre s t → pre.length < n → (∀ x ∈ pre, ¬ x.Asked family) → ¬ Misread t
  asked : ∀ pre r t, Records (pre ++ [r]) s t → pre.length < n → (∀ x ∈ pre, ¬ x.Asked family) →
    r.Asked family → r.Matches family ∧ ∃ post t', Records post t t' ∧ pre.length + 1 + post.length = n

variable {rs : List Record} {r : Record}

theorem RecordsRead.tail (h : RecordsRead family (n + 1) (r.name ++ (r.fields ++ s)))
    (hr : ¬ r.Asked family) : RecordsRead family n s := by
  refine ⟨fun pre t hpre hlt hnone => ?_, fun pre r' t hpre hlt hnone hasked => ?_⟩
  · refine h.names (r :: pre) t (.cons hpre) (succ_lt_succ hlt) fun x hx => ?_
    rcases mem_cons.mp hx with rfl | hx
    · exact hr
    · exact hnone x hx
  · obtain ⟨hmatch, post, t', hpost, hlen⟩ :=
      h.asked (r :: pre) r' t (.cons hpre) (succ_lt_succ hlt) (fun x hx => by
        rcases mem_cons.mp hx with rfl | hx
        · exact hr
        · exact hnone x hx) hasked
    refine ⟨hmatch, post, t', hpost, ?_⟩
    rw [length_cons] at hlen
    omega

theorem length_fields : r.fields.length = 10 + r.rdata.length := by
  unfold Record.fields
  simp only [length_append, length_toBytes]
  omega

theorem unwanted_iff : unwanted family r.type r.cls = true ↔ ¬ r.Asked family := by
  have hne : dnsTypeA ≠ dnsTypeAaaa := by decide
  unfold unwanted Record.Asked
  grind

theorem fields_read (hat : At buf pos (r.fields ++ s)) :
    getShort buf pos = .ok r.type ∧ getShort buf (pos + 2) = .ok r.cls ∧
      getLong buf (pos + 4) = .ok r.ttl ∧ getShort buf (pos + 8) = .ok r.rdata.length ∧
      At buf (pos + 10) (r.rdata ++ s) := by
  unfold Record.fields at hat
  simp only [append_assoc] at hat
  have hcls := hat.append
  have httl := hcls.append
  have hlen := httl.append
  have hdata := hlen.append
  simp only [length_toBytes, add_assoc, reduceAdd] at hcls httl hlen hdata
  exact ⟨hat.short r.type_lt, hcls.short r.cls_lt, httl.long r.ttl_lt, hlen.short r.rdata_lt, hdata⟩

theorem findAnswer_record (hat : At buf pos (r.name ++ (r.fields ++ s)))
    (hread : ¬ Misread (r.name ++ (r.fields ++ s))) (hne : r.rdata ++ s ≠ []) :
    findAnswer buf family (n + 1) pos =
      if unwanted family r.type r.cls then findAnswer buf family n (pos + r.name.length + 10 + r.rdata.length)
      else if badLength family r.rdata.length then .error .ebadmsg
      else .ok (r.rdata, r.ttl) := by
  have hfields : r.fields ++ s ≠ [] := by
    refine ne_nil_of_length_pos ?_
    rw [length_append, length_fields]
    omega
  have hskip := skipHostname_name r.isName hat hread hfields
  obtain ⟨htype, hcls, httl, hlen, hdata⟩ := fields_read hat.append
  have hend := hdata.length
  have hpos := length_pos_of_ne_nil hne
  rw [length_append] at hend hpos
  rw [findAnswer, hskip, Except.bind]
  rw [if_neg (by omega), htype, Except.bind, hcls, Except.bind, httl, Except.bind, hlen, Except.bind]
  rw [if_neg (by omega), if_neg (show ¬ buf.length < r.rdata.length by omega), hdata.drop, take_left]

theorem Record.Matches.length (h : r.Matches family) :
    badLength family r.rdata.length = false ∧ 0 < r.rdata.length ∧
      r.rdata.length ≤ if family = .inet then inaddrsz else in6addrsz := by
  obtain ⟨⟨-, htype⟩, hother, hlen⟩ := h
  have hne : dnsTypeA ≠ dnsTypeAaaa := by decide
  unfold badLength
  unfold inaddrsz in6addrsz at *
  rcases htype with ⟨htype, hfamily⟩ | ⟨htype, hfamily⟩
  · cases family <;> simp_all
  · rw [if_neg (fun h0 => hne (h0.symm.trans htype))] at hlen
    cases family <;> simp_all

theorem Records.length_le (h : Records rs s t) : rs.length ≤ s.length := by
  induction h with
  | nil => exact zero_le _
  | @cons r rs s t _ ih =>
    have hpos := r.isName.length_pos
    rw [length_cons, length_append, length_append]
    omega

/-- **The records are searched for the first that matches.** -/
theorem findAnswer_records (h : Records rs s t) :
    ∀ {pos : Nat}, At buf pos s → RecordsRead family rs.length s →
      (∃ pre r post, rs = pre ++ r :: post ∧ (∀ x ∈ pre, ¬ x.Matches family) ∧ r.Matches family ∧
        findAnswer buf family rs.length pos = .ok (r.rdata, r.ttl)) ∨
      ((∀ r ∈ rs, ¬ r.Matches family) ∧ ∃ e, findAnswer buf family rs.length pos = .error e) := by
  induction h with
  | nil => exact fun _ _ => .inr ⟨fun _ hr => (nomatch hr), _, rfl⟩
  | @cons r rs s t hrs ih =>
    intro pos hat hread
    have hname := hread.names [] _ .nil (succ_pos _) nofun
    have hask : r.Asked family → r.Matches family := fun hasked =>
      (hread.asked [] r s (.cons .nil) (succ_pos _) nofun hasked).1
    rw [length_cons]
    by_cases hasked : r.Asked family
    · -- it is found here
      have hmatch := hask hasked
      obtain ⟨hgood, hpos, -⟩ := hmatch.length
      refine .inl ⟨[], r, rs, rfl, fun _ hx => (nomatch hx), hmatch, ?_⟩
      rw [findAnswer_record hat hname (append_ne_nil_of_left_ne_nil (ne_nil_of_length_pos hpos) _),
        if_neg (fun hun => (unwanted_iff.mp hun) hasked), hgood, if_neg Bool.false_ne_true]
    · have hnot : ¬ r.Matches family := fun hmatch => hasked hmatch.1
      by_cases hempty : r.rdata ++ s = []
      · -- an empty record at the end of the message
        obtain ⟨-, rfl⟩ := append_eq_nil_iff.mp hempty
        have hrs0 : rs = [] := eq_nil_of_length_eq_zero (le_zero.mp hrs.length_le)
        have hdata : r.rdata.length = 0 := by
          rw [(append_eq_nil_iff.mp hempty).1]
          rfl
        refine .inr ⟨fun x hx => ?_, ?_⟩
        · rw [hrs0] at hx
          obtain rfl := mem_singleton.mp hx
          exact hnot
        · have hfields : r.fields ++ [] ≠ [] := by
            refine ne_nil_of_length_pos ?_
            rw [append_nil, length_fields]
            omega
          have hlen := hat.append.length
          rw [append_nil, length_fields] at hlen
          refine ⟨.ebadmsg, ?_⟩
          rw [findAnswer, skipHostname_name r.isName hat hname hfields, Except.bind]
          exact if_pos (by omega)
      · have hnext : At buf (pos + r.name.length + 10 + r.rdata.length) s := (fields_read hat.append).2.2.2.2.append
        rw [findAnswer_record hat hname hempty, if_pos (unwanted_iff.mpr hasked)]
        rcases ih hnext (hread.tail hasked) with ⟨pre, r', post, rfl, hpre, hmatch, hfind⟩ | ⟨hnone, e, hfind⟩
        · refine .inl ⟨r :: pre, r', post, rfl, fun x hx => ?_, hmatch, hfind⟩
          rcases mem_cons.mp hx with rfl | hx
          · exact hnot
          · exact hpre x hx
        · refine .inr ⟨fun x hx => ?_, e, hfind⟩
          rcases mem_cons.mp hx with rfl | hx
          · exact hnot
          · exact hnone x hx

theorem findAnswer_inside : ∀ {n pos : Nat}, findAnswer buf family n pos ≠ .error .outOfBounds := by
  intro n
  induction n with
  | zero => exact nofun
  | succ n ih =>
    intro pos h
    rw [findAnswer] at h
    cases hskip : skipHostname buf pos with
    | error e =>
      rw [hskip] at h
      cases h
      exact skipHostname_inside hskip
    | ok k =>
      rw [hskip, Except.bind] at h
      dsimp only at h
      split at h
      · cases h
      have hlong : getLong buf (pos + k + 4) =
          .ok (65536 * countAt buf (pos + k + 4) + countAt buf (pos + k + 4 + 2)) := by
        unfold getLong
        rw [getShort_ok (by omega), Except.bind, getShort_ok (by omega), Except.bind]
      rw [getShort_ok (by omega), Except.bind, getShort_ok (by omega), Except.bind, hlong, Except.bind,
        getShort_ok (by omega), Except.bind] at h
      split at h
      · cases h
      split at h
      · split at h
        · cases h
        · exact ih h
      · split at h <;> cases h

/-- What is read behind a name that is skipped is a record, if the message is long enough. -/
theorem record_of_read {rest : List UInt8} (hat : At buf pos rest) (hin : ¬ buf.length ≤ pos + 10)
    (hdata : ¬ buf.length < pos + 10 + countAt buf (pos + 8)) (hname : IsName name) :
    ∃ r : Record, ∃ t, r.name = name ∧ rest = r.fields ++ t ∧ r.type = countAt buf pos ∧
      r.cls = countAt buf (pos + 2) ∧ r.rdata.length = countAt buf (pos + 8) := by
  have hlen := hat.length
  obtain ⟨htype, htype_lt, hat1⟩ := hat.toBytes_countAt (by omega)
  have hlen1 := hat1.length
  obtain ⟨hcls, hcls_lt, hat2⟩ := hat1.toBytes_countAt (by omega)
  have hlen2 := hat2.length
  obtain ⟨hhi, hhi_lt, hat3⟩ := hat2.toBytes_countAt (by omega)
  have hlen3 := hat3.length
  obtain ⟨hlo, hlo_lt, hat4⟩ := hat3.toBytes_countAt (by omega)
  have hlen4 := hat4.length
  obtain ⟨hrd, hrd_lt, hat5⟩ := hat4.toBytes_countAt (by omega)
  have hlen5 := hat5.length
  simp only [add_assoc, reduceAdd] at hcls hcls_lt hhi hhi_lt hlo hlo_lt hrd hrd_lt hlen5
  generalize drop 2 (drop 2 (drop 2 (drop 2 (drop 2 rest)))) = data at *
  have htake : (data.take (countAt buf (pos + 8))).length = countAt buf (pos + 8) := by
    rw [length_take]
    omega
  refine ⟨⟨name, countAt buf pos, countAt buf (pos + 2),
    65536 * countAt buf (pos + 4) + countAt buf (pos + 6), data.take (countAt buf (pos + 8)), hname, htype_lt,
    hcls_lt, by omega, by omega⟩, data.drop (countAt buf (pos + 8)), rfl, ?_, rfl, rfl, htake⟩
  have hdiv : (65536 * countAt buf (pos + 4) + countAt buf (pos + 6)) / 65536 = countAt buf (pos + 4) := by omega
  have hmod : (65536 * countAt buf (pos + 4) + countAt buf (pos + 6)) % 65536 = countAt buf (pos + 6) := by omega
  unfold Record.fields
  dsimp only
  rw [htake, toBytes_four, hdiv, hmod]
  simp only [append_assoc, take_append_drop]
  rw [← hrd, ← hlo, ← hhi, ← hcls, ← htype]

/-- **What is found is in a well-formed message**, if what is asked of its records holds. -/
theorem findAnswer_sound {found : List UInt8 × Nat} : ∀ {n pos : Nat} {s : List UInt8}, At buf pos s →
    RecordsRead family n s → findAnswer buf family n pos = .ok found →
    ∃ rs t, rs.length = n ∧ Records rs s t ∧ ∃ r ∈ rs, r.Matches family := by
  intro n
  induction n with
  | zero =>
    intro pos s _ _ h
    cases h
  | succ n ih =>
    intro pos s hat hread h
    have hnone : ∀ x ∈ ([] : List Record), ¬ x.Asked family := nofun
    cases hskip : skipHostname buf pos with
    | error e =>
      rw [findAnswer, hskip] at h
      cases h
    | ok k =>
      obtain ⟨name, rest, hname, rfl, rfl⟩ :=
        skipHostname_sound hat (hread.names [] _ .nil (succ_pos _) hnone) hskip
      have hlong : ¬ buf.length ≤ pos + name.length + 10 := by
        intro hle
        rw [findAnswer, hskip, Except.bind] at h
        rw [if_pos hle] at h
        cases h
      have hdata : ¬ buf.length < pos + name.length + 10 + countAt buf (pos + name.length + 8) := by
        intro hlt
        rw [findAnswer, hskip, Except.bind] at h
        rw [if_neg hlong, getShort_ok (by omega), Except.bind, getShort_ok (by omega), Except.bind, getLong,
          getShort_ok (by omega), Except.bind, getShort_ok (by omega), Except.bind, Except.bind,
          getShort_ok (by omega), Except.bind, if_pos hlt] at h
        cases h
      obtain ⟨r, t, rfl, rfl, -, -, hrd⟩ := record_of_read hat.append hlong hdata hname
      by_cases hasked : r.Asked family
      · obtain ⟨hmatch, post, t', hpost, hlen⟩ := hread.asked [] r t (.cons .nil) (succ_pos _) hnone hasked
        refine ⟨r :: post, t', ?_, .cons hpost, r, mem_cons_self, hmatch⟩
        rw [length_nil] at hlen
        rw [length_cons]
        omega
      · have hend := hat.append.length
        rw [length_append, length_fields] at hend
        have hne : r.rdata ++ t ≠ [] := by
          refine ne_nil_of_length_pos ?_
          rw [length_append]
          omega
        have hnext : At buf (pos + r.name.length + 10 + r.rdata.length) t := (fields_read hat.append).2.2.2.2.append
        rw [findAnswer_record hat (hread.names [] _ .nil (succ_pos _) hnone) hne,
          if_pos (unwanted_iff.mpr hasked)] at h
        obtain ⟨rs, t', hlen, hrs, r', hr', hmatch⟩ := ih hnext (hread.tail hasked) h
        exact ⟨r :: rs, t', by rw [length_cons, hlen], .cons hrs, r', mem_cons_of_mem _ hr', hmatch⟩

/-! ## Messages -/

/-- The messages that are parsed for what they are: the counts can be read, no name that is come to
is misread, and a record that is asked for matches and is followed by well-formed ones. -/
structure Readable (msg : List UInt8) (family : Family) : Prop where
  header : 8 ≤ msg.length
  queries : QueriesRead (countAt msg 4) (msg.drop hdrSize)
  records : ∀ s, AnswersAt msg s → RecordsRead family (countAt msg 6) s

theorem dnsMsgParseReply_eq (h : 8 ≤ msg.length) : dnsMsgParseReply msg family =
    (skipQueries msg (countAt msg 4) hdrSize).bind fun bufpos => findAnswer msg family (countAt msg 6) bufpos := by
  unfold dnsMsgParseReply
  rw [getShort_ok (by omega), Except.bind]
  cases skipQueries msg (countAt msg 4) hdrSize with
  | error e => rfl
  | ok bufpos =>
    rw [Except.bind, getShort_ok (by omega)]
    rfl

theorem findAnswer_behind (h : buf.length ≤ pos) : findAnswer buf family n pos = .error .ebadmsg := by
  cases n with
  | zero => rfl
  | succ n =>
    rw [findAnswer, skipHostname_behind h]
    rfl

theorem answersAt_of_found {found : List UInt8 × Nat} (hread : Readable msg family)
    (h : dnsMsgParseReply msg family = .ok found) : ∃ s pos, AnswersAt msg s ∧ At msg pos s ∧
      findAnswer msg family (countAt msg 6) pos = .ok found := by
  rw [dnsMsgParseReply_eq hread.header] at h
  cases hskip : skipQueries msg (countAt msg 4) hdrSize with
  | error e =>
    rw [hskip] at h
    cases h
  | ok pos =>
    rw [hskip, Except.bind] at h
    have hbehind : ¬ msg.length ≤ pos := by
      intro hle
      rw [findAnswer_behind hle] at h
      cases h
    by_cases hhdr : hdrSize ≤ msg.length
    · rcases skipQueries_sound ⟨hhdr, rfl⟩ hread.queries hskip with ⟨s, hq, hat⟩ | hlt
      · exact ⟨s, pos, ⟨hhdr, hq⟩, hat, h⟩
      · exact absurd (Nat.le_of_lt hlt) hbehind
    · -- the queries begin behind the message
      cases hcount : countAt msg 4 with
      | zero =>
        rw [hcount] at hskip
        cases hskip
        omega
      | succ n =>
        rw [hcount] at hskip
        unfold skipQueries at hskip
        rw [skipHostname_behind (by omega)] at hskip
        cases hskip

theorem dnsMsgParseReply_reply (hread : Readable msg family) (h : IsReply msg rs) :
    (∃ pre r post, rs = pre ++ r :: post ∧ (∀ x ∈ pre, ¬ x.Matches family) ∧ r.Matches family ∧
      dnsMsgParseReply msg family = .ok (r.rdata, r.ttl)) ∨
    ((∀ r ∈ rs, ¬ r.Matches family) ∧ ∃ e, dnsMsgParseReply msg family = .error e) := by
  obtain ⟨hlen, s, rest, hans, hrs⟩ := h
  obtain ⟨pos, hskip, hat⟩ := skipQueries_queries hans.2 ⟨hans.1, rfl⟩ hread.queries
  have hrec := hread.records s hans
  rw [dnsMsgParseReply_eq hread.header, hskip, Except.bind]
  rw [← hlen] at hrec ⊢
  exact findAnswer_records hrs hat hrec

/-- A reply with one answer and no query: the address of a name that is a pointer. -/
def pointedReply : List UInt8 :=
  [0, 1, 0x81, 0x80, 0, 0, 0, 1, 0, 0, 0, 0, 0xc0, 0x0c, 0, 1, 0, 1, 0, 0, 0, 60, 0, 4, 192, 0, 2, 1]

theorem IsName.of_pointer {a : UInt8} (hname : IsName name) (ha : 0xc0 ≤ a) (h : name ++ t = a :: b :: s) :
    name = [a, b] ∧ t = s := by
  cases hname with
  | root =>
    obtain ⟨rfl, -⟩ := cons.inj h
    exact absurd ha (by decide)
  | pointer =>
    obtain ⟨rfl, hrest⟩ := cons.inj h
    obtain ⟨rfl, rfl⟩ := cons.inj hrest
    exact ⟨rfl, rfl⟩
  | label _ hlt =>
    obtain ⟨rfl, -⟩ := cons.inj h
    exact absurd (UInt8.lt_of_lt_of_le hlt (by decide)) (UInt8.not_lt.mpr ha)

theorem pointedReply_record (h : pointedReply.drop hdrSize = r.name ++ (r.fields ++ t)) :
    r.Matches .inet := by
  obtain ⟨-, hfields⟩ := r.isName.of_pointer (by decide) h.symm
  have hat : At pointedReply 14 (r.fields ++ t) := by
    refine ⟨by decide, ?_⟩
    rw [hfields]
    rfl
  obtain ⟨htype, hcls, -, hlen, -⟩ := fields_read hat
  have htype' : dnsTypeA = r.type := ok.inj htype
  have hcls' : dnsClassIn = r.cls := ok.inj hcls
  have hlen' : 4 = r.rdata.length := ok.inj hlen
  refine ⟨⟨hcls'.symm, .inl ⟨htype'.symm, by decide⟩⟩, by decide, ?_⟩
  rw [← hlen', if_pos htype'.symm]
  rfl

theorem pointedReply_readable : Readable pointedReply .inet := by
  refine ⟨by decide, fun k t hk _ => absurd hk (not_lt_zero k), fun s hs => ?_⟩
  obtain ⟨-, hq⟩ := hs
  have hs : s = pointedReply.drop hdrSize := by
    cases hq
    rfl
  subst hs
  refine ⟨fun pre t hpre hlt _ hmis => ?_, fun pre r t hpre hlt _ _ => ?_⟩
  · obtain rfl := length_eq_zero_iff.mp (lt_one_iff.mp hlt)
    cases hpre
    exact absurd (hmis.2 0xc0 rfl) (by decide)
  · obtain rfl := length_eq_zero_iff.mp (lt_one_iff.mp hlt)
    refine ⟨?_, [], t, .nil, rfl⟩
    generalize hdrop : pointedReply.drop hdrSize = s at hpre
    cases hpre with
    | cons h =>
      cases h
      exact pointedReply_record hdrop

/-- A reply with one answer and no query: the name is a label that ends in a pointer. -/
def labelledReply : List UInt8 :=
  [0, 1, 0x81, 0x80, 0, 0, 0, 1, 0, 0, 0, 0, 1, 0x61, 0xc0, 0x0c, 0, 1, 0, 1, 0, 0, 0, 60, 0, 4, 192, 0, 2, 1]

theorem labelledName : IsName [1, 0x61, 0xc0, 0x0c] := by
  have hpointer : IsName [0xc0, 0x0c] := .pointer (by decide)
  have hlabel : ([0x61] : List UInt8).length = (1 : UInt8).toNat := rfl
  exact .label (by decide) (by decide) hlabel hpointer

/-- The answer of `labelledReply`. -/
def labelledRecord : Record where
  name := [1, 0x61, 0xc0, 0x0c]
  type := dnsTypeA
  cls := dnsClassIn
  ttl := 60
  rdata := [192, 0, 2, 1]
  isName := labelledName
  type_lt := by decide
  cls_lt := by decide
  ttl_lt := by decide
  rdata_lt := by decide

end Riot.Dns
