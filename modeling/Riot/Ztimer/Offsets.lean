import Riot.Ztimer.Core
import Riot.Lib.DeltaList

/-!
# The timers of a clock as a list

`Linked` reads the chain of a clock as a list of timers; a timer that is not in it has
no successor and is not the last one, which is what `_is_set` tests. Each function on
the list is one of the operations on delta lists.
-/

namespace Riot.Ztimer

open Riot.Lib Function List UInt32

variable {T : Type} {c : Clock T} {ks : List T} {t : T}

/-- The timers `ks` are linked in the clock. -/
structure Linked (c : Clock T) (ks : List T) : Prop where
  seg : Seg c.next (c.next list) ks .null
  nodup : ks.Nodup
  last : c.last = .ofOption ks.getLast?
  /-- A timer that is not linked is clear. -/
  clear : ∀ t, t ∉ ks → c.next (.entry t) = .null

/-- Timers with their offsets. -/
def Clock.deltas (c : Clock T) (ks : List T) : List (T × Nat) :=
  ks.map fun t => (t, (c.offset (.entry t)).toNat)

theorem deltas_keys : (c.deltas ks).map Prod.fst = ks := by
  rw [Clock.deltas, map_map]
  exact map_id ks

theorem deltas_append {xs ys : List T} : c.deltas (xs ++ ys) = c.deltas xs ++ c.deltas ys := map_append

theorem deltas_congr {c' : Clock T} (h : ∀ t ∈ ks, c'.offset (.entry t) = c.offset (.entry t)) :
    c'.deltas ks = c.deltas ks :=
  map_congr_left fun t ht => by rw [h t ht]

theorem Linked.of_eq {c' : Clock T} (h : Linked c ks) (hnext : c'.next = c.next) (hlast : c'.last = c.last) :
    Linked c' ks :=
  ⟨by rw [hnext]; exact h.seg, h.nodup, hlast.trans h.last, fun t ht => by rw [hnext]; exact h.clear t ht⟩

theorem skipExpired_spec : ∀ {fuel : Nat} {es : List T} {l : Link T}, Seg c.next l es .null →
    es.length ≤ fuel → ∃ zs rest, es = zs ++ rest ∧ (∀ t ∈ zs, c.offset (.entry t) = 0) ∧
      Seg c.next (skipExpired c fuel l) rest .null
  | 0, es, l, h, hlen => by
    obtain rfl := eq_nil_of_length_eq_zero (Nat.le_zero.mp hlen)
    obtain rfl := seg_nil.mp h
    exact ⟨[], [], rfl, fun _ ht => absurd ht not_mem_nil, rfl⟩
  | fuel + 1, [], l, h, _ => by
    obtain rfl := seg_nil.mp h
    exact ⟨[], [], rfl, fun _ ht => absurd ht not_mem_nil, rfl⟩
  | fuel + 1, e :: es, l, h, hlen => by
    obtain ⟨rfl, h⟩ := h
    rw [skipExpired]
    split
    · rename_i h0
      obtain ⟨zs, rest, rfl, hz, hrest⟩ := skipExpired_spec h (Nat.le_of_succ_le_succ hlen)
      exact ⟨e :: zs, rest, rfl, forall_mem_cons.mpr ⟨h0, hz⟩, hrest⟩
    · exact ⟨[], e :: es, rfl, fun _ ht => absurd ht not_mem_nil, rfl, h⟩

variable [DecidableEq T]

/-- **`_is_set` is right.** -/
theorem isSet_iff (h : Linked c ks) : isSet c t = true ↔ t ∈ ks := by
  unfold isSet
  constructor
  · intro hset
    by_contra hmem
    have hlast : c.last ≠ .ref t := by
      rw [h.last]
      intro heq
      cases hl : ks.getLast? with
      | none =>
        rw [hl] at heq
        exact absurd heq (by simp)
      | some z =>
        rw [hl, Link.ofOption_some, Link.ref.injEq] at heq
        exact hmem (heq ▸ mem_of_getLast? hl)
    split at hset
    · exact absurd hset (by decide)
    · rcases of_decide_eq_true hset with hnext | hlast'
      · exact hnext (h.clear t hmem)
      · exact hlast hlast'
  · intro hmem
    obtain ⟨xs, ys, rfl⟩ := append_of_mem hmem
    have hseg := seg_after h.seg
    have hhead : c.next list ≠ .null := by
      intro hnull
      have := h.seg
      rw [hnull] at this
      cases xs with
      | nil => exact absurd this.1 (by simp)
      | cons x xs => exact absurd this.1 (by simp)
    rw [if_neg hhead]
    apply decide_eq_true
    cases ys with
    | nil =>
      right
      rw [h.last, getLast?_append]
      rfl
    | cons y ys =>
      left
      rw [hseg.2.1]
      simp

/-! ## Elapsing time -/

variable [Fintype T]

omit [DecidableEq T] in
theorem Linked.length_le (h : Linked c ks) : ks.length ≤ Fintype.card T := h.nodup.length_le_card

theorem updateLoop_spec : ∀ {fuel : Nat} {c : Clock T} {es : List T} {l : Link T} {diff : UInt32},
    Seg c.next l es .null → es.Nodup → es.length ≤ fuel →
    (updateLoop c fuel l diff).next = c.next ∧ (updateLoop c fuel l diff).last = c.last ∧
      (updateLoop c fuel l diff).adjustSet = c.adjustSet ∧
      (∀ n, (∀ t ∈ es, n ≠ .entry t) → (updateLoop c fuel l diff).offset n = c.offset n) ∧
      (updateLoop c fuel l diff).deltas es = elapse diff.toNat (c.deltas es)
  | 0, c, es, l, diff, h, _, hlen => by
    obtain rfl := eq_nil_of_length_eq_zero (Nat.le_zero.mp hlen)
    exact ⟨rfl, rfl, rfl, fun _ _ => rfl, rfl⟩
  | fuel + 1, c, [], l, diff, h, _, _ => by
    obtain rfl := seg_nil.mp h
    exact ⟨rfl, rfl, rfl, fun _ _ => rfl, rfl⟩
  | fuel + 1, c, e :: es, l, diff, h, hnd, hlen => by
    obtain ⟨rfl, h⟩ := h
    obtain ⟨he, hnd⟩ := nodup_cons.mp hnd
    have hcard : es.length ≤ Fintype.card T := hnd.length_le_card
    have hne : ∀ t ∈ es, (Node.entry t : Node Unit T) ≠ .entry e := by
      rintro t ht heq
      cases heq
      exact he ht
    rw [updateLoop]
    by_cases hle : diff ≤ c.offset (.entry e)
    · rw [if_pos hle]
      refine ⟨rfl, rfl, rfl, fun n hn => update_of_ne (hn e mem_cons_self) _ _, ?_⟩
      rw [Clock.deltas, map_cons, Clock.deltas, map_cons, elapse, if_pos (le_iff_toNat_le.mp hle)]
      dsimp only
      rw [update_self, UInt32.toNat_sub_of_le _ _ hle]
      congr 1
      exact map_congr_left fun t ht => by rw [update_of_ne (hne t ht)]
    · have hgt : c.offset (.entry e) ≤ diff := by
        rw [le_iff_toNat_le] at hle ⊢
        omega
      have hpos : 0 < (diff - c.offset (.entry e)).toNat := by
        rw [UInt32.toNat_sub_of_le _ _ hgt]
        rw [le_iff_toNat_le] at hle
        omega
      have hdiff : diff - c.offset (.entry e) ≠ 0 := by
        intro h0
        rw [h0] at hpos
        exact absurd hpos (by decide)
      rw [if_neg hle]
      rw [if_pos hdiff]
      -- the timers that are skipped are due already
      let c1 : Clock T := { c with offset := update c.offset (.entry e) 0 }
      obtain ⟨zs, rest, rfl, hz, hrest⟩ := @skipExpired_spec T c1 (Fintype.card T + 1) es _ h (by omega)
      obtain ⟨hndz, hndr, hdisj⟩ := nodup_append.mp hnd
      rw [length_cons, length_append] at hlen
      obtain ⟨hnext, hlast, hadj, hother, hdeltas⟩ := @updateLoop_spec fuel c1 rest _
        (diff - c.offset (.entry e)) hrest hndr (by omega)
      have hc1 : ∀ t ∈ zs ++ rest, c1.offset (.entry t) = c.offset (.entry t) :=
        fun t ht => update_of_ne (hne t ht) _ _
      refine ⟨hnext, hlast, hadj, fun n hn => ?_, ?_⟩
      · rw [hother n fun t ht => hn t (mem_cons_of_mem _ (mem_append_right _ ht))]
        exact update_of_ne (hn e mem_cons_self) _ _
      · have hhead := hother (.entry e) fun t ht heq => he (by
          cases heq
          exact mem_append_right _ ht)
        have hzs : ∀ t ∈ zs, (updateLoop c1 fuel (skipExpired c1 (Fintype.card T + 1) (c1.next (.entry e)))
            (diff - c.offset (.entry e))).offset (.entry t) = c.offset (.entry t) := by
          intro t ht
          rw [hother (.entry t) fun u hu heq => hdisj t ht u hu (Node.entry.inj heq)]
          exact hc1 t (mem_append_left _ ht)
        have hzero : ∀ d ∈ c.deltas zs, d.2 = 0 := by
          intro d hd
          obtain ⟨t, ht, rfl⟩ := mem_map.mp hd
          have := hz t ht
          rw [hc1 t (mem_append_left _ ht)] at this
          exact congrArg toNat this
        have hsplit : c.deltas (e :: (zs ++ rest)) =
            (e, (c.offset (.entry e)).toNat) :: (c.deltas zs ++ c.deltas rest) := by
          rw [← deltas_append]
          rfl
        have hle' : ¬ diff.toNat ≤ (c.offset (.entry e)).toNat := fun h => hle (le_iff_toNat_le.mpr h)
        rw [hsplit, elapse, if_neg hle', ← UInt32.toNat_sub_of_le _ _ hgt, elapse_zeros hpos hzero,
          ← deltas_congr (fun t ht => hc1 t (mem_append_right _ ht)), ← hdeltas, ← deltas_congr hzs,
          ← deltas_append, Clock.deltas, map_cons, Clock.deltas]
        congr 2
        rw [hhead]
        show (update c.offset (.entry e) 0 (.entry e)).toNat = 0
        rw [update_self]
        rfl

theorem ztimerUpdateHeadOffset_spec (h : Linked c ks) (now : UInt32) :
    Linked (ztimerUpdateHeadOffset c now) ks ∧ (ztimerUpdateHeadOffset c now).offset list = now ∧
      (ztimerUpdateHeadOffset c now).adjustSet = c.adjustSet ∧
      (ztimerUpdateHeadOffset c now).deltas ks = elapse (now - c.offset list).toNat (c.deltas ks) := by
  obtain ⟨hnext, hlast, hadj, -, hdeltas⟩ := @updateLoop_spec T _ _ (Fintype.card T + 1) c ks (c.next list)
    (now - c.offset list) h.seg h.nodup (Nat.le_succ_of_le h.length_le)
  have hoffset : (ztimerUpdateHeadOffset c now).offset = update
      (updateLoop c (Fintype.card T + 1) (c.next list) (now - c.offset list)).offset list now := rfl
  refine ⟨h.of_eq hnext hlast, ?_, hadj, ?_⟩
  · rw [hoffset, update_self]
  · rw [← hdeltas]
    exact deltas_congr fun t _ => by rw [hoffset, update_of_ne (by simp)]

/-! ## Removal -/

omit [Fintype T] in
theorem delEntryLoop_eq {ys : List T} : ∀ {fuel : Nat} {pos : Node Unit T} {xs : List T},
    Seg c.next (c.next pos) (xs ++ t :: ys) .null → t ∉ xs → xs.length < fuel →
    delEntryLoop c t fuel pos = (true, unlinkEntry c t (after pos xs))
  | 0, _, _, _, _, hlen => absurd hlen (Nat.not_lt_zero _)
  | fuel + 1, pos, [], h, _, _ => by
    rw [delEntryLoop, h.1]
    dsimp only
    rw [if_pos rfl]
    rfl
  | fuel + 1, pos, x :: xs, h, ht, hlen => by
    obtain ⟨hx, ht⟩ := not_or.mp (mem_cons.not.mp ht)
    rw [delEntryLoop, h.1]
    dsimp only
    rw [if_neg (Ne.symm hx), delEntryLoop_eq h.2 ht (Nat.lt_of_succ_lt_succ hlen)]
    rfl

omit [Fintype T] in
theorem unlinkEntry_spec {xs ys : List T} (h : Linked c (xs ++ t :: ys))
    (hsum : ((c.deltas (xs ++ t :: ys)).map Prod.snd).sum < 2 ^ 32) :
    Linked (unlinkEntry c t (after list xs)) (xs ++ ys) ∧
      (unlinkEntry c t (after list xs)).offset list = c.offset list ∧
      (unlinkEntry c t (after list xs)).adjustSet = c.adjustSet ∧
      (unlinkEntry c t (after list xs)).deltas (xs ++ ys) = removeDelta t (c.deltas (xs ++ t :: ys)) := by
  obtain ⟨hxs, hys, hdisj⟩ := nodup_append.mp h.nodup
  obtain ⟨hty, hys⟩ := nodup_cons.mp hys
  have htx : t ∉ xs := fun hx => hdisj t hx t mem_cons_self rfl
  have hpos : ∀ u, u ∉ xs → after (list : Node Unit T) xs ≠ .entry u := by
    intro u hu
    refine after_ne (by simp) fun x hx heq => ?_
    cases heq
    exact hu hx
  have hseg := seg_after h.seg
  have hnd : (xs ++ ys).Nodup :=
    nodup_append.mpr ⟨hxs, hys, fun x hx y hy => hdisj x hx y (mem_cons_of_mem t hy)⟩
  have hlast : (unlinkEntry c t (after list xs)).last = .ofOption (xs ++ ys).getLast? := by
    have hold := h.last
    unfold unlinkEntry
    dsimp only
    rcases eq_nil_or_concat ys with rfl | ⟨zs, z, rfl⟩
    · rw [getLast?_append, getLast?_singleton, Option.some_or, Link.ofOption_some] at hold
      rw [if_pos hold, append_nil]
      rcases eq_nil_or_concat xs with rfl | ⟨us, u, rfl⟩
      · rfl
      · rw [concat_eq_append, after_snoc, getLast?_append]
        rfl
    · rw [concat_eq_append] at hold hty ⊢
      rw [← cons_append, ← append_assoc, getLast?_append, getLast?_singleton,
        Option.some_or, Link.ofOption_some] at hold
      have hzt : z ≠ t := by
        rintro rfl
        exact hty (mem_append_right zs mem_cons_self)
      rw [hold, if_neg fun heq => hzt (Link.ref.inj heq), ← append_assoc, getLast?_append]
      rfl
  have hother : ∀ u, u ∉ ys → (unlinkEntry c t (after list xs)).offset (.entry u) = c.offset (.entry u) := by
    intro u hu
    unfold unlinkEntry
    dsimp only
    rw [update_self]
    cases ys with
    | nil => rw [hseg.2]
    | cons y ys =>
      rw [hseg.2.1]
      refine update_of_ne (fun heq => ?_) _ _
      cases heq
      exact hu mem_cons_self
  refine ⟨⟨?_, hnd, hlast, ?_⟩, ?_, rfl, ?_⟩
  · have hrem := seg_remove h.seg h.nodup (fun _ _ => by simp)
    have hnext : (unlinkEntry c t (after list xs)).next =
        update (update c.next (after list xs) (c.next (.entry t))) (.entry t) .null := rfl
    rw [hnext, update_of_ne (show (list : Node Unit T) ≠ .entry t by simp)]
    refine seg_congr (fun u hu => update_of_ne (fun heq => ?_) _ _) hrem
    cases heq
    rcases mem_append.mp hu with hu | hu
    · exact htx hu
    · exact hty hu
  · intro u hu
    obtain ⟨hux, huy⟩ := not_or.mp (mem_append.not.mp hu)
    by_cases hut : u = t
    · rw [hut]
      exact update_self _ _ _
    · show update (update c.next (after list xs) _) (.entry t) .null (.entry u) = .null
      rw [update_of_ne (by simpa using hut), update_of_ne (Ne.symm (hpos u hux))]
      refine h.clear u fun hmem => ?_
      rcases mem_append.mp hmem with hmem | hmem
      · exact hux hmem
      · rcases mem_cons.mp hmem with hmem | hmem
        · exact hut hmem
        · exact huy hmem
  · unfold unlinkEntry
    dsimp only
    rw [update_self]
    cases ys with
    | nil => rw [hseg.2]
    | cons y ys =>
      rw [hseg.2.1]
      exact update_of_ne (by simp) _ _
  · have hkey : t ∉ (c.deltas xs).map Prod.fst := by
      rw [deltas_keys]
      exact htx
    have hsplit : c.deltas (xs ++ t :: ys) = c.deltas xs ++ (t, (c.offset (.entry t)).toNat) :: c.deltas ys :=
      deltas_append
    rw [hsplit] at hsum ⊢
    rw [removeDelta_append hkey, deltas_append, deltas_congr fun u hu => hother u fun hy =>
      hdisj u hu u (mem_cons_of_mem t hy) rfl]
    congr 1
    cases ys with
    | nil => rfl
    | cons y ys =>
      obtain ⟨hyy, hys⟩ := nodup_cons.mp hys
      have hy : (unlinkEntry c t (after list xs)).offset (.entry y) = c.offset (.entry y) + c.offset (.entry t) := by
        unfold unlinkEntry
        dsimp only
        rw [update_self, hseg.2.1]
        exact update_self _ _ _
      rw [map_append, sum_append, map_cons, sum_cons, Clock.deltas, Clock.deltas, map_cons,
        map_cons, sum_cons] at hsum
      have hadd : (c.offset (.entry y) + c.offset (.entry t)).toNat =
          (c.offset (.entry y)).toNat + (c.offset (.entry t)).toNat := by
        rw [UInt32.toNat_add, Nat.mod_eq_of_lt (by dsimp only at hsum; omega)]
      have hrest : (unlinkEntry c t (after list xs)).deltas ys = c.deltas ys := by
        refine deltas_congr fun u hu => ?_
        unfold unlinkEntry
        dsimp only
        rw [update_self, hseg.2.1]
        refine update_of_ne (fun heq => ?_) _ _
        cases heq
        exact hyy hu
      have hsplit : ∀ c : Clock T, c.deltas (y :: ys) = (y, (c.offset (.entry y)).toNat) :: c.deltas ys :=
        fun _ => rfl
      rw [hsplit, hsplit, hrest, hy, hadd]
      rfl

/-- **`_del_entry_from_list` removes a timer that is set.** -/
theorem delEntryFromList_spec (h : Linked c ks) (ht : t ∈ ks) (hsum : ((c.deltas ks).map Prod.snd).sum < 2 ^ 32) :
    (delEntryFromList c t).1 = true ∧ Linked (delEntryFromList c t).2 (ks.erase t) ∧
      (delEntryFromList c t).2.offset list = c.offset list ∧
      (delEntryFromList c t).2.adjustSet = c.adjustSet ∧
      (delEntryFromList c t).2.deltas (ks.erase t) = removeDelta t (c.deltas ks) := by
  have hlen := h.length_le
  obtain ⟨xs, ys, htx, rfl, herase⟩ := exists_erase_eq ht
  rw [length_append] at hlen
  rw [delEntryFromList, delEntryLoop_eq h.seg htx (by omega), herase]
  exact ⟨rfl, unlinkEntry_spec h hsum⟩

/-! ## Insertion -/

omit [DecidableEq T] [Fintype T] in
theorem addEntryLoop_spec : ∀ {fuel : Nat} {es : List T} {pos : Node Unit T} {deltaSum : UInt32},
    Seg c.next (c.next pos) es .null → es.length < fuel → deltaSum ≤ c.offset (.entry t) →
    deltaSum.toNat + ((c.deltas es).map Prod.snd).sum < 2 ^ 32 →
    ∃ xs ys deltaSum', es = xs ++ ys ∧ addEntryLoop c t fuel pos deltaSum = (after pos xs, deltaSum') ∧
      deltaSum' ≤ c.offset (.entry t) ∧
      (∀ y ∈ ys.head?, (c.offset (.entry t)).toNat - deltaSum'.toNat < (c.offset (.entry y)).toNat) ∧
      insertDelta t ((c.offset (.entry t)).toNat - deltaSum.toNat) (c.deltas es) =
        c.deltas xs ++ insertDelta t ((c.offset (.entry t)).toNat - deltaSum'.toNat) (c.deltas ys)
  | 0, _, _, _, _, hlen, _, _ => absurd hlen (Nat.not_lt_zero _)
  | fuel + 1, [], pos, deltaSum, h, _, hle, _ => by
    refine ⟨[], [], deltaSum, rfl, ?_, hle, fun _ hy => absurd hy (by simp), rfl⟩
    rw [addEntryLoop, seg_nil.mp h]
    rfl
  | fuel + 1, e :: es, pos, deltaSum, h, hlen, hle, hsum => by
    have hsplit : c.deltas (e :: es) = (e, (c.offset (.entry e)).toNat) :: c.deltas es := rfl
    rw [hsplit, map_cons, sum_cons] at hsum
    have hadd : (c.offset (.entry e) + deltaSum).toNat = (c.offset (.entry e)).toNat + deltaSum.toNat := by
      rw [UInt32.toNat_add, Nat.mod_eq_of_lt (by dsimp only at hsum; omega)]
    rw [UInt32.le_iff_toNat_le] at hle
    rw [addEntryLoop, h.1]
    dsimp only
    by_cases hlt : c.offset (.entry t) < c.offset (.entry e) + deltaSum
    · rw [if_pos hlt]
      refine ⟨[], e :: es, deltaSum, rfl, rfl, UInt32.le_iff_toNat_le.mpr hle, ?_, rfl⟩
      intro y hy
      cases hy
      rw [UInt32.lt_iff_toNat_lt, hadd] at hlt
      omega
    · rw [if_neg hlt]
      rw [UInt32.lt_iff_toNat_lt, hadd] at hlt
      rw [UInt32.add_comm] at hadd
      obtain ⟨xs, ys, deltaSum', rfl, hloop, hle', hhead, hins⟩ := @addEntryLoop_spec fuel es (.entry e)
        (deltaSum + c.offset (.entry e)) h.2 (Nat.lt_of_succ_lt_succ hlen)
        (by rw [UInt32.le_iff_toNat_le, hadd]; omega) (by rw [hadd]; dsimp only at hsum; omega)
      refine ⟨e :: xs, ys, deltaSum', rfl, hloop, hle', hhead, ?_⟩
      have hsub : (c.offset (.entry t)).toNat - deltaSum.toNat - (c.offset (.entry e)).toNat =
          (c.offset (.entry t)).toNat - (deltaSum + c.offset (.entry e)).toNat := by
        rw [hadd]
        omega
      rw [hsplit, insertDelta, if_pos (by dsimp only; omega), hsub, hins]
      rfl

omit [Fintype T] in
theorem linkEntry_spec {xs ys : List T} {deltaSum : UInt32} (h : Linked c (xs ++ ys)) (ht : t ∉ xs ++ ys)
    (hle : deltaSum ≤ c.offset (.entry t))
    (hhead : ∀ y ∈ ys.head?, (c.offset (.entry t)).toNat - deltaSum.toNat < (c.offset (.entry y)).toNat) :
    Linked (linkEntry c t (after list xs) deltaSum) (xs ++ t :: ys) ∧
      (linkEntry c t (after list xs) deltaSum).offset list = c.offset list ∧
      (linkEntry c t (after list xs) deltaSum).adjustSet = c.adjustSet ∧
      (linkEntry c t (after list xs) deltaSum).deltas (xs ++ t :: ys) =
        c.deltas xs ++ insertDelta t ((c.offset (.entry t)).toNat - deltaSum.toNat) (c.deltas ys) := by
  obtain ⟨htx, hty⟩ := not_or.mp (mem_append.not.mp ht)
  obtain ⟨hxs, hys, hdisj⟩ := nodup_append.mp h.nodup
  have hseg := seg_after h.seg
  have hnd : (xs ++ t :: ys).Nodup := by
    refine nodup_append.mpr ⟨hxs, nodup_cons.mpr ⟨hty, hys⟩, fun x hx y hy => ?_⟩
    rcases mem_cons.mp hy with rfl | hy
    · rintro rfl
      exact htx hx
    · exact hdisj x hx y hy
  have hpos : after (list : Node Unit T) xs ≠ .entry t := by
    refine after_ne (by simp) fun x hx heq => ?_
    cases heq
    exact htx hx
  have hnext : (linkEntry c t (after list xs) deltaSum).next =
      update (update c.next (.entry t) (c.next (after list xs))) (after list xs) (.ref t) := by
    unfold linkEntry
    dsimp only
    split <;> rfl
  have hlast : (linkEntry c t (after list xs) deltaSum).last = .ofOption (xs ++ t :: ys).getLast? := by
    unfold linkEntry
    dsimp only
    rw [update_self]
    cases ys with
    | nil =>
      rw [seg_nil.mp hseg, getLast?_append]
      rfl
    | cons y ys =>
      rw [hseg.1]
      dsimp only
      rw [h.last, getLast?_append, getLast?_append, getLast?_cons_cons]
  have hoffset : (linkEntry c t (after list xs) deltaSum).offset (.entry t) = c.offset (.entry t) - deltaSum := by
    unfold linkEntry
    dsimp only
    rw [update_self]
    cases ys with
    | nil =>
      rw [seg_nil.mp hseg]
      exact update_self _ _ _
    | cons y ys =>
      have hyt : t ≠ y := fun heq => hty (heq ▸ mem_cons_self)
      rw [hseg.1]
      dsimp only
      rw [update_of_ne (by simpa using hyt), update_self]
  have hother : ∀ n, n ≠ .entry t → (∀ y ∈ ys.head?, n ≠ .entry y) →
      (linkEntry c t (after list xs) deltaSum).offset n = c.offset n := by
    intro n hnt hn
    unfold linkEntry
    dsimp only
    rw [update_self]
    cases ys with
    | nil =>
      rw [seg_nil.mp hseg]
      exact update_of_ne hnt _ _
    | cons y ys =>
      rw [hseg.1]
      dsimp only
      rw [update_of_ne (hn y rfl), update_of_ne hnt]
  refine ⟨⟨?_, hnd, hlast, ?_⟩, hother _ (by simp) (fun _ _ => by simp), ?_, ?_⟩
  · rw [hnext]
    exact seg_insert h.seg h.nodup ht (by simp) (fun _ _ => by simp)
  · intro u hu
    obtain ⟨hux, hu⟩ := not_or.mp (mem_append.not.mp hu)
    obtain ⟨hut, huy⟩ := not_or.mp (mem_cons.not.mp hu)
    have hposu : (Node.entry u : Node Unit T) ≠ after list xs := by
      refine Ne.symm (after_ne (by simp) fun x hx heq => ?_)
      cases heq
      exact hux hx
    rw [hnext, update_of_ne hposu, update_of_ne (by simpa using hut)]
    refine h.clear u fun hmem => ?_
    rcases mem_append.mp hmem with hmem | hmem
    · exact hux hmem
    · exact huy hmem
  · unfold linkEntry
    dsimp only
    split <;> rfl
  · have hdxs : (linkEntry c t (after list xs) deltaSum).deltas xs = c.deltas xs := by
      refine deltas_congr fun x hx => hother _ ?_ fun y hy => ?_
      · rintro heq
        cases heq
        exact htx hx
      · rintro heq
        cases heq
        exact hdisj x hx x (mem_of_mem_head? hy) rfl
    have hdt : (c.offset (.entry t) - deltaSum).toNat = (c.offset (.entry t)).toNat - deltaSum.toNat :=
      UInt32.toNat_sub_of_le _ _ hle
    have hsplit : ∀ (c : Clock T) y ys, c.deltas (y :: ys) = (y, (c.offset (.entry y)).toNat) :: c.deltas ys :=
      fun _ _ _ => rfl
    rw [deltas_append, hdxs, hsplit, hoffset, hdt]
    cases ys with
    | nil => rfl
    | cons y ys =>
      obtain ⟨hyy, hys⟩ := nodup_cons.mp hys
      have hlt := hhead y rfl
      have hy : (linkEntry c t (after list xs) deltaSum).offset (.entry y) =
          c.offset (.entry y) - (c.offset (.entry t) - deltaSum) := by
        have hyt : (Node.entry y : Node Unit T) ≠ .entry t := by
          rintro heq
          cases heq
          exact hty mem_cons_self
        unfold linkEntry
        dsimp only
        rw [update_self, hseg.1]
        dsimp only
        rw [update_self, update_self, update_of_ne hyt]
      have hdys : (linkEntry c t (after list xs) deltaSum).deltas ys = c.deltas ys := by
        refine deltas_congr fun u hu => hother _ ?_ fun z hz => ?_
        · rintro heq
          cases heq
          exact hty (mem_cons_of_mem y hu)
        · rintro heq
          cases heq
          cases hz
          exact hyy hu
      have hle' : c.offset (.entry t) - deltaSum ≤ c.offset (.entry y) := by
        rw [le_iff_toNat_le, hdt]
        omega
      rw [hsplit, hsplit, hdys, hy, UInt32.toNat_sub_of_le _ _ hle', hdt, insertDelta_of_lt]
      · rfl
      · intro d hd
        cases hd
        exact hlt

/-- **`_add_entry_to_list` inserts a timer that is not set.** -/
theorem addEntryToList_spec (h : Linked c ks) (ht : t ∉ ks) (hsum : ((c.deltas ks).map Prod.snd).sum < 2 ^ 32) :
    ∃ ks', Linked (addEntryToList c t) ks' ∧ (addEntryToList c t).offset list = c.offset list ∧
      (addEntryToList c t).adjustSet = c.adjustSet ∧
      (addEntryToList c t).deltas ks' = insertDelta t (c.offset (.entry t)).toNat (c.deltas ks) := by
  obtain ⟨xs, ys, deltaSum, rfl, hloop, hle, hhead, hins⟩ := @addEntryLoop_spec T c t (Fintype.card T + 1) ks list 0
    h.seg (Nat.lt_succ_of_le h.length_le) (UInt32.le_iff_toNat_le.mpr (Nat.zero_le _))
    (by rw [UInt32.toNat_zero, zero_add]; exact hsum)
  rw [UInt32.toNat_zero, Nat.sub_zero] at hins
  obtain ⟨hlinked, hbase, hadj, hdeltas⟩ := linkEntry_spec h ht hle hhead
  refine ⟨xs ++ t :: ys, ?_⟩
  unfold addEntryToList
  rw [hloop, hins]
  exact ⟨hlinked, hbase, hadj, hdeltas⟩

/-! ## Taking a timer off -/

omit [Fintype T] in
/-- **`_now_next` takes off the first timer if it is due.** -/
theorem nowNext_spec (h : Linked c (t :: ks)) (ht : c.offset (.entry t) = 0) :
    (nowNext c).1 = some t ∧ Linked (nowNext c).2 ks ∧ (nowNext c).2.offset = c.offset ∧
      (nowNext c).2.adjustSet = c.adjustSet := by
  obtain ⟨hhead, hseg⟩ := h.seg
  obtain ⟨htk, hks⟩ := nodup_cons.mp h.nodup
  unfold nowNext
  rw [hhead]
  dsimp only
  rw [if_pos ht]
  cases ks with
  | nil =>
    rw [if_pos (seg_nil.mp hseg)]
    refine ⟨rfl, ⟨?_, hks, rfl, fun u _ => ?_⟩, rfl, rfl⟩
    · rw [seg_nil]
      dsimp only
      rw [update_self]
      exact seg_nil.mp hseg
    · dsimp only
      rw [update_of_ne (by simp)]
      by_cases hu : u = t
      · rw [hu]
        exact seg_nil.mp hseg
      · exact h.clear u (by simpa using hu)
  | cons k ks =>
    rw [if_neg (by rw [hseg.1]; simp)]
    refine ⟨rfl, ⟨?_, hks, ?_, fun u hu => ?_⟩, rfl, rfl⟩
    · dsimp only
      rw [update_of_ne (show (list : Node Unit T) ≠ .entry t by simp), update_self]
      refine seg_congr (fun u hu => ?_) hseg
      have hut : (Node.entry u : Node Unit T) ≠ .entry t := by
        rintro heq
        cases heq
        exact htk hu
      rw [update_of_ne hut, update_of_ne (by simp)]
    · rw [h.last, getLast?_cons_cons]
    · dsimp only
      by_cases hut : u = t
      · rw [hut, update_self]
      · rw [update_of_ne (by simpa using hut), update_of_ne (by simp)]
        exact h.clear u (mem_cons.not.mpr (not_or.mpr ⟨hut, hu⟩))

omit [Fintype T] in
theorem nowNext_none (h : Linked c ks) (ht : ∀ t ∈ ks.head?, c.offset (.entry t) ≠ 0) : nowNext c = (none, c) := by
  unfold nowNext
  cases ks with
  | nil => rw [seg_nil.mp h.seg]
  | cons k ks =>
    rw [h.seg.1]
    dsimp only
    rw [if_neg (ht k rfl)]

end Riot.Ztimer
