import Riot.Ztimer.Offsets

/-!
# The calls of a clock and the targets of its timers

`Keeps` reads the clock as a list of timers with the ticks they are set for. Beside each
function stands what it does to that list; from these follow the calls `ztimer_set`
and `ztimer_remove`.
-/

namespace Riot.Ztimer

open Riot.Lib List Prod UInt32

variable {T : Type} [DecidableEq T] [Fintype T] {c : Clock T} {t : T}

/-- The clock stands for timers with targets, counted from `base`. -/
structure Keeps (c : Clock T) (base : Nat) (ts : List (T × Nat)) : Prop where
  linked : Linked c (ts.map Prod.fst)
  encodes : Encodes base 0 (c.deltas (ts.map Prod.fst)) ts
  /-- Without timers the offset of the list means nothing. -/
  base_eq : ts ≠ [] → c.offset list = UInt32.ofNat base
  /-- Targets are within the range of an offset. -/
  near : ∀ e ∈ ts, e.2 < base + 2 ^ 32

variable {base now : Nat} {ts : List (T × Nat)}

omit [DecidableEq T] [Fintype T] in
theorem Keeps.sum_lt (h : Keeps c base ts) : ((c.deltas (ts.map fst)).map snd).sum < 2 ^ 32 := by
  have := h.encodes.sum_lt (by decide) h.near
  omega

omit [DecidableEq T] [Fintype T] in
theorem Keeps.of_linked {ks : List T} (hlinked : Linked c ks) (henc : Encodes base 0 (c.deltas ks) ts)
    (hbase : ts ≠ [] → c.offset list = ofNat base) (hnear : ∀ e ∈ ts, e.2 < base + 2 ^ 32) :
    Keeps c base ts := by
  have hkeys := henc.keys
  rw [deltas_keys] at hkeys
  exact ⟨hkeys ▸ hlinked, hkeys ▸ henc, hbase, hnear⟩

omit [DecidableEq T] [Fintype T] in
theorem Keeps.start {adjustSet : UInt16} {time : Nat} :
    Keeps (start adjustSet time : Sys T).clock base [] where
  linked := ⟨rfl, .nil, rfl, fun _ _ => rfl⟩
  encodes := trivial
  base_eq := fun h => absurd rfl h
  near := fun _ h => absurd h not_mem_nil

theorem toNat_ofNat_sub (h : base ≤ now) :
    (UInt32.ofNat now - UInt32.ofNat base).toNat = (now - base) % 2 ^ 32 := by
  rw [UInt32.toNat_sub, UInt32.toNat_ofNat', UInt32.toNat_ofNat']
  omega

theorem Keeps.update_deltas (h : Keeps c base ts) (hle : base ≤ now) :
    (ztimerUpdateHeadOffset c (ofNat now)).deltas (ts.map fst) =
      elapse ((now - base) % 2 ^ 32) (c.deltas (ts.map fst)) := by
  obtain ⟨-, -, -, hdeltas⟩ := ztimerUpdateHeadOffset_spec h.linked (ofNat now)
  rw [hdeltas]
  cases ts with
  | nil => rfl
  | cons e ts => rw [h.base_eq (cons_ne_nil e ts), toNat_ofNat_sub hle]

/-- **Time has elapsed**, and no target is moved by it. -/
theorem Keeps.update (h : Keeps c base ts) (hle : base ≤ now) (hlt : ts ≠ [] → now < base + 2 ^ 32) :
    Keeps (ztimerUpdateHeadOffset c (ofNat now)) now ts := by
  obtain ⟨hlinked, hbase, -, -⟩ := ztimerUpdateHeadOffset_spec h.linked (ofNat now)
  refine ⟨hlinked, ?_, fun _ => hbase, fun e he => lt_of_lt_of_le (h.near e he) (by omega)⟩
  rw [h.update_deltas hle]
  cases ts with
  | nil => trivial
  | cons e ts =>
    have hsub : (now - base) % 2 ^ 32 = now - base := Nat.mod_eq_of_lt (by
      have := hlt (cons_ne_nil e ts)
      omega)
    have henc := h.encodes.elapse (x := now - base)
    rw [Nat.sub_zero, Nat.zero_sub, Nat.add_sub_cancel' hle] at henc
    rw [hsub]
    exact henc

theorem Keeps.update_late (h : Keeps c base ts) (hle : base ≤ now) {x q : Nat} (hx : x = (now - base) % 2 ^ 32)
    (hq : now = base + x + q) : Keeps (ztimerUpdateHeadOffset c (ofNat now)) now
      (ts.map fun e => (e.1, max e.2 (base + x) + q)) := by
  obtain ⟨hlinked, hbase, -, -⟩ := ztimerUpdateHeadOffset_spec h.linked (ofNat now)
  refine Keeps.of_linked hlinked ?_ (fun _ => hbase) fun e he => ?_
  · have henc := (h.encodes.elapse (x := x)).postpone (q := q)
    rw [Nat.sub_zero, Nat.zero_sub, ← hq] at henc
    rw [h.update_deltas hle, ← hx]
    exact henc
  · obtain ⟨e', he', rfl⟩ := mem_map.mp he
    have := h.near e' he'
    omega

omit [Fintype T] in
theorem Keeps.expireHead {e : T × Nat} (h : Keeps c base (e :: ts)) :
    Keeps (expireHead c e.1) (max e.2 base) (e :: ts) := by
  obtain ⟨hmem, -⟩ := nodup_cons.mp h.linked.nodup
  obtain ⟨-, ho, -⟩ := h.encodes
  have hmax : max e.2 base = base + (c.offset (.entry e.1)).toNat := by
    dsimp only at ho
    omega
  have hoffset : (Riot.Ztimer.expireHead c e.1).offset = Function.update (Function.update c.offset list
      (c.offset list + c.offset (.entry e.1))) (.entry e.1) 0 := rfl
  have hself : (Riot.Ztimer.expireHead c e.1).offset (.entry e.1) = 0 := by rw [hoffset, Function.update_self]
  have hrest : (Riot.Ztimer.expireHead c e.1).deltas (ts.map fst) = c.deltas (ts.map fst) := by
    refine deltas_congr fun u hu => ?_
    have hue : (Node.entry u : Node Unit T) ≠ .entry e.1 := by
      intro heq
      rw [Node.entry.inj heq] at hu
      exact hmem hu
    rw [hoffset, Function.update_of_ne hue, Function.update_of_ne (by simp)]
  rw [hmax]
  refine ⟨h.linked.of_eq rfl rfl, ?_, fun _ => ?_, fun e' he' => ?_⟩
  · have henc := h.encodes.elapse (x := (c.offset (.entry e.1)).toNat)
    have hsplit : ∀ c : Clock T, c.deltas ((e :: ts).map fst) =
        (e.1, (c.offset (.entry e.1)).toNat) :: c.deltas (ts.map fst) := fun _ => rfl
    rw [Nat.sub_zero, Nat.zero_sub, hsplit, elapse, if_pos le_rfl, Nat.sub_self] at henc
    rw [hsplit, hrest, hself]
    exact henc
  · rw [hoffset, Function.update_of_ne (by simp), Function.update_self, h.base_eq (cons_ne_nil e ts),
      UInt32.ofNat_add, UInt32.ofNat_toNat]
  · have := h.near e' he'
    omega

theorem Keeps.remove (h : Keeps c base ts) (ht : t ∈ ts.map fst) :
    (delEntryFromList c t).1 = true ∧ Keeps (delEntryFromList c t).2 base (removeTarget t ts) ∧
      (delEntryFromList c t).2.offset list = c.offset list ∧
      (delEntryFromList c t).2.adjustSet = c.adjustSet := by
  obtain ⟨hfst, hlinked, hbase, hadj, hdeltas⟩ := delEntryFromList_spec h.linked ht h.sum_lt
  refine ⟨hfst, Keeps.of_linked hlinked ?_ (fun hne => ?_) (fun e he => h.near e (mem_removeTarget he)), hbase, hadj⟩
  · rw [hdeltas]
    exact h.encodes.remove
  · rw [hbase]
    refine h.base_eq fun h0 => hne ?_
    rw [h0]
    rfl

theorem Keeps.add (h : Keeps c base ts) (ht : t ∉ ts.map fst) (hbase : c.offset list = ofNat base)
    (v : UInt32) (c' : Clock T)
    (hc' : c' = { c with offset := Function.update c.offset (.entry t) v }) :
    Keeps (addEntryToList c' t) base (insertTarget t (base + v.toNat) ts) ∧
      (addEntryToList c' t).adjustSet = c.adjustSet := by
  subst hc'
  have hlinked : Linked { c with offset := Function.update c.offset (.entry t) v } (ts.map fst) :=
    h.linked.of_eq rfl rfl
  have hdeltas : ({ c with offset := Function.update c.offset (.entry t) v } : Clock T).deltas
      (ts.map fst) = c.deltas (ts.map fst) := by
    refine deltas_congr fun u hu => Function.update_of_ne (fun heq => ?_) _ _
    rw [Node.entry.inj heq] at hu
    exact ht hu
  obtain ⟨ks', hlinked', hbase', hadj, hins⟩ := addEntryToList_spec hlinked ht (by
    rw [hdeltas]
    exact h.sum_lt)
  rw [hdeltas] at hins
  dsimp only at hins hbase'
  rw [Function.update_self] at hins
  refine ⟨Keeps.of_linked hlinked' ?_ (fun _ => hbase'.trans hbase) fun e he => ?_, hadj⟩
  · rw [hins]
    exact h.encodes.insert (Nat.le_add_right base v.toNat) (by omega)
  · rcases mem_insertTarget.mp he with rfl | he
    · have := v.toNat_lt
      omega
    · exact h.near e he

omit [Fintype T] in
theorem Keeps.take {e : T × Nat} (h : Keeps c base (e :: ts)) (hdue : e.2 ≤ base) :
    (nowNext c).1 = some e.1 ∧ Keeps (nowNext c).2 base ts ∧ (nowNext c).2.adjustSet = c.adjustSet := by
  obtain ⟨-, ho, henc⟩ := h.encodes
  dsimp only at ho
  have h0 : (c.offset (.entry e.1)).toNat = 0 := by omega
  obtain ⟨hfst, hlinked, hoffset, hadj⟩ := nowNext_spec h.linked (UInt32.toNat_inj.mp h0)
  refine ⟨hfst, ⟨hlinked, ?_, fun _ => ?_, fun e' he' => h.near e' (mem_cons_of_mem e he')⟩, hadj⟩
  · dsimp only at henc
    rw [h0, add_zero] at henc
    have hdeltas : (nowNext c).2.deltas (ts.map fst) = c.deltas (ts.map fst) :=
      deltas_congr fun u _ => by rw [hoffset]
    rw [hdeltas]
    exact henc
  · rw [hoffset]
    exact h.base_eq (cons_ne_nil e ts)

omit [Fintype T] in
theorem Keeps.take_none (h : Keeps c base ts) (hdue : ∀ e ∈ ts.head?, base < e.2) : nowNext c = (none, c) := by
  refine nowNext_none h.linked fun t ht h0 => ?_
  cases ts with
  | nil => exact absurd ht (by simp)
  | cons e ts =>
    cases ht
    obtain ⟨-, ho, -⟩ := h.encodes
    have hlt := hdue e rfl
    dsimp only at ho
    rw [h0, UInt32.toNat_zero] at ho
    omega

/-! ## Calls -/

section Calls

variable {ops : Ops} {s : Sys T}

omit [DecidableEq T] [Fintype T] in
theorem ztimerUpdate_eq : ztimerUpdate ops s = { s with alarm := (ztimerUpdate ops s).alarm } := by
  unfold ztimerUpdate
  split <;> rfl

omit [DecidableEq T] [Fintype T] in
theorem ztimerUpdate_idem : ztimerUpdate ops (ztimerUpdate ops s) = ztimerUpdate ops s := by
  cases hl : s.clock.next list <;> simp [ztimerUpdate, hl]

omit [DecidableEq T] [Fintype T] in
theorem Keeps.alarm (h : Keeps s.clock base ts) : (ztimerUpdate ops s).alarm =
    ts.head?.map fun e => s.time + (ops.set (ofNat (e.2 - base))).toNat := by
  unfold ztimerUpdate
  cases ts with
  | nil => rw [seg_nil.mp h.linked.seg]; rfl
  | cons e ts =>
    obtain ⟨-, ho, -⟩ := h.encodes
    dsimp only at ho
    rw [h.linked.seg.1]
    dsimp only
    rw [head?_cons, Option.map_some, ← ho, zero_add, UInt32.ofNat_toNat]

omit [Fintype T] in
theorem Keeps.not_mem_remove (h : Keeps c base ts) : t ∉ (removeTarget t ts).map fst := by
  rw [keys_removeTarget]
  exact h.linked.nodup.not_mem_erase

/-- **`ztimer_set`**, once the time is known. -/
theorem Keeps.ztimerSet {v : UInt32} {ks : List T} (hlinked : Linked s.clock ks) (hnow : s.now ops = ofNat now)
    (h : Keeps (ztimerUpdateHeadOffset s.clock (s.now ops)) now ts) :
    Keeps (ztimerSet ops s t v).2.clock now
        (insertTarget t (now + (adjusted s.clock.adjustSet v).toNat) (removeTarget t ts)) ∧
      (ztimerSet ops s t v).2.clock.adjustSet = s.clock.adjustSet ∧
      (ztimerSet ops s t v).2.target =
        Function.update s.target t (s.tick ops + (adjusted s.clock.adjustSet v).toNat) := by
  obtain ⟨-, hbase, hadj, -⟩ := ztimerUpdateHeadOffset_spec hlinked (s.now ops)
  -- the timer is removed if it is set
  have hdel : ∃ c, c = (if isSet (ztimerUpdateHeadOffset s.clock (s.now ops)) t then
        (delEntryFromList (ztimerUpdateHeadOffset s.clock (s.now ops)) t).2
      else ztimerUpdateHeadOffset s.clock (s.now ops)) ∧ Keeps c now (removeTarget t ts) ∧
      c.offset list = ofNat now ∧ c.adjustSet = s.clock.adjustSet := by
    refine ⟨_, rfl, ?_⟩
    by_cases ht : t ∈ ts.map fst
    · obtain ⟨-, hkeeps, hbase', hadj'⟩ := h.remove ht
      rw [if_pos ((isSet_iff h.linked).mpr ht)]
      exact ⟨hkeeps, hbase'.trans (hbase.trans hnow), hadj'.trans hadj⟩
    · rw [if_neg fun hset => ht ((isSet_iff h.linked).mp hset), removeTarget_of_not_mem ht]
      exact ⟨h, hbase.trans hnow, hadj⟩
  obtain ⟨c, hc, hkeeps, hbase', hadj'⟩ := hdel
  have hnot : t ∉ (removeTarget t ts).map fst := h.not_mem_remove
  obtain ⟨hkeeps', hadj''⟩ := hkeeps.add hnot hbase' (adjusted c.adjustSet v) _ rfl
  unfold Riot.Ztimer.ztimerSet
  dsimp only
  rw [ztimerUpdate_eq, ← hc, ← hadj']
  exact ⟨hkeeps', hadj'', rfl⟩

theorem ztimerSet_updated {v : UInt32} :
    ztimerUpdate ops (ztimerSet ops s t v).2 = (ztimerSet ops s t v).2 := ztimerUpdate_idem

theorem ztimerSet_frame {v : UInt32} : (ztimerSet ops s t v).2.time = s.time ∧
    (ztimerSet ops s t v).2.handling = s.handling ∧ (ztimerSet ops s t v).2.fired = s.fired ∧
    (ztimerSet ops s t v).2.lastRead = s.time := by
  unfold ztimerSet
  dsimp only
  rw [ztimerUpdate_eq]
  exact ⟨rfl, rfl, rfl, rfl⟩

/-- **`ztimer_remove`** of a timer that is set. -/
theorem Keeps.ztimerRemove {ks : List T} (hlinked : Linked s.clock ks) (ht : t ∈ ks)
    (h : Keeps (ztimerUpdateHeadOffset s.clock (s.now ops)) now ts) (hkeys : ts.map fst = ks) :
    (ztimerRemove ops s t).1 = true ∧ Keeps (ztimerRemove ops s t).2.clock now (removeTarget t ts) ∧
      (ztimerRemove ops s t).2.clock.adjustSet = s.clock.adjustSet := by
  obtain ⟨-, -, hadj, -⟩ := ztimerUpdateHeadOffset_spec hlinked (s.now ops)
  obtain ⟨hfst, hkeeps, -, hadj'⟩ := h.remove (hkeys ▸ ht)
  unfold Riot.Ztimer.ztimerRemove
  rw [if_pos ((isSet_iff hlinked).mpr ht)]
  dsimp only
  rw [ztimerUpdate_eq]
  exact ⟨hfst, hkeeps, hadj'.trans hadj⟩

theorem ztimerRemove_frame (hset : isSet s.clock t = true) : (ztimerRemove ops s t).2.time = s.time ∧
    (ztimerRemove ops s t).2.handling = s.handling ∧ (ztimerRemove ops s t).2.fired = s.fired ∧
    (ztimerRemove ops s t).2.lastRead = s.time ∧ (ztimerRemove ops s t).2.target = s.target := by
  unfold ztimerRemove
  rw [if_pos hset]
  dsimp only
  rw [ztimerUpdate_eq]
  exact ⟨rfl, rfl, rfl, rfl, rfl⟩

omit [Fintype T] in
theorem ztimerHandler_trigger {e : T} (hhead : s.clock.next list = .ref e)
    (hnext : (nowNext (expireHead s.clock e)).1 = some e) :
    ztimerHandler ops s = trigger ops s (nowNext (expireHead s.clock e)).2 e := by
  unfold ztimerHandler
  rw [hhead]
  dsimp only
  split
  · rename_i entry c hc
    rw [hc] at hnext ⊢
    cases hnext
    rfl
  · rename_i c hc
    rw [hc] at hnext
    exact absurd hnext (by simp)

theorem ztimerHandlerResume_trigger {e : T} (hnext : (nowNext s.clock).1 = some e) :
    ztimerHandlerResume ops s = trigger ops s (nowNext s.clock).2 e := by
  unfold ztimerHandlerResume
  split
  · rename_i entry c hc
    rw [hc] at hnext ⊢
    cases hnext
    rfl
  · rename_i c hc
    rw [hc] at hnext
    exact absurd hnext (by simp)

theorem ztimerHandlerResume_late {e : T} (hnone : nowNext s.clock = (none, s.clock))
    (hnext : (nowNext (ztimerUpdateHeadOffset s.clock (s.now ops))).1 = some e) :
    ztimerHandlerResume ops s = trigger ops { s with lastRead := s.time }
      (nowNext (ztimerUpdateHeadOffset s.clock (s.now ops))).2 e := by
  unfold ztimerHandlerResume
  rw [hnone]
  dsimp only
  split
  · rename_i entry c hc
    rw [hc] at hnext ⊢
    cases hnext
    rfl
  · rename_i c hc
    rw [hc] at hnext
    exact absurd hnext (by simp)

theorem ztimerHandlerResume_end (hnone : nowNext s.clock = (none, s.clock))
    (hnone' : nowNext (ztimerUpdateHeadOffset s.clock (s.now ops)) =
      (none, ztimerUpdateHeadOffset s.clock (s.now ops))) :
    ztimerHandlerResume ops s = ztimerUpdate ops { s with
      clock := ztimerUpdateHeadOffset s.clock (s.now ops), handling := false, lastRead := s.time } := by
  unfold ztimerHandlerResume
  rw [hnone]
  dsimp only
  rw [hnone']

end Calls

end Riot.Ztimer
