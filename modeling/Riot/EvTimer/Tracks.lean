import Riot.EvTimer.Targets

/-!
# Runs of event timers

In every state of a run the event timer represents what was asked for, with every target
kept and every callback made in time and in order, exactly if no call of the run finds
the first event overdue, unless it leaves none.
-/

namespace Riot.EvTimer

open Riot.Lib List World

variable {α : Type} [DecidableEq α] {w w' : World α} {ev ev' : Evtimer α} {k : α}
  {now v t : Nat} {ds : List (α × Nat)}

/-- **The event timer represents the pending events**, with their absolute targets and the
ztimer set for the first; callbacks were made at their targets or later, in target order,
once for every event added that is neither pending nor deleted; and the first event is
called back when its handler runs. -/
structure World.Tracks (w : World α) : Prop where
  targets : targets w.evtimer.base w.evtimer.events = w.pending
  timer : w.evtimer.timer = w.pending.head?.map Prod.snd
  due : ∀ e ∈ w.pending.head?, e.2 ≤ w.now →
    ∃ w', w.step .handler = some w' ∧ ⟨e.1, some e.2, w.now⟩ ∈ w'.callbacks
  called : ∀ c ∈ w.callbacks, ∃ t, c.target = some t ∧ t ≤ c.time
  ordered : w.callbacks.Pairwise fun c c' => ∀ t ∈ c.target, ∀ t' ∈ c'.target, t ≤ t'
  accounted : w.added.Perm (w.callbacks.map (·.event) ++ w.deleted ++ w.pending.map Prod.fst)

/-- What else holds of a run whose calls are in time. -/
structure World.Inv (w : World α) : Prop where
  base_le : w.evtimer.base ≤ w.now
  nodup : (w.evtimer.events.map Prod.fst).Nodup
  sum_lt : (w.evtimer.events.map Prod.snd).sum < 2 ^ 32
  past : ∀ c ∈ w.callbacks, ∀ t ∈ c.target, t ≤ w.now
  before : ∀ c ∈ w.callbacks, ∀ t ∈ c.target, ∀ e ∈ w.pending, t ≤ e.2

/-- A call finds the first event not overdue, or leaves no event. -/
def World.Punctual (w : World α) : Event α → Prop
  | .advance _ => True
  | .add _ _ => w.evtimer.InTime w.now
  | .del event => w.evtimer.InTime w.now ∨ ∀ e ∈ w.evtimer.events, e.1 = event
  | .handler => w.evtimer.InTime w.now ∨ ∀ e ∈ w.evtimer.events.tail, e.2 = 0

/-! ## The handler -/

omit [DecidableEq α] in
/-- The events called back are those at offset zero, up to the first other one. -/
theorem handlerLoop_spec : ds = (handlerLoop ds).1.map (fun k => (k, 0)) ++ (handlerLoop ds).2 ∧
    ∀ d ∈ (handlerLoop ds).2.head?, d.2 ≠ 0 := by
  induction ds with
  | nil => exact ⟨rfl, nofun⟩
  | cons d ds ih =>
    rw [handlerLoop]
    by_cases hd : d.2 = 0
    · rw [if_pos hd]
      refine ⟨?_, ih.2⟩
      show d :: ds = (d.1, 0) :: ((handlerLoop ds).1.map (fun k => (k, 0)) ++ (handlerLoop ds).2)
      rw [← ih.1, ← hd]
    · rw [if_neg hd]
      exact ⟨rfl, fun e he => Option.some.inj he ▸ hd⟩

omit [DecidableEq α] in
theorem targets_zeros {b : Nat} {ks : List α} :
    targets b (ks.map (fun k => (k, 0)) ++ ds) = ks.map (fun k => (k, b)) ++ targets b ds := by
  induction ks with
  | nil => rfl
  | cons k ks ih =>
    rw [map_cons, cons_append, targets, add_zero, ih]
    rfl

theorem callBack_eq {ks : List α} {rest : List (α × Nat)} {cs : List (Callback α)} :
    callBack now ks (ks.map (fun k => (k, t)) ++ rest, cs) =
      (rest, cs ++ ks.map fun k => ⟨k, some t, now⟩) := by
  induction ks generalizing cs with
  | nil => rw [callBack, map_nil, nil_append, map_nil, append_nil]
  | cons k ks ih =>
    have hfind : (((k, t) :: (ks.map (fun k => (k, t)) ++ rest)).find?
        fun e => decide (e.1 = k)).map Prod.snd = some t := by
      rw [find?_cons, decide_eq_true rfl]
      rfl
    have hremove : removeTarget k ((k, t) :: (ks.map (fun k => (k, t)) ++ rest)) =
        ks.map (fun k => (k, t)) ++ rest := by
      rw [removeTarget, eraseP_cons, decide_eq_true rfl]
      rfl
    rw [map_cons, cons_append, callBack, hfind, hremove, ih, map_cons, append_assoc]
    rfl

/-- **The handler in a state that is tracked**: it calls back the first event and those with
the same target, and counts the offsets left from when it runs. -/
theorem handler_step {d : α × Nat} (hpend : targets w.evtimer.base w.evtimer.events = w.pending)
    (hev : w.evtimer.events = d :: ds) (htimer : w.evtimer.timer = some (w.evtimer.base + d.2))
    (hnow : w.evtimer.base + d.2 ≤ w.now) :
    ∃ ks rest, ds = ks.map (fun k => (k, 0)) ++ rest ∧ (∀ r ∈ rest.head?, r.2 ≠ 0) ∧
      w.pending = (d.1 :: ks).map (fun k => (k, w.evtimer.base + d.2)) ++
        targets (w.evtimer.base + d.2) rest ∧
      w.step .handler = some { w with
        evtimer :=
          { events := rest
            base := if rest = [] then w.evtimer.base else w.now
            timer := rest.head?.map fun r => w.now + r.2 }
        pending := targets (w.evtimer.base + d.2) rest
        callbacks := w.callbacks ++
          (d.1 :: ks).map fun k => ⟨k, some (w.evtimer.base + d.2), w.now⟩ } := by
  obtain ⟨hsplit, hhead⟩ := @handlerLoop_spec _ ds
  generalize hres : handlerLoop ds = res at hsplit hhead
  obtain ⟨ks, rest⟩ := res
  have hpending : w.pending = (d.1 :: ks).map (fun k => (k, w.evtimer.base + d.2)) ++
      targets (w.evtimer.base + d.2) rest := by
    rw [← hpend, hev, targets, hsplit, targets_zeros]
    rfl
  refine ⟨ks, rest, hsplit, hhead, hpending, ?_⟩
  have hloop : handlerLoop ((d.1, 0) :: ds) = (d.1 :: ks, rest) := by
    rw [handlerLoop, if_pos rfl, hres]
  have hhandler : evtimerHandler w.now w.evtimer = some (d.1 :: ks,
      { events := rest
        base := if rest = [] then w.evtimer.base else w.now
        timer := rest.head?.map fun r => w.now + r.2 }) := by
    unfold evtimerHandler
    rw [hev]
    dsimp only
    rw [hloop]
    cases rest with
    | nil => rfl
    | cons r rest => rfl
  unfold step
  rw [htimer]
  dsimp only
  rw [if_neg (not_lt.mpr hnow), hhandler, hpending]
  dsimp only [Option.map_some]
  rw [callBack_eq]

theorem World.Tracks.intro (htargets : Riot.Lib.targets w.evtimer.base w.evtimer.events = w.pending)
    (htimer : w.evtimer.timer = w.pending.head?.map Prod.snd)
    (hcalled : ∀ c ∈ w.callbacks, ∃ t, c.target = some t ∧ t ≤ c.time)
    (hordered : w.callbacks.Pairwise fun c c' => ∀ t ∈ c.target, ∀ t' ∈ c'.target, t ≤ t')
    (haccounted : w.added.Perm
      (w.callbacks.map (·.event) ++ w.deleted ++ w.pending.map Prod.fst)) : w.Tracks where
  targets := htargets
  timer := htimer
  due := by
    intro e he hdue
    cases hev : w.evtimer.events with
    | nil =>
      rw [← htargets, hev] at he
      exact nomatch he
    | cons d ds =>
      have hfirst : w.pending.head? = some (d.1, w.evtimer.base + d.2) := by
        rw [← htargets, hev]
        rfl
      obtain rfl := Option.some.inj (hfirst.symm.trans he)
      rw [hfirst] at htimer
      obtain ⟨ks, rest, -, -, -, hstep⟩ := handler_step htargets hev htimer hdue
      exact ⟨_, hstep, mem_append_right _ mem_cons_self⟩
  called := hcalled
  ordered := hordered
  accounted := haccounted

/-- Where a state is tracked, the handler is called at the first target at the earliest. -/
theorem World.Tracks.handler (h : w.Tracks) (hstep : w.step .handler = some w') :
    ∃ d ds, w.evtimer.events = d :: ds ∧ w.evtimer.timer = some (w.evtimer.base + d.2) ∧
      w.evtimer.base + d.2 ≤ w.now := by
  cases hev : w.evtimer.events with
  | nil =>
    have hnone : w.evtimer.timer = none := by
      rw [h.timer, ← h.targets, hev]
      rfl
    unfold step at hstep
    rw [hnone] at hstep
    exact nomatch hstep
  | cons d ds =>
    have htimer : w.evtimer.timer = some (w.evtimer.base + d.2) := by
      rw [h.timer, ← h.targets, hev]
      rfl
    refine ⟨d, ds, rfl, htimer, ?_⟩
    unfold step at hstep
    rw [htimer] at hstep
    dsimp only at hstep
    split at hstep
    · exact nomatch hstep
    · omega

/-- **A handler in time, or one that leaves no event, keeps the targets, and no other one
does.** -/
theorem handler_exact (hI : w.Inv) (hT : w.Tracks) (hstep : w.step .handler = some w') :
    (w.Punctual .handler ↔ w'.Tracks) ∧ (w.Punctual .handler → w'.Inv) := by
  obtain ⟨d, ds, hev, htimer, hnow⟩ := hT.handler hstep
  obtain ⟨ks, rest, hds, hhead, hpend, hstep'⟩ := handler_step hT.targets hev htimer hnow
  obtain rfl := Option.some.inj (hstep'.symm.trans hstep)
  have hin : w.evtimer.InTime w.now ↔ w.now ≤ w.evtimer.base + d.2 := by
    unfold Evtimer.InTime
    rw [hev]
    exact ⟨fun h => h d rfl, fun h e he => Option.some.inj he ▸ h⟩
  -- no event is left just when all offsets behind the first are zero
  have hempty : (∀ e ∈ w.evtimer.events.tail, e.2 = 0) ↔ rest = [] := by
    rw [hev, tail_cons]
    constructor
    · intro hzero
      cases rest with
      | nil => rfl
      | cons r rest =>
        refine absurd (hzero r ?_) (hhead r rfl)
        rw [hds]
        exact mem_append_right _ mem_cons_self
    · intro hnil e he
      rw [hds, hnil, append_nil] at he
      obtain ⟨k, -, rfl⟩ := mem_map.mp he
      rfl
  have hfirst : (d.1, w.evtimer.base + d.2) ∈ w.pending := by
    rw [hpend]
    exact mem_cons_self
  have hrest : ∀ e ∈ targets (w.evtimer.base + d.2) rest, e ∈ w.pending := fun e he => by
    rw [hpend]
    exact mem_append_right _ he
  have hsame : w.Punctual .handler → rest = [] ∨ w.now = w.evtimer.base + d.2 := by
    intro hok
    rcases hok with hok | hok
    · exact .inr (le_antisymm (hin.mp hok) hnow)
    · exact .inl (hempty.mp hok)
  constructor
  · constructor
    · intro hok
      refine World.Tracks.intro ?_ ?_ ?_ ?_ ?_
      · rcases hsame hok with rfl | heq
        · rfl
        · split
          next hnil => rw [hnil]; rfl
          next => rw [heq]
      · rcases hsame hok with rfl | heq
        · rfl
        · rw [heq]
          cases rest <;> rfl
      · intro c hc
        rcases mem_append.mp hc with hc | hc
        · exact hT.called c hc
        · obtain ⟨k, -, rfl⟩ := mem_map.mp hc
          exact ⟨_, rfl, hnow⟩
      · refine pairwise_append.mpr ⟨hT.ordered, ?_, ?_⟩
        · refine pairwise_map.mpr (pairwise_of_forall fun _ _ t ht t' ht' => ?_)
          exact le_of_eq (Option.some.inj (ht.symm.trans ht'))
        · intro c hc c' hc' t ht t' ht'
          obtain ⟨k, -, rfl⟩ := mem_map.mp hc'
          cases ht'
          exact hI.before c hc t ht _ hfirst
      · refine hT.accounted.trans ?_
        rw [hpend, map_append, map_append, map_map, map_map, append_assoc, append_assoc, append_assoc]
        refine List.Perm.append_left _ ?_
        exact perm_append_comm_assoc _ _ _
    · intro hT'
      cases hnil : rest with
      | nil => exact .inr (hempty.mpr hnil)
      | cons r rest' =>
        have htargets := hT'.targets
        dsimp only at htargets
        rw [if_neg (by rw [hnil]; simp), hnil, targets, targets] at htargets
        have hsnd := (Prod.mk.inj (cons.inj htargets).1).2
        exact .inl (hin.mpr (by omega))
  · intro hok
    have hkeys : (rest.map Prod.fst).Sublist (w.evtimer.events.map Prod.fst) := by
      refine List.Sublist.map _ ?_
      rw [hev, hds]
      exact (sublist_append_right _ _).trans (sublist_cons_self _ _)
    have hsum := hI.sum_lt
    rw [hev, hds, map_cons, map_append, sum_cons, sum_append] at hsum
    refine ⟨?_, hI.nodup.sublist hkeys, by dsimp only; omega, ?_, ?_⟩
    · split
      · exact hI.base_le
      · exact le_rfl
    · intro c hc t ht
      rcases mem_append.mp hc with hc | hc
      · exact hI.past c hc t ht
      · obtain ⟨k, -, rfl⟩ := mem_map.mp hc
        exact Option.some.inj ht ▸ hnow
    · intro c hc t ht e he
      rcases mem_append.mp hc with hc | hc
      · exact hI.before c hc t ht e (hrest e he)
      · obtain ⟨k, -, rfl⟩ := mem_map.mp hc
        exact Option.some.inj ht ▸ le_of_mem_targets he

/-! ## Adding -/

/-- Adding an event that is not queued always succeeds and leaves the base at now. -/
theorem evtimerAdd_eq (hk : k ∉ ev.events.map Prod.fst) : evtimerAdd now ev k v = some
      { events := insertDelta k v (updateHeadOffset now ev).events
        base := now
        timer := if ∀ d ∈ (updateHeadOffset now ev).events.head?, v < d.2 then some (now + v)
          else ev.timer } := by
  unfold evtimerAdd
  dsimp only
  rw [addEventToList_eq, timer_updateHeadOffset]
  cases hev : (updateHeadOffset now ev).events with
  | nil => simp [insertDelta, setTimer]
  | cons d ds =>
    have hne : ev.events ≠ [] := by
      intro h0
      rw [updateHeadOffset_nil h0, h0] at hev
      cases hev
    have hd : d.1 ≠ k := by
      rintro rfl
      rw [← @keys_updateHeadOffset _ ev now, hev] at hk
      exact hk mem_cons_self
    rw [base_updateHeadOffset hne, insertDelta]
    by_cases hle : d.2 ≤ v
    · rw [if_pos hle]
      simp [hd, not_lt.mpr hle]
    · rw [if_neg hle]
      simp [setTimer, not_le.mp hle]

/-- **Adding while the first event is in time keeps the targets, and only then.** -/
theorem add_exact (hI : w.Inv) (hT : w.Tracks) (hstep : w.step (.add k v) = some w') :
    (w.Punctual (.add k v) ↔ w'.Tracks) ∧ (w.Punctual (.add k v) → w'.Inv) := by
  unfold step at hstep
  dsimp only at hstep
  split at hstep
  · cases hstep
  rename_i hnew
  obtain ⟨hk, hv⟩ := not_or.mp hnew
  rw [evtimerAdd_eq hk] at hstep
  cases hstep
  obtain ⟨hshift, hdelay⟩ := targets_updateHeadOffset hI.base_le hI.sum_lt
  rw [hT.targets] at hshift
  generalize w.evtimer.delay w.now = x at hshift hdelay
  -- what the list stands for after the call
  have htargets : targets w.now (insertDelta k v (updateHeadOffset w.now w.evtimer).events) =
      insertTarget k (w.now + v) (w.pending.map fun t => (t.1, t.2 + x)) := by
    rw [targets_insertDelta, ← hshift]
    cases hev : w.evtimer.events with
    | nil => rw [updateHeadOffset_nil hev, hev]; rfl
    | cons d ds => rw [base_updateHeadOffset (by rw [hev]; simp)]
  have hzero (hx : x = 0) : w.pending.map (fun t => (t.1, t.2 + x)) = w.pending := by
    rw [hx]
    exact map_id _
  constructor
  · constructor
    · intro hok
      have hx : x = 0 := hdelay.mpr hok
      rw [hzero hx] at htargets hshift
      refine World.Tracks.intro htargets ?_ hT.called hT.ordered ?_
      · rw [← htargets]
        cases hev : (updateHeadOffset w.now w.evtimer).events with
        | nil => simp [insertDelta, targets]
        | cons d ds =>
          have hne : w.evtimer.events ≠ [] := by
            intro h0
            rw [updateHeadOffset_nil h0, h0] at hev
            cases hev
          have htimer := hT.timer
          rw [← hshift, hev, base_updateHeadOffset hne, targets] at htimer
          rw [insertDelta]
          by_cases hle : d.2 ≤ v
          · rw [if_pos hle, targets, htimer]
            simp [not_lt.mpr hle]
          · rw [if_neg hle, targets]
            simp [not_le.mp hle]
      · refine (hT.accounted.append_right [k]).trans ?_
        rw [append_assoc]
        refine List.Perm.append_left _ ?_
        refine perm_append_comm.trans ?_
        exact (perm_insertTarget.map Prod.fst).symm
    · intro hT'
      -- a target put off is not where it is asked for
      have heq := htargets.symm.trans hT'.targets
      refine hdelay.mp (Nat.eq_zero_of_not_pos fun hpos => ?_)
      have hlate : ¬w.evtimer.InTime w.now := fun hin => by
        rw [hdelay.mpr hin] at hpos
        exact Nat.lt_irrefl 0 hpos
      cases hev : w.evtimer.events with
      | nil =>
        refine hlate fun d hd => ?_
        rw [hev] at hd
        cases hd
      | cons d ds =>
        have hpend : w.pending = (d.1, w.evtimer.base + d.2) :: targets (w.evtimer.base + d.2) ds := by
          rw [← hT.targets, hev]
          rfl
        have hover : w.evtimer.base + d.2 < w.now := by
          refine not_le.mp fun hle => hlate fun e he => ?_
          rw [hev] at he
          exact Option.some.inj he ▸ hle
        have hfirst : insertTarget k (w.now + v)
            ((d.1, w.evtimer.base + d.2) :: targets (w.evtimer.base + d.2) ds) =
              (d.1, w.evtimer.base + d.2) ::
                insertTarget k (w.now + v) (targets (w.evtimer.base + d.2) ds) := by
          rw [insertTarget, if_pos (by dsimp only; omega)]
        rw [hpend, map_cons, hfirst, insertTarget] at heq
        split at heq
        · have hsnd := (Prod.mk.inj (cons.inj heq).1).2
          omega
        · have hsnd := (Prod.mk.inj (cons.inj heq).1).2
          omega
  · intro hok
    have hx : x = 0 := hdelay.mpr hok
    have hsum := @sum_updateHeadOffset _ w.evtimer w.now
    have hlt := hI.sum_lt
    refine ⟨le_rfl, ?_, ?_, hI.past, ?_⟩
    · dsimp only
      rw [keys_insertDelta.nodup_iff, keys_updateHeadOffset]
      exact nodup_cons.mpr ⟨hk, hI.nodup⟩
    · dsimp only
      rw [sum_insertDelta]
      omega
    · intro c hc t ht e he
      rcases mem_insertTarget.mp he with rfl | he
      · have := hI.past c hc t ht
        show t ≤ w.now + v
        omega
      · exact hI.before c hc t ht e he

/-! ## Deleting -/

theorem evtimerDel_eq (hsum : (ev.events.map Prod.snd).sum < 2 ^ 32) : evtimerDel now ev k = some
      { events := removeDelta k (updateHeadOffset now ev).events
        base := (updateHeadOffset now ev).base
        timer := (removeDelta k (updateHeadOffset now ev).events).head?.map fun e => now + e.2 } := by
  unfold evtimerDel
  dsimp only
  rw [delEventFromList_eq (lt_of_le_of_lt sum_updateHeadOffset hsum)]
  unfold updateTimer setTimer
  cases hrest : removeDelta k (updateHeadOffset now ev).events with
  | nil => rfl
  | cons e list =>
    have hne : ev.events ≠ [] := by
      intro h0
      rw [updateHeadOffset_nil h0, h0] at hrest
      cases hrest
    rw [if_pos (by simp), base_updateHeadOffset hne]
    rfl

theorem removeTarget_eq_nil_iff (hT : w.Tracks) (hnd : (w.evtimer.events.map Prod.fst).Nodup) :
    removeTarget k w.pending = [] ↔ ∀ e ∈ w.evtimer.events, e.1 = k := by
  have hkeys : (removeTarget k w.pending).map Prod.fst = (w.evtimer.events.map Prod.fst).erase k := by
    rw [keys_removeTarget, ← hT.targets, keys_targets]
  rw [← map_eq_nil_iff (f := Prod.fst), hkeys]
  constructor
  · intro hnil e he
    by_contra hne
    have hmem := (mem_erase_of_ne hne).mpr (mem_map_of_mem (f := Prod.fst) he)
    rw [hnil] at hmem
    cases hmem
  · intro hall
    refine eq_nil_iff_forall_not_mem.mpr fun a ha => ?_
    obtain ⟨e, he, rfl⟩ := mem_map.mp (mem_of_mem_erase ha)
    rw [hall e he] at ha
    exact hnd.not_mem_erase ha

/-- **Deleting while the first event is in time, or the only event, keeps the targets, and
nothing else does.** -/
theorem del_exact (hI : w.Inv) (hT : w.Tracks) (hstep : w.step (.del k) = some w') :
    (w.Punctual (.del k) ↔ w'.Tracks) ∧ (w.Punctual (.del k) → w'.Inv) := by
  unfold step at hstep
  dsimp only at hstep
  rw [evtimerDel_eq hI.sum_lt] at hstep
  cases hstep
  obtain ⟨hshift, hdelay⟩ := targets_updateHeadOffset hI.base_le hI.sum_lt
  rw [hT.targets] at hshift
  generalize w.evtimer.delay w.now = x at hshift hdelay
  have hempty := removeTarget_eq_nil_iff (k := k) hT hI.nodup
  have htargets : targets (updateHeadOffset w.now w.evtimer).base
      (removeDelta k (updateHeadOffset w.now w.evtimer).events) =
        (removeTarget k w.pending).map fun t => (t.1, t.2 + x) := by
    rw [targets_removeDelta, hshift, removeTarget, removeTarget, eraseP_map]
    rfl
  have hexact : w.Punctual (.del k) ↔ targets (updateHeadOffset w.now w.evtimer).base
      (removeDelta k (updateHeadOffset w.now w.evtimer).events) = removeTarget k w.pending := by
    rw [htargets]
    constructor
    · intro hok
      rcases hok with hin | hall
      · rw [hdelay.mpr hin]
        exact map_id _
      · rw [hempty.mpr hall]
        rfl
    · intro heq
      cases hrest : removeTarget k w.pending with
      | nil => exact .inr (hempty.mp hrest)
      | cons t ts =>
        rw [hrest, map_cons] at heq
        have hsnd := congrArg Prod.snd (cons.inj heq).1
        exact .inl (hdelay.mp (by omega))
  constructor
  · rw [hexact]
    refine ⟨fun heq => World.Tracks.intro heq ?_ hT.called hT.ordered ?_, fun hT' => hT'.targets⟩
    · rw [← heq]
      cases hrest : removeDelta k (updateHeadOffset w.now w.evtimer).events with
      | nil => rfl
      | cons e list =>
        have hne : w.evtimer.events ≠ [] := by
          intro h0
          rw [updateHeadOffset_nil h0, h0] at hrest
          cases hrest
        rw [targets, base_updateHeadOffset hne]
        rfl
    · refine hT.accounted.trans ?_
      rw [← append_assoc, append_assoc _ _ ((removeTarget k w.pending).map Prod.fst), ← map_append]
      exact (perm_removeTarget.map Prod.fst).append_left _
  · intro hok
    refine ⟨?_, ?_, ?_, hI.past, ?_⟩
    · cases hev : w.evtimer.events with
      | nil => rw [updateHeadOffset_nil hev]; exact hI.base_le
      | cons d ds => exact le_of_eq (base_updateHeadOffset (by rw [hev]; simp))
    · rw [keys_removeDelta, keys_updateHeadOffset]
      exact hI.nodup.sublist erase_sublist
    · exact lt_of_le_of_lt (le_trans sum_removeDelta sum_updateHeadOffset) hI.sum_lt
    · intro c hc t ht e he
      exact hI.before c hc t ht e (mem_removeTarget he)

/-! ## Runs -/

theorem advance_exact (hI : w.Inv) (hT : w.Tracks) (hstep : w.step (.advance v) = some w') :
    w'.Tracks ∧ w'.Inv := by
  cases hstep
  refine ⟨World.Tracks.intro hT.targets hT.timer hT.called hT.ordered hT.accounted, ?_⟩
  refine ⟨le_trans hI.base_le (Nat.le_add_right _ _), hI.nodup, hI.sum_lt, ?_, hI.before⟩
  intro c hc t ht
  exact le_trans (hI.past c hc t ht) (Nat.le_add_right _ _)

/-- In a state that is tracked, a step is punctual just when the next state is tracked. -/
theorem step_exact (hI : w.Inv) (hT : w.Tracks) {e : Event α} (hstep : w.step e = some w') :
    (w.Punctual e ↔ w'.Tracks) ∧ (w.Punctual e → w'.Inv) := by
  cases e with
  | advance ticks =>
    obtain ⟨hT', hI'⟩ := advance_exact hI hT hstep
    exact ⟨⟨fun _ => hT', fun _ => trivial⟩, fun _ => hI'⟩
  | add event offset => exact add_exact hI hT hstep
  | del event => exact del_exact hI hT hstep
  | handler => exact handler_exact hI hT hstep

theorem init_tracks : (init now : World α).Tracks := World.Tracks.intro rfl rfl nofun .nil (.refl _)

omit [DecidableEq α] in
theorem init_inv : (init now : World α).Inv := ⟨Nat.zero_le _, .nil, (by decide : 0 < 2 ^ 32), nofun,
    nofun⟩

/-- **A run keeps track of its events throughout just when all its calls are punctual.** -/
theorem tracks_iff_punctual (now : Nat) (es : List (Event α)) :
    Always World.step World.Tracks (World.init now) es ↔
      Along World.step World.Punctual (World.init now) es :=
  (along_iff_always (I := World.Inv) (fun _ _ _ hI hT hs => (step_exact hI hT hs).1)
    (fun _ _ _ hI hT hok hs => (step_exact hI hT hs).2 hok) es init_inv init_tracks).symm

/-- **An event added behind one that is overdue**, its handler not having run yet, puts that
one off. -/
theorem not_always_tracks : ¬∀ (now : Nat) (es : List (Event Nat)),
    Always World.step World.Tracks (World.init now) es := by
  intro hall
  have hrun : ∃ w, run World.step (World.init 0) [.add 0 10, .advance 15, .add 1 20] = some w ∧
      targets w.evtimer.base w.evtimer.events ≠ w.pending := by
    refine ⟨_, rfl, ?_⟩
    decide
  obtain ⟨w, hrun, hne⟩ := hrun
  exact hne ((hall 0 _).last hrun).targets

end Riot.EvTimer
