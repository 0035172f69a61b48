import Riot.Event.Event
import Riot.Lib.Runs

/-!
# Nothing posted is lost

In every run in which `event_cancel` is called for the queue that holds the event, the queues
in memory hold what the log says, in the order in which it was linked; what was posted is
called or cancelled later, or still linked or about to be called; and the waiter does not
sleep while an event is queued, unless a context is about to wake it.
-/

namespace Riot.Event

open Riot.Core Riot.Lib Function List World

variable {Q E C : Type} [DecidableEq Q] [DecidableEq E] {log newer older : List (Record Q E)}
  {queue q : Q} {event e : E}

/-! ## What the log says -/

/-- The events in a queue, in the order in which they were linked. -/
def content (q : Q) : List (Record Q E) → List E
  | [] => []
  | .linked queue event :: log => if queue = q then content q log ++ [event] else content q log
  | .taken queue _ :: log => if queue = q then (content q log).tail else content q log
  | .cancelled queue event :: log => if queue = q then (content q log).erase event else content q log
  | .posted _ :: log => content q log
  | .called _ :: log => content q log

theorem content_update {r : Record Q E} {f : List E → List E}
    (h : ∀ q, content q (r :: log) = if queue = q then f (content q log) else content q log) :
    (fun q => content q (r :: log)) = update (fun q => content q log) queue (f (content queue log)) := by
  funext q
  rw [h q]
  by_cases hq : q = queue
  · subst hq
    rw [if_pos rfl, update_self]
  · rw [update_of_ne hq]
    exact if_neg fun heq => hq heq.symm

theorem content_linked : (fun q => content q (.linked queue event :: log))
    = update (fun q => content q log) queue (content queue log ++ [event]) :=
  @content_update _ _ _ _ _ _ _ (· ++ [event]) fun _ => rfl

theorem content_taken : (fun q => content q (.taken queue event :: log))
    = update (fun q => content q log) queue (content queue log).tail := content_update fun _ => rfl

theorem content_cancelled : (fun q => content q (.cancelled queue event :: log))
    = update (fun q => content q log) queue ((content queue log).erase event) :=
  @content_update _ _ _ _ _ _ _ (·.erase event) fun _ => rfl

/-- The queue of a record, and the others. -/
theorem content_split {r : Record Q E} {l : List E}
    (h : (fun q => content q (r :: log)) = update (fun q => content q log) queue l) :
    content queue (r :: log) = l ∧ ∀ q, q ≠ queue → content q (r :: log) = content q log :=
  ⟨(congrFun h queue).trans (update_self ..), fun q hq => (congrFun h q).trans (update_of_ne hq _ _)⟩

/-- Every event taken from a queue was the first in it. -/
def Ordered : List (Record Q E) → Prop
  | [] => True
  | .taken queue event :: log => (content queue log).head? = some event ∧ Ordered log
  | _ :: log => Ordered log

theorem Ordered.first (h : Ordered (newer ++ .taken queue event :: older)) :
    (content queue older).head? = some event := by
  induction newer with
  | nil => exact h.1
  | cons r newer ih =>
    cases r with
    | taken => exact ih h.2
    | _ => exact ih h

variable {w w' : World Q E C} {context c : C} {queues : List Q}

theorem update_entry {mem : NodeMem Q E} {l : Link E} (hne : e ≠ event) :
    update mem (.entry event) l (.entry e) = mem (.entry e) :=
  update_of_ne (fun heq => hne (Node.entry.inj heq)) _ _

theorem update_null {mem : NodeMem Q E} (h : update mem (.entry event) .null (.entry e) ≠ .null) : e ≠ event := by
  rintro rfl
  exact h (update_self ..)

/-- The waiter has popped the event and will call its handler. -/
def World.Holds (w : World Q E C) (e : E) : Prop := w.pc = .getReset e ∨ w.pc = .deliver e

/-- The event is queued, or its handler is about to be called. -/
def World.Keeps (w : World Q E C) (e : E) : Prop := (∃ q, e ∈ content q w.log) ∨ w.Holds e

/-- What was posted is called or cancelled later, or kept. -/
def World.Posts (w : World Q E C) : Prop :=
  ∀ newer older e, w.log = newer ++ .posted e :: older →
    .called e ∈ newer ∨ (∃ q, .cancelled q e ∈ newer) ∨ w.Keeps e

/-- The waiter is asleep in `thread_flags_wait_any`. -/
def World.Asleep (w : World Q E C) (queues : List Q) : Prop :=
  w.pc = .clear queues ∧ w.waiter.status = .flagBlockedAny

/-- A step keeps to the rules: an event is cancelled in the queue that holds it (or in any, if
it is in none and `event_get` is not just taking it). -/
def World.Orderly (w : World Q E C) : Action Q E C → Prop
  | .cancel queue event => event ∈ content queue w.log ∨
    ((∀ q, event ∉ content q w.log) ∧ w.pc ≠ .getReset event)
  | _ => True

/-- The invariant of orderly runs. -/
structure World.Inv (w : World Q E C) : Prop where
  queues : Linkage (fun _ => True) w.mem (fun q => content q w.log)
  marked : ∀ e, w.mem (.entry e) ≠ .null → (∃ q, e ∈ content q w.log) ∨ w.pc = .getReset e
  reset : ∀ e, w.pc = .getReset e → (∀ q, e ∉ content q w.log) ∧ w.mem (.entry e) ≠ .null
  ordered : Ordered w.log
  posts : w.Posts
  scanned : ∀ queues, (w.pc = .waitAny queues ∨ w.Asleep queues) → ∀ q ∈ queues,
    w.claimed q = true ∧ (content q w.log ≠ [] →
      w.waiter.flags &&& threadFlagEvent ≠ 0 ∨ ∃ c, w.posting c = true)
  blocked : w.waiter.status = .flagBlockedAny → (∃ queues, w.pc = .clear queues) ∧
    w.waiter.waitData = threadFlagEvent ∧ w.waiter.flags &&& threadFlagEvent = 0

omit [DecidableEq Q] [DecidableEq E] in
theorem World.not_holds {pc : Pc Q E} (hpc : w.pc = pc) (hreset : ∀ e, pc ≠ .getReset e)
    (hdeliver : ∀ e, pc ≠ .deliver e) (e : E) : ¬w.Holds e := by
  rintro (hpc' | hpc')
  · exact hreset e (hpc.symm.trans hpc')
  · exact hdeliver e (hpc.symm.trans hpc')

omit [DecidableEq Q] [DecidableEq E] in
/-- The waiter is not about to sleep. -/
theorem World.scanned_of {P : List Q → Prop} (hwait : ∀ queues, w.pc ≠ .waitAny queues)
    (hclear : ∀ queues, w.pc ≠ .clear queues) (queues : List Q) (hpc : w.pc = .waitAny queues ∨ w.Asleep queues) :
    P queues := by
  rcases hpc with hpc | ⟨hpc, -⟩
  · exact absurd hpc (hwait queues)
  · exact absurd hpc (hclear queues)

theorem World.Posts.step (h : w.Posts) (rs : List (Record Q E)) (hlog : w'.log = rs ++ w.log)
    (hkeeps : ∀ e, w.Keeps e → w'.Keeps e ∨ .called e ∈ rs ∨ ∃ q, .cancelled q e ∈ rs)
    (hposted : ∀ e, .posted e ∈ rs → w'.Keeps e) : w'.Posts := by
  intro newer older e heq
  rw [hlog] at heq
  have hsplit : (∃ newer', newer = rs ++ newer' ∧ w.log = newer' ++ .posted e :: older) ∨ .posted e ∈ rs := by
    rcases append_eq_append_iff.mp heq with ⟨newer', hnewer, hold⟩ | ⟨rest, hrs, hold⟩
    · exact .inl ⟨newer', hnewer, hold⟩
    · cases rest with
      | nil => exact .inl ⟨[], by rw [hrs, append_nil, append_nil], hold.symm⟩
      | cons r rest =>
        cases hold
        exact .inr (hrs ▸ mem_append_right _ mem_cons_self)
  rcases hsplit with ⟨newer', rfl, hold⟩ | hnew
  · -- the post is an old one
    rcases h newer' older e hold with hcalled | ⟨q, hcancelled⟩ | hkept
    · exact .inl (mem_append_right _ hcalled)
    · exact .inr (.inl ⟨q, mem_append_right _ hcancelled⟩)
    · rcases hkeeps e hkept with hkept | hcalled | ⟨q, hcancelled⟩
      · exact .inr (.inr hkept)
      · exact .inl (mem_append_left _ hcalled)
      · exact .inr (.inl ⟨q, mem_append_left _ hcancelled⟩)
  · exact .inr (.inr (hposted e hnew))

/-! ## Flags -/

theorem event_ne_zero : threadFlagEvent ≠ 0 := by decide

/-- Setting flags wakes the waiter or leaves it waiting for the flag it waits for. -/
theorem World.Inv.setFlags (inv : w.Inv) (mask : BitVec 16) :
    World.Inv { w with waiter := threadFlagsSet w.waiter mask } where
  queues := inv.queues
  marked := inv.marked
  reset := inv.reset
  ordered := inv.ordered
  posts := inv.posts
  scanned all hpc q hq := by
    have hpc' : w.pc = .waitAny all ∨ w.Asleep all :=
      hpc.imp id fun h => ⟨h.1, (threadFlagsSet_blocked h.2).1⟩
    refine ⟨(inv.scanned all hpc' q hq).1, fun hcontent => ?_⟩
    refine ((inv.scanned all hpc' q hq).2 hcontent).imp (fun hflag hzero => hflag ?_) id
    rw [threadFlagsSet_flags, or_and_eq_zero] at hzero
    exact hzero.1
  blocked hstatus := by
    obtain ⟨hstatus', hzero⟩ := threadFlagsSet_blocked hstatus
    obtain ⟨hpc, hdata, -⟩ := inv.blocked hstatus'
    rw [hdata] at hzero
    refine ⟨hpc, threadFlagsSet_waitData.trans hdata, ?_⟩
    rw [threadFlagsSet_flags]
    exact hzero

theorem World.Inv.woken (inv : w.Inv) :
    (threadFlagsSet w.waiter threadFlagEvent).status ≠ .flagBlockedAny := by
  intro hstatus
  obtain ⟨hstatus', -⟩ := threadFlagsSet_blocked hstatus
  obtain ⟨-, hdata, -⟩ := inv.blocked hstatus'
  have := @threadFlagsSet_wakes w.waiter (by rw [hdata]; exact event_ne_zero)
  rw [hdata] at this
  exact this hstatus

/-! ## `event_post` -/

theorem World.Inv.unlinked (inv : w.Inv) (hnull : w.mem (.entry e) = .null) :
    Unlinked (fun q => content q w.log) e := by
  intro q hmem
  obtain ⟨u, -, hnext⟩ := next_mem inv.queues True.intro hmem
  cases hnull.symm.trans hnext

section Post

variable [DecidableEq C]

/-- What the waiter saw empty it saw before the post, and the context is about to wake it. -/
theorem World.Inv.scanned_post (inv : w.Inv) (hfree : w.posting context = false) {log' : List (Record Q E)}
    (hlog : ∀ q, q ≠ queue → content q log' = content q w.log) {all : List Q}
    (hpc : w.pc = .waitAny all ∨ w.Asleep all) : ∀ q ∈ all, w.claimed q = true ∧
      (content q log' ≠ [] → w.waiter.flags &&& threadFlagEvent ≠ 0 ∨
        ∃ c, update w.posting context (w.claimed queue) c = true) := by
  intro q hq
  obtain ⟨hclaimed, hnonempty⟩ := inv.scanned all hpc q hq
  refine ⟨hclaimed, fun hcontent => ?_⟩
  by_cases hqueue : q = queue
  · exact .inr ⟨context, by rw [update_self, ← hqueue, hclaimed]⟩
  · rw [hlog q hqueue] at hcontent
    refine (hnonempty hcontent).imp id fun ⟨c, hc⟩ => ⟨c, ?_⟩
    have hne : c ≠ context := fun heq => Bool.false_ne_true (hfree.symm.trans (heq ▸ hc))
    rw [update_of_ne hne, hc]

theorem World.Inv.post (inv : w.Inv) (hfree : w.posting context = false) :
    (w.post context queue event).Inv := by
  unfold World.post
  split
  next hnull =>
    have hunlinked := inv.unlinked hnull
    have hcontent := @content_linked Q E _ _ w.log queue event
    obtain ⟨hthis, hother⟩ := content_split hcontent
    have hgrows : ∀ q e, e ∈ content q w.log → e ∈ content q (.linked queue event :: w.log) := by
      intro q e he
      by_cases hq : q = queue
      · rw [hq] at he
        rw [hq, hthis]
        exact mem_append_left _ he
      · rw [hother q hq]
        exact he
    have hevent : event ∈ content queue (.linked queue event :: w.log) := by
      rw [hthis]
      exact mem_append_right _ (mem_singleton_self event)
    refine ⟨?_, ?_, ?_, inv.ordered, ?_, fun all => inv.scanned_post hfree hother, inv.blocked⟩
    · show Linkage _ _ (fun q => content q (.linked queue event :: w.log))
      rw [hcontent]
      exact clistRpush_linkage inv.queues True.intro hunlinked
    · intro e he
      by_cases heq : e = event
      · exact .inl ⟨queue, heq ▸ hevent⟩
      · by_cases hmem : e ∈ content queue w.log
        · exact .inl ⟨queue, hgrows queue e hmem⟩
        · change clistRpush w.mem (.head queue) event (.entry e) ≠ .null at he
          rw [clistRpush_entry inv.queues True.intro hmem heq] at he
          exact (inv.marked e he).imp (fun ⟨q, hq⟩ => ⟨q, hgrows q e hq⟩) id
    · intro e hpc
      obtain ⟨hnot, hne⟩ := inv.reset e hpc
      -- the event just taken is still marked, and not linked again
      have heq : e ≠ event := fun heq => hne (heq ▸ hnull)
      refine ⟨fun q hq => ?_, ?_⟩
      · by_cases hqueue : q = queue
        · change e ∈ content q (.linked queue event :: w.log) at hq
          rw [hqueue, hthis] at hq
          rcases mem_append.mp hq with hq | hq
          · exact hnot queue hq
          · exact heq (mem_singleton.mp hq)
        · exact hnot q (hother q hqueue ▸ hq)
      · show clistRpush w.mem (.head queue) event (.entry e) ≠ .null
        rw [clistRpush_entry inv.queues True.intro (hnot queue) heq]
        exact hne
    · refine inv.posts.step [.posted event, .linked queue event] rfl
        (fun e hkeeps => .inl (hkeeps.imp (fun ⟨q, hq⟩ => ⟨q, hgrows q e hq⟩) id)) ?_
      intro e he
      simp only [mem_cons, Record.posted.injEq, reduceCtorEq, not_mem_nil, or_false] at he
      exact .inl ⟨queue, he ▸ hevent⟩
  next hmarked =>
    refine ⟨inv.queues, inv.marked, inv.reset, inv.ordered, ?_,
      fun all => inv.scanned_post hfree (fun _ _ => rfl), inv.blocked⟩
    refine inv.posts.step [.posted event] rfl (fun e hkeeps => .inl hkeeps) ?_
    intro e he
    obtain rfl : e = event := by simpa using he
    exact (inv.marked e hmarked).imp id .inl

/-- A context that has posted sets the flag: the waiter does not sleep any more. -/
theorem World.Inv.postFlag (inv : w.Inv) : World.Inv { w with
      waiter := threadFlagsSet w.waiter threadFlagEvent
      posting := update w.posting context false } where
  queues := inv.queues
  marked := inv.marked
  reset := inv.reset
  ordered := inv.ordered
  posts := inv.posts
  scanned all hpc q hq := by
    have hset := inv.setFlags threadFlagEvent
    refine ⟨(hset.scanned all hpc q hq).1, fun _ => .inl ?_⟩
    rw [threadFlagsSet_flags]
    exact fun hzero => event_ne_zero ((BitVec.and_self).symm.trans (or_and_eq_zero.mp hzero).2)
  blocked := (inv.setFlags threadFlagEvent).blocked

end Post

/-! ## `event_cancel` -/

section Cancel

variable [Fintype E]

theorem World.Inv.cancel (inv : w.Inv) (hord : w.Orderly (.cancel queue event)) : (w.cancel queue event).Inv := by
  have hcontent := @content_cancelled Q E _ _ w.log queue event
  obtain ⟨hthis, hother⟩ := content_split hcontent
  have hshrinks : ∀ q e, e ∈ content q (.cancelled queue event :: w.log) → e ∈ content q w.log := by
    intro q e he
    by_cases hq : q = queue
    · rw [hq] at he ⊢
      exact mem_of_mem_erase (hthis ▸ he)
    · exact hother q hq ▸ he
  have hstays : ∀ q e, e ≠ event → e ∈ content q w.log → e ∈ content q (.cancelled queue event :: w.log) := by
    intro q e hne he
    by_cases hq : q = queue
    · rw [hq] at he ⊢
      rw [hthis]
      exact (mem_erase_of_ne hne).mpr he
    · rw [hother q hq]
      exact he
  have hgone : ∀ q, event ∉ content q (.cancelled queue event :: w.log) := by
    intro q he
    rcases hord with hmem | ⟨hnot, -⟩
    · obtain rfl : q = queue := inv.queues.disjoint q queue event (hshrinks q event he) hmem
      rw [hthis] at he
      exact (inv.queues.nodup q).not_mem_erase he
    · exact hnot q (hshrinks q event he)
  have hlinkage : Linkage (fun _ => True) (clistRemove w.mem (Fintype.card E) (.head queue) event)
      (fun q => content q (.cancelled queue event :: w.log)) := by
    rw [hcontent]
    rcases hord with hmem | ⟨hnot, -⟩
    · exact clistRemove_linkage inv.queues True.intro hmem (List.Nodup.length_le_card (inv.queues.nodup queue))
    · rw [erase_of_not_mem (hnot queue), update_eq_self, clistRemove_missing inv.queues True.intro (hnot queue)]
      exact inv.queues
  -- an event that `event_get` is taking is another one
  have hheld : w.pc ≠ .getReset event := by
    rcases hord with hmem | ⟨-, hpc⟩
    · exact fun hpc => (inv.reset event hpc).1 queue hmem
    · exact hpc
  refine ⟨hlinkage.update_unlinked hgone .null, ?_, ?_, inv.ordered, ?_, ?_, inv.blocked⟩
  · intro e he
    have hne := update_null he
    by_cases hqueue : e ∈ content queue w.log
    · exact .inl ⟨queue, hstays queue e hne hqueue⟩
    · have he' : w.mem (.entry e) ≠ .null := by
        intro hnull
        refine he ((update_entry hne).trans ?_)
        rw [clistRemove_entry inv.queues True.intro hqueue]
        exact hnull
      exact (inv.marked e he').imp (fun ⟨q, hq⟩ => ⟨q, hstays q e hne hq⟩) id
  · intro e hpc
    obtain ⟨hnot, hne⟩ := inv.reset e hpc
    refine ⟨fun q hq => hnot q (hshrinks q e hq), fun hnull => hne ?_⟩
    have heq : e ≠ event := fun heq => hheld (heq ▸ hpc)
    have hsame := @clistRemove_entry Q E _ _ w.mem _ _ queue event e (Fintype.card E) inv.queues True.intro
      (hnot queue)
    exact hsame.symm.trans ((update_entry heq).symm.trans hnull)
  · refine inv.posts.step [.cancelled queue event] rfl ?_ (fun e he => by simp at he)
    intro e hkeeps
    by_cases heq : e = event
    · exact .inr (.inr ⟨queue, by simp [heq]⟩)
    · exact .inl (hkeeps.imp (fun ⟨q, hq⟩ => ⟨q, hstays q e heq hq⟩) id)
  · intro all hpc q hq
    obtain ⟨hclaimed, hwakes⟩ := inv.scanned all hpc q hq
    refine ⟨hclaimed, fun hnonempty => hwakes fun hnil => hnonempty ?_⟩
    refine eq_nil_iff_forall_not_mem.mpr fun e he => ?_
    have := hshrinks q e he
    rw [hnil] at this
    cases this

end Cancel

/-! ## Taking the first event -/

theorem World.Inv.awake (inv : w.Inv) {pc : Pc Q E} (hpc : w.pc = pc) (hclear : ∀ queues, pc ≠ .clear queues) :
    w.waiter.status ≠ .flagBlockedAny := by
  intro hstatus
  obtain ⟨⟨queues, hpc'⟩, -⟩ := inv.blocked hstatus
  exact hclear queues (hpc.symm.trans hpc')

theorem World.Inv.first (inv : w.Inv) (hpeek : clistLpeek w.mem (.head queue) = .ref event) :
    ∃ events, content queue w.log = event :: events := by
  cases hcontent : content queue w.log with
  | nil =>
    have hring := inv.queues.ring_of (h := queue) True.intro
    rw [hcontent, ring_nil] at hring
    unfold clistLpeek at hpeek
    rw [hring] at hpeek
    cases hpeek
  | cons first events =>
    have := clistLpeek_cons inv.queues True.intro hcontent
    obtain rfl : first = event := by
      rw [hpeek] at this
      exact (Link.ref.inj this).symm
    exact ⟨events, rfl⟩

theorem World.Inv.empty (inv : w.Inv) (hpeek : ∀ e, clistLpeek w.mem (.head queue) ≠ .ref e) :
    content queue w.log = [] := by
  cases hcontent : content queue w.log with
  | nil => rfl
  | cons first events => exact absurd (clistLpeek_cons inv.queues True.intro hcontent) (hpeek first)

/-- What a state says of the queues after `event` has been popped from `queue`. -/
structure World.Popped (w : World Q E C) (queue : Q) (event : E) : Prop where
  queues : Linkage (fun _ => True) (clistLpop w.mem (.head queue))
    (fun q => content q (.taken queue event :: w.log))
  gone : ∀ q, event ∉ content q (.taken queue event :: w.log)
  stays : ∀ q e, e ≠ event → e ∈ content q w.log → e ∈ content q (.taken queue event :: w.log)
  entry : ∀ e, e ∉ content queue w.log → clistLpop w.mem (.head queue) (.entry e) = w.mem (.entry e)
  marked : clistLpop w.mem (.head queue) (.entry event) ≠ .null
  first : (content queue w.log).head? = some event

theorem World.Inv.popped (inv : w.Inv) (hpeek : clistLpeek w.mem (.head queue) = .ref event) :
    w.Popped queue event := by
  obtain ⟨events, hevents⟩ := inv.first hpeek
  have hcontent := @content_taken Q E _ _ w.log queue event
  obtain ⟨hthis, hother⟩ := content_split hcontent
  rw [hevents, tail_cons] at hthis
  have hnodup : (event :: events).Nodup := hevents ▸ inv.queues.nodup queue
  have hmem : event ∈ content queue w.log := by
    rw [hevents]
    exact mem_cons_self ..
  refine ⟨?_, ?_, ?_, fun e he => clistLpop_entry inv.queues True.intro he, ?_, by rw [hevents]; rfl⟩
  · rw [hcontent, hevents]
    exact clistLpop_linkage inv.queues True.intro hevents
  · intro q he
    by_cases hq : q = queue
    · rw [hq, hthis] at he
      exact (nodup_cons.mp hnodup).1 he
    · rw [hother q hq] at he
      exact hq (inv.queues.disjoint q queue event he hmem)
  · intro q e hne he
    by_cases hq : q = queue
    · rw [hq, hthis]
      rw [hq, hevents] at he
      exact (mem_cons.mp he).resolve_left hne
    · rw [hother q hq]
      exact he
  · -- the link of the first element is not written
    obtain ⟨u, -, hnext⟩ := next_mem inv.queues True.intro hmem
    have hsame : clistLpop w.mem (.head queue) (.entry event) = w.mem (.entry event) := by
      unfold clistLpeek at hpeek
      unfold clistLpop
      cases hhead : w.mem (.head queue) with
      | null | mark => rfl
      | ref last =>
        rw [hhead] at hpeek
        dsimp only at hpeek ⊢
        rw [hpeek]
        dsimp only
        split
        · simp
        next hne => exact update_entry fun heq => hne heq.symm
    rw [hsame, hnext]
    exact nofun

theorem World.Popped.kept (hpopped : w.Popped queue event) (inv : w.Inv) (hpc : ∀ e, ¬w.Holds e) (hne : e ≠ event)
    (he : clistLpop w.mem (.head queue) (.entry e) ≠ .null) : ∃ q, e ∈ content q (.taken queue event :: w.log) := by
  by_cases hmem : e ∈ content queue w.log
  · exact ⟨queue, hpopped.stays queue e hne hmem⟩
  · have he' : w.mem (.entry e) ≠ .null := fun hnull => he ((hpopped.entry e hmem).trans hnull)
    obtain ⟨q, hq⟩ := (inv.marked e he').resolve_right fun hpc' => hpc e (.inl hpc')
    exact ⟨q, hpopped.stays q e hne hq⟩

theorem World.Popped.posts (hpopped : w.Popped queue event) (inv : w.Inv) (hpc : ∀ e, ¬w.Holds e)
    (hlog : w'.log = .taken queue event :: w.log) (hafter : w'.Holds event) : w'.Posts := by
  refine inv.posts.step [.taken queue event] hlog (fun e hkeeps => .inl ?_) (fun e he => by simp at he)
  by_cases heq : e = event
  · exact .inr (heq ▸ hafter)
  · obtain ⟨q, hq⟩ := hkeeps.resolve_right (hpc e)
    exact .inl ⟨q, hlog ▸ hpopped.stays q e heq hq⟩

theorem World.Inv.get (inv : w.Inv) (hpc : w.pc = .running) : (w.get queue).Inv := by
  unfold World.get
  split
  next event hpeek =>
    have hpopped := inv.popped hpeek
    have hholds := not_holds hpc nofun nofun
    refine ⟨hpopped.queues, fun e he => ?_, ?_, ⟨hpopped.first, inv.ordered⟩, hpopped.posts inv hholds rfl (.inl rfl),
      scanned_of nofun nofun, fun hstatus => absurd hstatus (inv.awake hpc nofun)⟩
    · by_cases heq : e = event
      · exact .inr (heq ▸ rfl)
      · exact .inl (hpopped.kept inv hholds heq he)
    · intro e hpc'
      obtain rfl : event = e := Pc.getReset.inj hpc'
      exact ⟨hpopped.gone, hpopped.marked⟩
  next => exact inv

/-- What the loop over the queues finds: the first event of a queue, or all are empty. -/
theorem World.scan_cases {all : List Q} : ∀ {queues : List Q}, w.scan all queues = some w' →
    (w' = { w with pc := .waitAny all } ∧ ∀ q ∈ queues, w.claimed q = true ∧
      ∀ e, clistLpeek w.mem (.head q) ≠ .ref e) ∨
    ∃ queue event, clistLpeek w.mem (.head queue) = .ref event ∧
      w' = { w with
        mem := update (clistLpop w.mem (.head queue)) (.entry event) .null
        pc := .deliver event
        log := .taken queue event :: w.log } := by
  intro queues
  induction queues with
  | nil =>
    intro h
    exact .inl ⟨(Option.some.inj h).symm, fun q hq => nomatch hq⟩
  | cons queue queues ih =>
    intro h
    rw [scan] at h
    split at h
    next hclaimed =>
      split at h
      next event hpeek => exact .inr ⟨queue, event, hpeek, (Option.some.inj h).symm⟩
      next hempty =>
        refine (ih h).imp (fun ⟨hw', hothers⟩ => ⟨hw', ?_⟩) id
        intro q hq
        rcases mem_cons.mp hq with rfl | hq
        · exact ⟨hclaimed, hempty⟩
        · exact hothers q hq
    next => cases h

theorem World.Inv.scan (inv : w.Inv) (hpc : w.pc = .scan queues)
    (h : w.scan queues queues = some w') : w'.Inv := by
  have hawake := inv.awake hpc nofun
  have hholds := not_holds hpc nofun nofun
  rcases scan_cases h with ⟨rfl, hempty⟩ | ⟨queue, event, hpeek, rfl⟩
  · refine ⟨inv.queues, fun e he => .inl ((inv.marked e he).resolve_right fun hpc' => hholds e (.inl hpc')),
      nofun, inv.ordered, ?_, ?_, fun hstatus => absurd hstatus hawake⟩
    · refine inv.posts.step [] rfl ?_ nofun
      exact fun e hkeeps => .inl (.inl (hkeeps.resolve_right (hholds e)))
    · intro all hpc' q hq
      obtain rfl : queues = all := by
        rcases hpc' with hpc' | ⟨hpc', -⟩
        · exact Pc.waitAny.inj hpc'
        · cases hpc'
      exact ⟨(hempty q hq).1, fun hcontent => absurd (inv.empty (hempty q hq).2) hcontent⟩
  · have hpopped := inv.popped hpeek
    refine ⟨hpopped.queues.update_unlinked hpopped.gone .null, fun e he => ?_, nofun, ⟨hpopped.first, inv.ordered⟩,
      hpopped.posts inv hholds rfl (.inr rfl), scanned_of nofun nofun, fun hstatus => absurd hstatus hawake⟩
    have hne := update_null he
    exact .inl (hpopped.kept inv hholds hne fun hnull => he ((update_entry hne).trans hnull))

/-! ## The waiter goes on -/

theorem World.Inv.getReset (inv : w.Inv) (hpc : w.pc = .getReset event) :
    World.Inv { w with mem := update w.mem (.entry event) .null, pc := .deliver event } := by
  obtain ⟨hnot, -⟩ := inv.reset event hpc
  refine ⟨inv.queues.update_unlinked hnot .null, fun e he => ?_, nofun, inv.ordered, ?_,
    scanned_of nofun nofun, fun hstatus => absurd hstatus (inv.awake hpc nofun)⟩
  · have hne := update_null he
    refine .inl ((inv.marked e fun hnull => he ((update_entry hne).trans hnull)).resolve_right fun hpc' => ?_)
    exact hne (Pc.getReset.inj (hpc'.symm.trans hpc))
  · refine inv.posts.step [] rfl ?_ nofun
    intro e hkeeps
    rcases hkeeps with hqueued | hpc' | hpc'
    · exact .inl (.inl hqueued)
    · exact .inl (.inr (.inr (congrArg Pc.deliver (Pc.getReset.inj (hpc.symm.trans hpc')))))
    · cases hpc.symm.trans hpc'

/-- A move of the waiter that touches no queue and after which it does not sleep. -/
theorem World.Inv.move (inv : w.Inv) {waiter : FlagThread} {pc : Pc Q E}
    (hbefore : ∀ e, ¬w.Holds e) (hafter : ∀ e, pc ≠ .getReset e)
    (hscanned : ∀ queues, (pc = .waitAny queues ∨ (pc = .clear queues ∧ waiter.status = .flagBlockedAny)) →
      ∀ q ∈ queues, w.claimed q = true ∧ (content q w.log ≠ [] →
        waiter.flags &&& threadFlagEvent ≠ 0 ∨ ∃ c, w.posting c = true))
    (hblocked : waiter.status = .flagBlockedAny → (∃ queues, pc = .clear queues) ∧
      waiter.waitData = threadFlagEvent ∧ waiter.flags &&& threadFlagEvent = 0) :
    World.Inv { w with waiter := waiter, pc := pc } where
  queues := inv.queues
  marked e he := .inl ((inv.marked e he).resolve_right fun hpc => hbefore e (.inl hpc))
  reset e hpc := absurd hpc (hafter e)
  ordered := inv.ordered
  posts := inv.posts.step [] rfl (fun e hkeeps => .inl (.inl (hkeeps.resolve_right (hbefore e)))) nofun
  scanned := hscanned
  blocked := hblocked

theorem World.Inv.waitAny (inv : w.Inv) (hpc : w.pc = .waitAny queues) :
    World.Inv { w with
      waiter := threadFlagsWaitAny w.waiter threadFlagEvent
      pc := .clear queues } := by
  have hflags : (threadFlagsWaitAny w.waiter threadFlagEvent).flags = w.waiter.flags := by
    unfold threadFlagsWaitAny
    split <;> rfl
  refine inv.move (not_holds hpc nofun nofun) nofun ?_ ?_
  · intro all hpc' q hq
    obtain rfl : queues = all := by
      rcases hpc' with hpc' | ⟨hpc', -⟩
      · cases hpc'
      · exact Pc.clear.inj hpc'
    rw [hflags]
    exact inv.scanned queues (.inl hpc) q hq
  · intro hstatus
    unfold threadFlagsWaitAny at hstatus ⊢
    split at hstatus
    next hzero =>
      rw [if_pos hzero]
      exact ⟨⟨queues, rfl⟩, rfl, hzero⟩
    next => exact absurd hstatus (inv.awake hpc nofun)

theorem World.Inv.clear (inv : w.Inv) (hpc : w.pc = .clear queues)
    (hawake : w.waiter.status ≠ .flagBlockedAny) :
    World.Inv { w with
      waiter := (threadFlagsClearAtomic w.waiter threadFlagEvent).2
      pc := .scan queues } := by
  refine inv.move (not_holds hpc nofun nofun) nofun ?_ (fun hstatus => absurd hstatus hawake)
  rintro all (hpc' | ⟨hpc', -⟩)
  · cases hpc'
  · cases hpc'

theorem World.Inv.waitMulti (inv : w.Inv) (hpc : w.pc = .running) :
    World.Inv { w with pc := .scan queues } := by
  refine @World.Inv.move _ _ _ _ _ w inv w.waiter _ (not_holds hpc nofun nofun) nofun ?_ ?_
  · rintro all (hpc' | ⟨hpc', -⟩)
    · cases hpc'
    · cases hpc'
  · exact fun hstatus => absurd hstatus (inv.awake hpc nofun)

theorem World.Inv.deliver (inv : w.Inv) (hpc : w.pc = .deliver event) :
    World.Inv { w with pc := .running, log := .called event :: w.log } := by
  refine ⟨inv.queues, fun e he => .inl ((inv.marked e he).resolve_right fun hpc' => ?_), nofun, inv.ordered, ?_,
    scanned_of nofun nofun, fun hstatus => absurd hstatus (inv.awake hpc nofun)⟩
  · cases hpc.symm.trans hpc'
  · refine inv.posts.step [.called event] rfl ?_ (fun e he => by simp at he)
    intro e hkeeps
    rcases hkeeps with hqueued | hpc' | hpc'
    · exact .inl (.inl hqueued)
    · cases hpc.symm.trans hpc'
    · refine .inr (.inl ?_)
      rw [Pc.deliver.inj (hpc.symm.trans hpc')]
      exact mem_singleton_self _

theorem World.Inv.claim (inv : w.Inv) :
    World.Inv { w with claimed := update w.claimed queue true } where
  queues := inv.queues
  marked := inv.marked
  reset := inv.reset
  ordered := inv.ordered
  posts := inv.posts
  scanned all hpc q hq := by
    refine ⟨?_, (inv.scanned all hpc q hq).2⟩
    by_cases hqueue : q = queue
    · rw [hqueue]
      exact update_self ..
    · exact (update_of_ne hqueue _ _).trans (inv.scanned all hpc q hq).1
  blocked := inv.blocked

theorem World.Inv.go (inv : w.Inv) (h : w.go = some w') : w'.Inv := by
  unfold World.go at h
  split at h
  next => cases h
  next event hpc =>
    cases h
    exact inv.getReset hpc
  next queues hpc => exact inv.scan hpc h
  next queues hpc =>
    cases h
    exact inv.waitAny hpc
  next queues hpc =>
    split at h
    next => cases h
    next hawake =>
      cases h
      exact inv.clear hpc hawake
  next event hpc =>
    cases h
    exact inv.deliver hpc

theorem World.Inv.step [DecidableEq C] [Fintype E] (inv : w.Inv) {a : Action Q E C} (hord : w.Orderly a)
    (h : w.step a = some w') : w'.Inv := by
  cases a with
  | post context queue event =>
    simp only [World.step] at h
    split at h
    next => cases h
    next hfree =>
      cases h
      exact inv.post (Bool.not_eq_true _ ▸ hfree)
  | postFlag context =>
    simp only [World.step] at h
    split at h
    next =>
      cases h
      exact inv.postFlag
    next => cases h
  | cancel queue event =>
    cases h
    exact inv.cancel hord
  | setFlags mask =>
    cases h
    exact inv.setFlags mask
  | claim queue =>
    simp only [World.step] at h
    split at h
    next =>
      split at h
      next => cases h
      next =>
        cases h
        exact inv.claim
    next => cases h
  | get queue =>
    simp only [World.step] at h
    split at h
    next hpc =>
      cases h
      exact inv.get hpc
    next => cases h
  | waitMulti queues =>
    simp only [World.step] at h
    split at h
    next hpc =>
      split at h
      next => cases h
      next =>
        cases h
        exact inv.waitMulti hpc
    next => cases h
  | go => exact inv.go h

/-! ## Runs -/

theorem inv_init (claimed : Q → Bool) : (init claimed : World Q E C).Inv where
  queues := ⟨fun q => ⟨fun _ => ring_nil.mpr rfl, fun hring => absurd True.intro hring⟩,
    fun q => nodup_nil, fun q q' e he => nomatch he⟩
  marked e he := absurd rfl he
  reset e hpc := nomatch hpc
  ordered := True.intro
  posts newer older e heq := by
    cases newer with
    | nil => cases heq
    | cons r newer => cases heq
  scanned queues hpc := by
    rcases hpc with hpc | ⟨hpc, -⟩
    · cases hpc
    · cases hpc
  blocked hstatus := nomatch hstatus

theorem go_deliver (hpc : w.pc = .deliver e) :
    w.go = some { w with pc := .running, log := .called e :: w.log } := by
  unfold go
  rw [hpc]

theorem go_getReset (hpc : w.pc = .getReset e) :
    w.go = some { w with mem := update w.mem (.entry e) .null, pc := .deliver e } := by
  unfold go
  rw [hpc]

variable [DecidableEq C] [Fintype E]

/-- **Nothing posted is lost**: the queues in memory hold, each event in at most one queue and
once, what was linked and neither taken nor cancelled since, in the order of linking; every
event taken was the first of its queue; after every post the event is called or cancelled
later, or in exactly one queue, or about to be called; the waiter calls an event it took
whatever the other contexts do; and while it sleeps in front of an event, a context that
has posted is about to wake it. -/
structure World.Sound (w : World Q E C) : Prop where
  queues : Linkage (fun _ => True) w.mem (fun q => content q w.log)
  order : ∀ newer older queue event, w.log = newer ++ .taken queue event :: older →
    (content queue older).head? = some event
  posts : ∀ newer older e, w.log = newer ++ .posted e :: older → .called e ∈ newer ∨
    (∃ q, .cancelled q e ∈ newer) ∨ (∃! q, e ∈ content q w.log) ∨ w.Holds e
  calls : ∀ e, w.Holds e → ∃ gos w', (∀ a ∈ gos, a = .go) ∧
    run World.step w gos = some w' ∧ w'.log = .called e :: w.log
  holds : ∀ e a w', w.Holds e → a ≠ .go → w.step a = some w' → w'.Holds e
  sleeps : ∀ queues, w.Asleep queues → ∀ q ∈ queues, content q w.log ≠ [] →
    ∃ c, w.posting c = true
  wakes : ∀ c, w.posting c = true → ∃ w', w.step (.postFlag c) = some w' ∧
    w'.waiter.status ≠ .flagBlockedAny

theorem World.Holds.step {a : Action Q E C} (hholds : w.Holds e) (ha : a ≠ .go)
    (h : w.step a = some w') : w'.Holds e := by
  have hpc : w.pc ≠ .running := by
    intro hpc
    rcases hholds with hpc' | hpc'
    · cases hpc.symm.trans hpc'
    · cases hpc.symm.trans hpc'
  suffices hsame : w'.pc = w.pc by
    unfold World.Holds
    rw [hsame]
    exact hholds
  cases a with
  | post context queue event =>
    simp only [World.step] at h
    split at h
    · cases h
    · cases h
      unfold post
      split <;> rfl
  | postFlag context =>
    simp only [World.step] at h
    split at h
    · cases h
      rfl
    · cases h
  | cancel queue event | setFlags mask =>
    cases h
    rfl
  | claim queue | get queue | waitMulti queues =>
    -- these calls start from the waiter's own code
    simp only [World.step] at h
    cases h
  | go => exact absurd rfl ha

theorem World.Inv.sound (inv : w.Inv) : w.Sound where
  queues := inv.queues
  order newer older queue event heq := (heq ▸ inv.ordered : Ordered _).first
  posts newer older e heq := by
    refine (inv.posts newer older e heq).imp id (Or.imp id (Or.imp ?_ id))
    exact fun ⟨q, hq⟩ => ⟨q, hq, fun q' hq' => inv.queues.disjoint q' q e hq' hq⟩
  calls e hholds := by
    rcases hholds with hpc | hpc
    · have hreset := go_getReset hpc
      refine ⟨[.go, .go], { w with
        mem := update w.mem (.entry e) .null
        pc := .running
        log := .called e :: w.log }, fun a ha => by simpa using ha, ?_, rfl⟩
      simp only [run, World.step, hreset]
      rfl
    · have hdeliver := go_deliver hpc
      refine ⟨[.go], { w with pc := .running, log := .called e :: w.log },
        fun a ha => by simpa using ha, ?_, rfl⟩
      simp only [run, World.step, hdeliver]
  holds e a w' hholds ha h := hholds.step ha h
  sleeps queues hasleep q hq hcontent := by
    obtain ⟨-, -, hzero⟩ := inv.blocked hasleep.2
    exact ((inv.scanned queues (.inr hasleep) q hq).2 hcontent).resolve_left fun hne => hne hzero
  wakes c hc := by
    refine ⟨_, if_pos hc, ?_⟩
    exact inv.woken

/-- **Orderly runs lose nothing.** -/
theorem event_queues_sound (claimed : Q → Bool) (as : List (Action Q E C))
    (h : Along World.step World.Orderly (World.init claimed) as) :
    Always World.step World.Sound (World.init claimed) as :=
  always_of_along (fun _ inv => World.Inv.sound inv)
    (fun _ _ _ inv hord hstep => inv.step hord hstep) as (inv_init claimed) h

/-- Two events are posted, one is cancelled, and the other is called. -/
theorem event_queues_sound_two : Always World.step World.Sound
    (World.init (fun _ => true) : World Unit (Fin 2) Unit)
    [.post () () 0, .postFlag (), .post () () 1, .postFlag (), .cancel () 0, .waitMulti [()], .go,
      .go] :=
  event_queues_sound _ _ ⟨True.intro, True.intro, True.intro, True.intro, .inl (by decide),
    True.intro, True.intro, True.intro, True.intro⟩

/-- `event_get` unmarks the event outside its critical section: one that is cancelled and posted
again in between is unmarked while it is linked. -/
example : (run step (init fun _ => true : World Unit (Fin 2) Unit)
    [.post () () 0, .postFlag (), .get (), .cancel () 0, .post () () 0, .go]).map
      (fun w => (w.mem (.entry 0), content () w.log)) = some (.null, [0]) := by decide

end Riot.Event
