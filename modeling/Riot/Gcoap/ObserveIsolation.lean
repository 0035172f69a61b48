import Riot.Gcoap.Observe
import Riot.Lib.Runs

/-!
# Isolation of observe registrations

In runs in which no endpoint without registrations repeats the token of one, the three tables
refer to each other in both directions, and a request changes the registrations of its own
endpoint only: the one with its token, and the one for its resource.
-/

namespace Riot.Gcoap

open Riot.Lib Function List Option Prod

variable {C N K c : Nat} {R : Type} {st st' : ObserveState C N K R} {table : Fin c → Option Endpoint}
  {a b ep : Endpoint} {i j : Fin c} {m m' : Fin K} {req : ObserveRequest R}

/-! ## Endpoints -/

/-- What `sock_udp_ep_equal` compares. -/
def Endpoint.key (ep : Endpoint) : Addr × BitVec 16 := (ep.addr, ep.port)

theorem equal_iff : a.equal b = true ↔ a.key = b.key := by
  unfold Endpoint.equal Endpoint.key
  rw [Bool.and_eq_true, decide_eq_true_eq, decide_eq_true_eq, mk.injEq]
  exact And.comm

/-- No two entries of a table are for one endpoint. -/
def Distinct (table : Fin c → Option Endpoint) : Prop :=
  ∀ i j a b, table i = some a → table j = some b → a.key = b.key → i = j

/-- An entry is written that is for the endpoint already, or free while no entry is. -/
theorem Distinct.write (h : Distinct table)
    (hnew : ∀ j b, table j = some b → b.key = ep.key → j = i) :
    Distinct (update table i (some ep)) := by
  intro j k a b hj hk hkey
  by_cases hji : j = i
  · subst hji
    by_cases hkj : k = j
    · exact hkj.symm
    · rw [update_self] at hj
      rw [update_of_ne hkj] at hk
      exact (hnew k b hk (by rw [← hkey, some.inj hj])).symm
  · rw [update_of_ne hji] at hj
    by_cases hki : k = i
    · subst hki
      rw [update_self] at hk
      exact hnew j a hj (by rw [hkey, some.inj hk])
    · rw [update_of_ne hki] at hk
      exact h j k a b hj hk hkey

/-! ## Searches -/

theorem findEndpointLoop_spec {is : List (Fin c)} {slot : Option (Fin c)} {r : Option (Fin c) × Option (Fin c)}
    (h : findEndpointLoop table (some ep) is slot = some r) :
    (∀ i, r.1 = some i → ∃ a, table i = some a ∧ a.key = ep.key) ∧
      (r.1 = none → ∀ i ∈ is, ∀ a, table i = some a → a.key ≠ ep.key) ∧
      (∀ i, r.2 = some i → slot = some i ∨ table i = none) := by
  induction is generalizing slot with
  | nil =>
    cases h
    exact ⟨fun i hi => (nomatch hi), fun _ i hi => (nomatch hi), fun i hi => .inl hi⟩
  | cons i is ih =>
    unfold findEndpointLoop at h
    cases hi : table i with
    | none =>
      rw [hi] at h
      obtain ⟨hfound, hnone, hslot⟩ := ih h
      refine ⟨hfound, fun hr j hj a ha => ?_, fun j hj => ?_⟩
      · rcases mem_cons.mp hj with rfl | hj
        · cases hi.symm.trans ha
        · exact hnone hr j hj a ha
      · rcases hslot j hj with hji | hj
        · exact .inr (some.inj hji ▸ hi)
        · exact .inr hj
    | some entry =>
      rw [hi] at h
      dsimp only at h
      split at h
      next heq =>
        cases h
        refine ⟨fun j hj => ⟨entry, some.inj hj ▸ hi, equal_iff.mp heq⟩,
          fun hr => (nomatch hr), fun j hj => .inl hj⟩
      next hne =>
        obtain ⟨hfound, hnone, hslot⟩ := ih h
        refine ⟨hfound, fun hr j hj a ha => ?_, hslot⟩
        rcases mem_cons.mp hj with rfl | hj
        · obtain rfl := some.inj (hi.symm.trans ha)
          exact fun hkey => hne (equal_iff.mpr hkey)
        · exact hnone hr j hj a ha

theorem findEndpointLoop_isSome : ∀ {is : List (Fin c)} {slot : Option (Fin c)},
    (findEndpointLoop table (some ep) is slot).isSome = true := by
  intro is
  induction is with
  | nil => exact fun {slot} => rfl
  | cons i is ih =>
    intro slot
    unfold findEndpointLoop
    cases table i with
    | none => exact ih
    | some entry =>
      dsimp only
      split
      · rfl
      · exact ih

theorem lookup_eq_some (h : lookupEndpoint table ep = some i) :
    ∃ a, table i = some a ∧ a.key = ep.key := by
  obtain ⟨r, hr, hi⟩ := bind_eq_some_iff.mp h
  exact (findEndpointLoop_spec hr).1 i hi

theorem lookup_eq_none (h : lookupEndpoint table ep = none) (ha : table i = some a) :
    a.key ≠ ep.key := by
  obtain ⟨r, hr⟩ := isSome_iff_exists.mp
    (@findEndpointLoop_isSome c table ep (finRange c) none)
  have hnone : r.1 = none := by
    unfold lookupEndpoint findEndpoint at h
    rw [hr] at h
    exact h
  exact (findEndpointLoop_spec hr).2.1 hnone i (mem_finRange i) a ha

theorem lookup_self (hd : Distinct table) (ha : table i = some a) (hkey : a.key = ep.key) :
    lookupEndpoint table ep = some i := by
  cases h : lookupEndpoint table ep with
  | none => exact absurd hkey (lookup_eq_none h ha)
  | some j =>
    obtain ⟨b, hb, hkeyb⟩ := lookup_eq_some h
    rw [hd j i b a hb ha (hkeyb.trans hkey.symm)]

/-- The memo is in use for the observer, the notifier and the token, as far as they are given. -/
def ObserveState.Matches (st : ObserveState C N K R) (remoteObserver : Option (Fin C))
    (localNotifier : Option (Fin N)) (token : Option (List UInt8)) (m : Fin K) : Prop :=
  (st.memos m).observer ≠ none ∧
    ((st.memos m).observer = remoteObserver ∨ remoteObserver = none) ∧
    ((st.memos m).notifier = localNotifier ∨ localNotifier = none) ∧
    ∀ t ∈ token, t ≠ [] ∧ (st.memos m).token = t

/-- `_find_obs_memo` finds a memo that matches if there is one, and free memos only. -/
theorem findObsMemoLoop_spec {remoteObserver : Option (Fin C)} {localNotifier : Option (Fin N)}
    {token : Option (List UInt8)} : ∀ {is : List (Fin K)} {slot : Option (Fin K)},
    (∀ m, (findObsMemoLoop st remoteObserver localNotifier token is slot).1 = some m →
      st.Matches remoteObserver localNotifier token m) ∧
    ((findObsMemoLoop st remoteObserver localNotifier token is slot).1 = none →
      ∀ m ∈ is, ¬st.Matches remoteObserver localNotifier token m) ∧
    (∀ m, (findObsMemoLoop st remoteObserver localNotifier token is slot).2 = some m →
      slot = some m ∨ (st.memos m).observer = none) := by
  intro is
  induction is with
  | nil => exact fun {slot} => ⟨fun m hm => (nomatch hm), fun _ m hm => (nomatch hm), fun m hm => .inl hm⟩
  | cons i is ih =>
    intro slot
    -- a memo that does not match is passed over
    have hpass : ∀ slot' : Option (Fin K), (∀ m, slot' = some m → slot = some m ∨ (st.memos m).observer = none) →
        ¬st.Matches remoteObserver localNotifier token i →
        (∀ m, (findObsMemoLoop st remoteObserver localNotifier token is slot').1 = some m →
          st.Matches remoteObserver localNotifier token m) ∧
        ((findObsMemoLoop st remoteObserver localNotifier token is slot').1 = none →
          ∀ m ∈ i :: is, ¬st.Matches remoteObserver localNotifier token m) ∧
        (∀ m, (findObsMemoLoop st remoteObserver localNotifier token is slot').2 = some m →
          slot = some m ∨ (st.memos m).observer = none) := by
      intro slot' hslot' hnot
      obtain ⟨hfound, hnone, hslot⟩ := @ih slot'
      refine ⟨hfound, fun hr m hm => ?_, fun m hm => ?_⟩
      · rcases mem_cons.mp hm with rfl | hm
        · exact hnot
        · exact hnone hr m hm
      · exact (hslot m hm).elim (hslot' m) .inr
    have hstop : st.Matches remoteObserver localNotifier token i →
        (∀ m, (some i, slot).1 = some m → st.Matches remoteObserver localNotifier token m) ∧
        ((some i, slot).1 = none → ∀ m ∈ i :: is, ¬st.Matches remoteObserver localNotifier token m) ∧
        (∀ m, (some i, slot).2 = some m → slot = some m ∨ (st.memos m).observer = none) :=
      fun hmatch => ⟨fun m hm => some.inj hm ▸ hmatch, fun hr => (nomatch hr), fun m hm => .inl hm⟩
    unfold findObsMemoLoop
    dsimp only
    split
    next hfree =>
      refine hpass (some i) (fun m hm => .inr (some.inj hm ▸ hfree)) fun hmatch => ?_
      exact hmatch.1 hfree
    next hused =>
      split
      next hends =>
        cases token with
        | none => exact hstop ⟨hused, hends.1, hends.2, fun t ht => (nomatch ht)⟩
        | some token' =>
          dsimp only
          split
          next htoken =>
            refine hstop ⟨hused, hends.1, hends.2, fun t ht => ?_⟩
            cases ht
            exact ⟨htoken.2.2 ▸ htoken.2.1, htoken.2.2⟩
          next htoken =>
            refine hpass slot (fun m hm => .inl hm) fun hmatch => htoken ?_
            obtain ⟨hne, heq⟩ := hmatch.2.2.2 token' rfl
            exact ⟨by rw [heq], heq ▸ hne, heq⟩
      next hends =>
        exact hpass slot (fun m hm => .inl hm) fun hmatch => hends ⟨hmatch.2.1, hmatch.2.2.1⟩

variable {remote localEp : Option Endpoint} {token : Option (List UInt8)}

theorem findObsMemo_some (h : (findObsMemo st remote localEp token).1 = some m) :
    st.Matches (remote.bind (lookupEndpoint st.observers)) (localEp.bind (lookupEndpoint st.notifiers))
      token m := findObsMemoLoop_spec.1 m h

theorem findObsMemo_none (h : (findObsMemo st remote localEp token).1 = none) (m : Fin K) :
    ¬st.Matches (remote.bind (lookupEndpoint st.observers))
      (localEp.bind (lookupEndpoint st.notifiers)) token m :=
  findObsMemoLoop_spec.2.1 h m (mem_finRange m)

theorem findObsMemo_slot (h : (findObsMemo st remote localEp token).2 = some m) :
    (st.memos m).observer = none :=
  (findObsMemoLoop_spec.2.2 m h).resolve_left nofun

theorem findObsMemoResource_some [DecidableEq R] {resource : R}
    (h : findObsMemoResource st resource = some m) :
    (st.memos m).observer ≠ none ∧ (st.memos m).resource = some resource := by
  have := find?_some h
  rw [Bool.and_eq_true, decide_eq_true_eq] at this
  exact ⟨isSome_iff_ne_none.mp this.1, this.2⟩

/-! ## The tables refer to each other -/

/-- Every memo in use has its observer and its notifier in use; every entry in use belongs to a
memo in use; no two entries are for one endpoint. -/
structure ObserveState.Linked (st : ObserveState C N K R) : Prop where
  observerUsed : ∀ m o, (st.memos m).observer = some o → st.observers o ≠ none
  notifierUsed : ∀ m, (st.memos m).observer ≠ none →
    ∃ n, (st.memos m).notifier = some n ∧ st.notifiers n ≠ none
  observerHeld : ∀ o, st.observers o ≠ none → ∃ m, (st.memos m).observer = some o
  notifierHeld : ∀ n, st.notifiers n ≠ none →
    ∃ m, (st.memos m).observer ≠ none ∧ (st.memos m).notifier = some n
  distinctObservers : Distinct st.observers
  distinctNotifiers : Distinct st.notifiers

/-- A registration, its endpoints as `sock_udp_ep_equal` compares them. -/
structure Registration (R : Type) where
  observer : Option (Addr × BitVec 16)
  notifier : Option (Addr × BitVec 16)
  resource : Option R
  token : List UInt8
  socket : SocketType
  deriving DecidableEq

/-- The registration that a memo in use stands for. -/
def ObserveState.registration (st : ObserveState C N K R) (m : Fin K) : Option (Registration R) :=
  (st.memos m).observer.map fun o =>
    { observer := (st.observers o).map Endpoint.key
      notifier := ((st.memos m).notifier.bind st.notifiers).map Endpoint.key
      resource := (st.memos m).resource
      token := (st.memos m).token
      socket := (st.memos m).socket }

/-- A memo is given back, and the entries with it that no other memo has. -/
structure ObserveState.Released (st : ObserveState C N K R) (m : Fin K) (st' : ObserveState C N K R) :
    Prop where
  others : ∀ m' ≠ m, st'.memos m' = st.memos m'
  free : (st'.memos m).observer = none
  observers : ∀ o, st'.observers o = st.observers o ∨
    (st'.observers o = none ∧ ∀ m', (st'.memos m').observer ≠ some o)
  notifiers : ∀ n, st'.notifiers n = st.notifiers n ∨
    (st'.notifiers n = none ∧ ∀ m', (st'.memos m').observer ≠ none → (st'.memos m').notifier ≠ some n)
  observer : ∀ o, (st.memos m).observer = some o → st'.observers o ≠ none →
    ∃ m', (st'.memos m').observer = some o
  notifier : ∀ n, (st.memos m).notifier = some n → st'.notifiers n ≠ none →
    ∃ m', (st'.memos m').observer ≠ none ∧ (st'.memos m').notifier = some n

theorem Distinct.shrink {table' : Fin c → Option Endpoint} (h : Distinct table)
    (hsub : ∀ i, table' i = table i ∨ table' i = none) : Distinct table' := by
  intro i j a b hi hj hkey
  have hkeep : ∀ i a, table' i = some a → table i = some a := by
    intro i a hi
    rcases hsub i with heq | hnone
    · exact heq ▸ hi
    · cases hnone.symm.trans hi
  exact h i j a b (hkeep i a hi) (hkeep j b hj) hkey

theorem ObserveState.Released.linked (h : st.Released m st') (hl : st.Linked) : st'.Linked where
  observerUsed m' o ho := by
    have hne : m' ≠ m := by
      rintro rfl
      cases h.free.symm.trans ho
    rcases h.observers o with heq | ⟨-, hno⟩
    · rw [heq]
      exact hl.observerUsed m' o (h.others m' hne ▸ ho)
    · exact absurd ho (hno m')
  notifierUsed m' hused := by
    have hne : m' ≠ m := by
      rintro rfl
      exact hused h.free
    obtain ⟨n, hn, hnused⟩ := hl.notifierUsed m' (h.others m' hne ▸ hused)
    have hn' : (st'.memos m').notifier = some n := (congrArg ObserveMemo.notifier (h.others m' hne)).trans hn
    refine ⟨n, hn', ?_⟩
    rcases h.notifiers n with heq | ⟨-, hno⟩
    · rw [heq]
      exact hnused
    · exact absurd hn' (hno m' hused)
  observerHeld o hused := by
    by_cases ho : (st.memos m).observer = some o
    · exact h.observer o ho hused
    · rcases h.observers o with heq | ⟨hnone, -⟩
      · obtain ⟨m', hm'⟩ := hl.observerHeld o (heq ▸ hused)
        have hne : m' ≠ m := fun heq' => ho (heq' ▸ hm')
        exact ⟨m', (congrArg ObserveMemo.observer (h.others m' hne)).trans hm'⟩
      · exact absurd hnone hused
  notifierHeld n hused := by
    by_cases hn : (st.memos m).notifier = some n
    · exact h.notifier n hn hused
    · rcases h.notifiers n with heq | ⟨hnone, -⟩
      · obtain ⟨m', hm', hn'⟩ := hl.notifierHeld n (heq ▸ hused)
        have hne : m' ≠ m := fun heq' => hn (heq' ▸ hn')
        refine ⟨m', ?_, ?_⟩
        · rw [h.others m' hne]
          exact hm'
        · rw [h.others m' hne]
          exact hn'
      · exact absurd hnone hused
  distinctObservers := hl.distinctObservers.shrink fun o => (h.observers o).imp id And.left
  distinctNotifiers := hl.distinctNotifiers.shrink fun n => (h.notifiers n).imp id And.left

theorem ObserveState.Released.registration (h : st.Released m st') (hne : m' ≠ m) :
    st'.registration m' = st.registration m' := by
  unfold ObserveState.registration
  rw [h.others m' hne]
  cases ho : (st.memos m').observer with
  | none => rfl
  | some o =>
    have ho' : (st'.memos m').observer = some o := (congrArg ObserveMemo.observer (h.others m' hne)).trans ho
    have hobs : st'.observers o = st.observers o :=
      (h.observers o).resolve_right fun hand => hand.2 m' ho'
    have hnot : (st.memos m').notifier.bind st'.notifiers = (st.memos m').notifier.bind st.notifiers := by
      cases hn : (st.memos m').notifier with
      | none => rfl
      | some n =>
        refine (h.notifiers n).resolve_right fun hand => hand.2 m' ?_ ?_
        · rw [ho']
          exact some_ne_none o
        · rw [h.others m' hne]
          exact hn
    simp only [map_some, hobs, hnot]

/-! ## Giving entries back -/

theorem findObsMemo_observer {o : Fin C} {remote : Endpoint}
    (hlookup : lookupEndpoint st.observers remote = some o) :
    (∀ m, (findObsMemo st (some remote) none none).1 = some m → (st.memos m).observer = some o) ∧
      ((findObsMemo st (some remote) none none).1 = none → ∀ m, (st.memos m).observer ≠ some o) := by
  constructor
  · intro m hm
    have hmatch := (findObsMemo_some hm).2.1
    rw [bind_some, hlookup] at hmatch
    exact hmatch.resolve_right nofun
  · intro hnone m ho
    refine findObsMemo_none hnone m ⟨?_, .inl ?_, .inr rfl, fun t ht => (nomatch ht)⟩
    · rw [ho]
      exact some_ne_none o
    · rw [bind_some, hlookup]
      exact ho

theorem freeNotifier_spec {n : Fin N} {e : Endpoint} (hd : Distinct st.notifiers)
    (he : st.notifiers n = some e) (h : st.freeNotifier (some n) = some st') :
    st'.memos = st.memos ∧ st'.observers = st.observers ∧
      ((st'.notifiers = st.notifiers ∧
          ∃ m, (st.memos m).observer ≠ none ∧ (st.memos m).notifier = some n) ∨
        (st'.notifiers = update st.notifiers n none ∧
          ∀ m, (st.memos m).observer ≠ none → (st.memos m).notifier ≠ some n)) := by
  have hlookup : ((some n).bind st.notifiers).bind (lookupEndpoint st.notifiers) = some n := by
    rw [bind_some, he, bind_some]
    exact lookup_self hd he rfl
  unfold ObserveState.freeNotifier at h
  split at h
  next m hm =>
    cases h
    have hmatch := findObsMemo_some hm
    rw [hlookup] at hmatch
    exact ⟨rfl, rfl, .inl ⟨rfl, m, hmatch.1, hmatch.2.2.1.resolve_right nofun⟩⟩
  next => cases h
  next n' hnone heq =>
    cases heq
    cases h
    refine ⟨rfl, rfl, .inr ⟨rfl, fun m hused hn => ?_⟩⟩
    refine findObsMemo_none hnone m ⟨hused, .inr rfl, .inl ?_, fun t ht => (nomatch ht)⟩
    rw [hlookup]
    exact hn

/-- The two clean-ups of a memo, in either order, give back what no other memo has. -/
theorem released_of {o : Fin C} {n : Fin N} (hn : (st.memos m).notifier = some n)
    (ho : (st.memos m).observer = some o)
    (hmemo : (st'.memos m).observer = none) (hothers : ∀ m' ≠ m, st'.memos m' = st.memos m')
    (hobservers : (st'.observers = st.observers ∧ ∃ m', (st'.memos m').observer = some o) ∨
      (st'.observers = update st.observers o none ∧ ∀ m', (st'.memos m').observer ≠ some o))
    (hnotifiers : (st'.notifiers = st.notifiers ∧
        ∃ m', (st'.memos m').observer ≠ none ∧ (st'.memos m').notifier = some n) ∨
      (st'.notifiers = update st.notifiers n none ∧
        ∀ m', (st'.memos m').observer ≠ none → (st'.memos m').notifier ≠ some n)) :
    st.Released m st' where
  others := hothers
  free := hmemo
  observers o' := by
    rcases hobservers with ⟨heq, -⟩ | ⟨heq, hno⟩
    · exact .inl (congrFun heq o')
    · by_cases ho' : o' = o
      · subst ho'
        exact .inr ⟨by rw [heq, update_self], hno⟩
      · exact .inl (by rw [heq, update_of_ne ho'])
  notifiers n' := by
    rcases hnotifiers with ⟨heq, -⟩ | ⟨heq, hno⟩
    · exact .inl (congrFun heq n')
    · by_cases hn' : n' = n
      · subst hn'
        exact .inr ⟨by rw [heq, update_self], hno⟩
      · exact .inl (by rw [heq, update_of_ne hn'])
  observer o' ho' hused := by
    obtain rfl := some.inj (ho.symm.trans ho')
    rcases hobservers with ⟨-, hheld⟩ | ⟨heq, -⟩
    · exact hheld
    · rw [heq, update_self] at hused
      exact absurd rfl hused
  notifier n' hn' hused := by
    obtain rfl := some.inj (hn.symm.trans hn')
    rcases hnotifiers with ⟨-, hheld⟩ | ⟨heq, -⟩
    · exact hheld
    · rw [heq, update_self] at hused
      exact absurd rfl hused

/-- A memo that has been given back, up to the two clean-ups. -/
def ObserveState.clear (st : ObserveState C N K R) (m : Fin K) : ObserveState C N K R :=
  st.setMemo m { st.memos m with observer := none }

/-- `memo->notifier = NULL` -/
def ObserveState.dropNotifier (st : ObserveState C N K R) (m : Fin K) : ObserveState C N K R :=
  st.setMemo m { st.memos m with notifier := none }

theorem setMemo_self {memo : ObserveMemo C N R} : (st.setMemo m memo).memos m = memo :=
  update_self ..

theorem clear_observer : ((st.clear m).memos m).observer = none := by
  unfold ObserveState.clear
  rw [setMemo_self]

theorem clear_other (hne : m' ≠ m) : (st.clear m).memos m' = st.memos m' := update_of_ne hne _ _

theorem dropNotifier_other (hne : m' ≠ m) : (st.dropNotifier m).memos m' = st.memos m' :=
  update_of_ne hne _ _

theorem dropNotifier_observer : ((st.dropNotifier m).memos m').observer = (st.memos m').observer := by
  by_cases hne : m' = m
  · subst hne
    unfold ObserveState.dropNotifier
    rw [setMemo_self]
  · rw [dropNotifier_other hne]

theorem dropNotifier_notifier (hfree : (st.memos m).observer = none) (hused : (st.memos m').observer ≠ none) :
    ((st.dropNotifier m).memos m').notifier = (st.memos m').notifier := by
  have hne : m' ≠ m := by
    rintro rfl
    exact hused hfree
  rw [dropNotifier_other hne]

theorem released_of_cleanups {o : Fin C} {n : Fin N} (hn : (st.memos m).notifier = some n)
    (ho : (st.memos m).observer = some o) (hmemos : st'.memos = ((st.clear m).dropNotifier m).memos)
    (hobservers : (st'.observers = st.observers ∧ ∃ m', ((st.clear m).memos m').observer = some o) ∨
      (st'.observers = update st.observers o none ∧
        ∀ m', ((st.clear m).memos m').observer ≠ some o))
    (hnotifiers : (st'.notifiers = st.notifiers ∧
        ∃ m', ((st.clear m).memos m').observer ≠ none ∧ ((st.clear m).memos m').notifier = some n) ∨
      (st'.notifiers = update st.notifiers n none ∧
        ∀ m', ((st.clear m).memos m').observer ≠ none → ((st.clear m).memos m').notifier ≠ some n)) :
    st.Released m st' := by
  have hobserver : ∀ m', (st'.memos m').observer = ((st.clear m).memos m').observer := fun m' =>
    (congrArg (fun memos => (memos m').observer) hmemos).trans dropNotifier_observer
  have hnotifier : ∀ m', (st'.memos m').observer ≠ none →
      (st'.memos m').notifier = ((st.clear m).memos m').notifier := fun m' hused =>
    (congrArg (fun memos => (memos m').notifier) hmemos).trans
      (dropNotifier_notifier clear_observer (hobserver m' ▸ hused))
  refine released_of hn ho ((hobserver m).trans clear_observer) (fun m' hne => ?_) ?_ ?_
  · rw [hmemos, dropNotifier_other hne, clear_other hne]
  · refine hobservers.imp (fun ⟨heq, m', hm'⟩ => ⟨heq, m', (hobserver m').trans hm'⟩) ?_
    exact fun ⟨heq, hno⟩ => ⟨heq, fun m' hm' => hno m' ((hobserver m').symm.trans hm')⟩
  · refine hnotifiers.imp (fun ⟨heq, m', hused, hm'⟩ => ?_) fun ⟨heq, hno⟩ => ⟨heq, fun m' hused hm' => ?_⟩
    · have hused' : (st'.memos m').observer ≠ none := fun hnone => hused ((hobserver m').symm.trans hnone)
      exact ⟨heq, m', hused', (hnotifier m' hused').trans hm'⟩
    · exact hno m' (fun hnone => hused ((hobserver m').trans hnone)) ((hnotifier m' hused).symm.trans hm')

theorem ObserveState.deregister_released {o : Fin C} (hl : st.Linked)
    (hlookup : lookupEndpoint st.observers req.remote = some o) (h : st.deregister req = some st') :
    st' = st ∨ ∃ m, (st.memos m).observer = some o ∧ (st.memos m).token = req.token ∧
      st.Released m st' := by
  unfold ObserveState.deregister at h
  split at h
  next => exact .inl (Option.some.inj h).symm
  next m hm =>
    obtain ⟨hused, hobserver, -, htoken⟩ := findObsMemo_some hm
    rw [Option.bind_some, hlookup] at hobserver
    have ho : (st.memos m).observer = some o := hobserver.resolve_right nofun
    obtain ⟨n, hn, hnused⟩ := hl.notifierUsed m hused
    obtain ⟨e, he⟩ := Option.ne_none_iff_exists'.mp hnused
    refine .inr ⟨m, ho, (htoken _ rfl).2, ?_⟩
    dsimp only at h
    rw [← ObserveState.clear, hn,
      show lookupEndpoint (st.clear m).observers req.remote = some o from hlookup] at h
    obtain ⟨st3, hfree, rfl⟩ := Option.map_eq_some_iff.mp h
    have hsearch := @findObsMemo_observer C N K R (st.clear m) o req.remote hlookup
    cases hother : (findObsMemo (st.clear m) (some req.remote) none none).1 with
    | none =>
      rw [hother] at hfree
      obtain ⟨hmemos, hobservers, hnotifiers⟩ := @freeNotifier_spec C N K R
        { st.clear m with observers := update st.observers o none } st3 n e
        hl.distinctNotifiers he hfree
      refine released_of_cleanups hn ho ?_ (.inr ⟨hobservers, hsearch.2 hother⟩) hnotifiers
      exact congrArg (fun memos => update memos m { memos m with notifier := none }) hmemos
    | some m' =>
      rw [hother] at hfree
      obtain ⟨hmemos, hobservers, hnotifiers⟩ := @freeNotifier_spec C N K R (st.clear m) st3 n e
        hl.distinctNotifiers he hfree
      refine released_of_cleanups hn ho ?_ (.inl ⟨hobservers, m', hsearch.1 m' hother⟩) hnotifiers
      exact congrArg (fun memos => update memos m { memos m with notifier := none }) hmemos

theorem ObserveState.expireLastMid_released {remote : Endpoint} {mid : BitVec 16} (hl : st.Linked)
    (h : st.expireLastMid remote mid = some st') : st' = st ∨ ∃ m, st.Released m st' := by
  unfold ObserveState.expireLastMid at h
  split at h
  next => exact .inl (some.inj h).symm
  next o hlookup =>
    dsimp only at h
    split at h
    next => exact .inl (some.inj h).symm
    next m hm =>
      have hstale := find?_some hm
      rw [Bool.and_eq_true, decide_eq_true_eq] at hstale
      have ho := hstale.1
      obtain ⟨n, hn, hnused⟩ := hl.notifierUsed m (by rw [ho]; exact some_ne_none o)
      obtain ⟨e, he⟩ := ne_none_iff_exists'.mp hnused
      obtain ⟨a, ha, -⟩ := lookup_eq_some hlookup
      refine .inr ⟨m, ?_⟩
      change Option.map _ ((st.clear m).freeNotifier (st.memos m).notifier) = some st' at h
      rw [hn] at h
      obtain ⟨st2, hfree, hst'⟩ := map_eq_some_iff.mp h
      obtain ⟨hmemos, hobservers, hnotifiers⟩ :=
        @freeNotifier_spec C N K R (st.clear m) st2 n e hl.distinctNotifiers he hfree
      change st2.observers = st.observers at hobservers
      have hdrop : (st2.dropNotifier m).memos = ((st.clear m).dropNotifier m).memos := by
        unfold ObserveState.dropNotifier ObserveState.setMemo
        rw [hmemos]
      have hobserver : ∀ m', ((st2.dropNotifier m).memos m').observer = ((st.clear m).memos m').observer :=
        fun m' => dropNotifier_observer.trans (congrArg (fun memos => (memos m').observer) hmemos)
      rw [← ObserveState.dropNotifier,
        show (st2.dropNotifier m).observers = st.observers from hobservers, ha] at hst'
      have hself : lookupEndpoint (st2.dropNotifier m).observers a = some o := by
        show lookupEndpoint st2.observers a = some o
        rw [hobservers]
        exact lookup_self hl.distinctObservers ha rfl
      have hsearch := findObsMemo_observer hself
      cases hother : (findObsMemo (st2.dropNotifier m) (some a) none none).1 with
      | none =>
        rw [hother] at hst'
        subst hst'
        refine released_of_cleanups hn ho hdrop (.inr ⟨rfl, fun m' hm' => ?_⟩) hnotifiers
        exact hsearch.2 hother m' ((hobserver m').trans hm')
      | some m' =>
        rw [hother] at hst'
        subst hst'
        refine released_of_cleanups hn ho hdrop (.inl ⟨hobservers, m', ?_⟩) hnotifiers
        exact (hobserver m').symm.trans (hsearch.1 m' hother)

/-! ## Taking entries -/

/-- The entry that a new registration uses: that of the endpoint, or a free one. -/
theorem findEndpoint_entry {r : Option (Fin c) × Option (Fin c)}
    (h : findEndpoint table (some ep) = some r) (hi : (r.1 <|> r.2) = some i) :
    (∀ a, table i = some a → a.key = ep.key) ∧
      ∀ j b, table j = some b → b.key = ep.key → Distinct table → j = i := by
  obtain ⟨hfound, hnone, hslot⟩ := findEndpointLoop_spec h
  cases hr : r.1 with
  | some i' =>
    rw [hr] at hi
    obtain rfl : i' = i := some.inj hi
    obtain ⟨a, ha, hkey⟩ := hfound i' hr
    refine ⟨fun b hb => ?_, fun j b hb hkeyb hd => hd j i' b a hb ha (hkeyb.trans hkey.symm)⟩
    rw [← some.inj (ha.symm.trans hb)]
    exact hkey
  | none =>
    rw [hr] at hi
    have hfree : table i = none := (hslot i hi).resolve_left nofun
    refine ⟨fun a ha => (nomatch hfree.symm.trans ha), fun j b hb hkeyb _ => ?_⟩
    exact absurd hkeyb (hnone hr j (mem_finRange j) b hb)

/-- A memo that was free is taken, with an observer and a notifier. -/
structure ObserveState.Taken (st : ObserveState C N K R) (remote aux : Endpoint) (m : Fin K)
    (o : Fin C) (n : Fin N) (st' : ObserveState C N K R) : Prop where
  free : (st.memos m).observer = none
  others : ∀ m' ≠ m, st'.memos m' = st.memos m'
  observer : (st'.memos m).observer = some o
  notifier : (st'.memos m).notifier = some n
  observers : st'.observers = update st.observers o (some remote)
  notifiers : st'.notifiers = update st.notifiers n (some aux)
  observerKey : ∀ a, st.observers o = some a → a.key = remote.key
  notifierKey : ∀ a, st.notifiers n = some a → a.key = aux.key
  observerNew : ∀ o' b, st.observers o' = some b → b.key = remote.key → o' = o
  notifierNew : ∀ n' b, st.notifiers n' = some b → b.key = aux.key → n' = n

variable {o : Fin C} {n : Fin N} {remote' aux : Endpoint}

theorem ObserveState.Taken.linked (h : st.Taken remote' aux m o n st') (hl : st.Linked) :
    st'.Linked where
  observerUsed m' o' ho' := by
    rw [h.observers]
    by_cases heq : o' = o
    · rw [heq, update_self]
      exact some_ne_none _
    · rw [update_of_ne heq]
      by_cases hm : m' = m
      · rw [hm, h.observer] at ho'
        exact absurd (some.inj ho').symm heq
      · exact hl.observerUsed m' o' (h.others m' hm ▸ ho')
  notifierUsed m' hused := by
    rw [h.notifiers]
    have hkeep : ∀ n', st.notifiers n' ≠ none →
        update st.notifiers n (some aux) n' ≠ none := by
      intro n' hn'
      by_cases heq : n' = n
      · rw [heq, update_self]
        exact some_ne_none _
      · rw [update_of_ne heq]
        exact hn'
    by_cases hm : m' = m
    · rw [hm]
      exact ⟨n, h.notifier, by rw [update_self]; exact some_ne_none _⟩
    · rw [h.others m' hm] at hused ⊢
      obtain ⟨n', hn', hnused⟩ := hl.notifierUsed m' hused
      exact ⟨n', hn', hkeep n' hnused⟩
  observerHeld o' hused := by
    by_cases heq : o' = o
    · exact ⟨m, heq ▸ h.observer⟩
    · rw [h.observers, update_of_ne heq] at hused
      obtain ⟨m', hm'⟩ := hl.observerHeld o' hused
      have hne : m' ≠ m := by
        rintro rfl
        cases h.free.symm.trans hm'
      exact ⟨m', by rw [h.others m' hne, hm']⟩
  notifierHeld n' hused := by
    by_cases heq : n' = n
    · refine ⟨m, ?_, heq ▸ h.notifier⟩
      rw [h.observer]
      exact some_ne_none o
    · rw [h.notifiers, update_of_ne heq] at hused
      obtain ⟨m', hm', hn'⟩ := hl.notifierHeld n' hused
      have hne : m' ≠ m := by
        rintro rfl
        exact hm' h.free
      refine ⟨m', ?_, ?_⟩
      · rw [h.others m' hne]
        exact hm'
      · rw [h.others m' hne]
        exact hn'
  distinctObservers := by
    rw [h.observers]
    exact hl.distinctObservers.write h.observerNew
  distinctNotifiers := by
    rw [h.notifiers]
    exact hl.distinctNotifiers.write h.notifierNew

theorem ObserveState.Taken.registration (h : st.Taken remote' aux m o n st') (hl : st.Linked)
    (hne : m' ≠ m) : st'.registration m' = st.registration m' := by
  unfold ObserveState.registration
  rw [h.others m' hne]
  cases ho' : (st.memos m').observer with
  | none => rfl
  | some o' =>
    have hused : (st.memos m').observer ≠ none := by
      rw [ho']
      exact some_ne_none o'
    obtain ⟨n', hn', hnused⟩ := hl.notifierUsed m' hused
    have hobserver : (st'.observers o').map Endpoint.key = (st.observers o').map Endpoint.key := by
      rw [h.observers]
      by_cases heq : o' = o
      · subst heq
        obtain ⟨a, ha⟩ := ne_none_iff_exists'.mp (hl.observerUsed m' o' ho')
        rw [update_self, ha, map_some, map_some, h.observerKey a ha]
      · rw [update_of_ne heq]
    have hnotifier : (st'.notifiers n').map Endpoint.key = (st.notifiers n').map Endpoint.key := by
      rw [h.notifiers]
      by_cases heq : n' = n
      · subst heq
        obtain ⟨a, ha⟩ := ne_none_iff_exists'.mp hnused
        rw [update_self, ha, map_some, map_some, h.notifierKey a ha]
      · rw [update_of_ne heq]
    simp only [map_some, hn', bind_some, hobserver, hnotifier]

theorem ObserveState.Linked.setMemo (hl : st.Linked) {memo : ObserveMemo C N R}
    (hobserver : memo.observer = (st.memos m).observer)
    (hnotifier : memo.notifier = (st.memos m).notifier) : (st.setMemo m memo).Linked := by
  have ho : ∀ m', ((st.setMemo m memo).memos m').observer = (st.memos m').observer := by
    intro m'
    by_cases hne : m' = m
    · rw [hne, setMemo_self, hobserver]
    · exact congrArg ObserveMemo.observer (update_of_ne hne _ _)
  have hn : ∀ m', ((st.setMemo m memo).memos m').notifier = (st.memos m').notifier := by
    intro m'
    by_cases hne : m' = m
    · rw [hne, setMemo_self, hnotifier]
    · exact congrArg ObserveMemo.notifier (update_of_ne hne _ _)
  refine ⟨fun m' o' h => ?_, fun m' h => ?_, fun o' h => ?_, fun n' h => ?_,
    hl.distinctObservers, hl.distinctNotifiers⟩
  · exact hl.observerUsed m' o' (ho m' ▸ h)
  · rw [ho m'] at h
    rw [hn m']
    exact hl.notifierUsed m' h
  · obtain ⟨m', hm'⟩ := hl.observerHeld o' h
    exact ⟨m', (ho m').trans hm'⟩
  · obtain ⟨m', hm', hn'⟩ := hl.notifierHeld n' h
    exact ⟨m', by rw [ho m']; exact hm', (hn m').trans hn'⟩

theorem setMemo_registration {memo : ObserveMemo C N R} (hne : m' ≠ m) :
    (st.setMemo m memo).registration m' = st.registration m' := by
  have hother : (st.setMemo m memo).memos m' = st.memos m' := update_of_ne hne _ _
  unfold ObserveState.registration
  rw [hother]
  rfl

/-! ## Requests -/

/-- The endpoint of the request has an observer entry, or the request does not repeat the token
of a registration. -/
def ObserveState.Known (st : ObserveState C N K R) (req : ObserveRequest R) : Prop :=
  lookupEndpoint st.observers req.remote ≠ none ∨
    ∀ m, (st.memos m).observer ≠ none → req.token ≠ [] → (st.memos m).token ≠ req.token

/-- The request changes registrations of its own endpoint only, the one with its token or the
one for its resource, and what it leaves or makes is for its endpoint and token. -/
def Isolated (st : ObserveState C N K R) (req : ObserveRequest R) (st' : ObserveState C N K R) : Prop :=
  ∀ m, st'.registration m ≠ st.registration m →
    (∀ r, st.registration m = some r → r.observer = some req.remote.key ∧
      (r.token = req.token ∨ r.resource = some req.resource)) ∧
    ∀ r, st'.registration m = some r → r.observer = some req.remote.key ∧ r.token = req.token ∧
      r.resource = some req.resource

theorem isolated_refl : Isolated st req st := fun _ hne => absurd rfl hne

theorem ObserveState.Known.own (hk : st.Known req)
    (h : (findObsMemo st (some req.remote) none (some req.token)).1 = some m) :
    ∃ o a, (st.memos m).observer = some o ∧ st.observers o = some a ∧ a.key = req.remote.key ∧
      (st.memos m).token = req.token := by
  obtain ⟨hused, hobserver, -, htoken⟩ := findObsMemo_some h
  obtain ⟨hne, heq⟩ := htoken _ rfl
  rw [bind_some] at hobserver
  cases hlookup : lookupEndpoint st.observers req.remote with
  | none =>
    rcases hk with hsome | hfresh
    · exact absurd hlookup hsome
    · exact absurd heq (hfresh m hused hne)
  | some o =>
    obtain ⟨a, ha, hkey⟩ := lookup_eq_some hlookup
    rw [hlookup] at hobserver
    exact ⟨o, a, hobserver.resolve_right fun heq => (nomatch heq), ha, hkey, heq⟩

variable [DecidableEq R]

/-- What `_handle_req` finishes a registration with. -/
def ObserveState.finish (st : ObserveState C N K R) (req : ObserveRequest R) (m : Fin K) :
    ObserveState C N K R :=
  st.setMemo m { st.memos m with
    resource := some req.resource, token := req.token, socket := req.socket }

omit [DecidableEq R] in
theorem allocate_cases {memo : Option (Fin K)} (hl : st.Linked) (hfree : (st.memos m).observer = none)
    (h : st.allocate req m = some (st', memo)) : (st', memo) = (st, none) ∨
      ∃ o n aux st1, st.Taken req.remote aux m o n st1 ∧ (st', memo) = (st1, some m) := by
  unfold ObserveState.allocate at h
  obtain ⟨⟨observer, observerSlot⟩, hobserver, h⟩ := bind_eq_some_iff.mp h
  obtain ⟨⟨notifier, notifierSlot⟩, hnotifier, h⟩ := bind_eq_some_iff.mp h
  dsimp only at h
  split at h
  next o n aux ho hn haux =>
    rw [haux] at hnotifier
    obtain ⟨hokey, honew⟩ := findEndpoint_entry hobserver ho
    obtain ⟨hnkey, hnnew⟩ := findEndpoint_entry hnotifier hn
    refine .inr ⟨o, n, aux, _, ?_, (some.inj h).symm⟩
    exact {
      free := hfree
      others := fun m' hne => update_of_ne hne _ _
      observer := congrArg ObserveMemo.observer setMemo_self
      notifier := congrArg ObserveMemo.notifier setMemo_self
      observers := rfl
      notifiers := rfl
      observerKey := hokey
      notifierKey := hnkey
      observerNew := fun o' b hb hkey => honew o' b hb hkey hl.distinctObservers
      notifierNew := fun n' b hb hkey => hnnew n' b hb hkey hl.distinctNotifiers }
  next => cases h
  next => exact .inl (some.inj h).symm

theorem ObserveState.register_cases (hl : st.Linked) (hk : st.Known req) {observe : BitVec 32}
    (h : st.register req = some (st', observe)) :
    st' = st ∨
      (∃ m o a, (st.memos m).observer = some o ∧ st.observers o = some a ∧ a.key = req.remote.key ∧
        ((st.memos m).token = req.token ∨ (st.memos m).resource = some req.resource) ∧
        st' = st.finish req m) ∨
      ∃ m o n aux st1, st.Taken req.remote aux m o n st1 ∧ st' = st1.finish req m := by
  unfold ObserveState.register at h
  dsimp only at h
  obtain ⟨⟨st1, memo⟩, halloc, hst'⟩ := map_eq_some_iff.mp h
  cases hmemo : (st.validate req (findObsMemo st (some req.remote) none (some req.token)).1
      (findObsMemoResource st req.resource)).1 with
  | some m =>
    -- a registration of the endpoint itself
    rw [hmemo] at halloc
    cases halloc
    have hfinish : st' = st.finish req m := (congrArg fst hst').symm
    unfold ObserveState.validate at hmemo
    split at hmemo
    next hresource =>
      obtain ⟨o, a, ho, ha, hkey, htoken⟩ := hk.own hmemo
      exact .inr (.inl ⟨m, o, a, ho, ha, hkey, .inl htoken, hfinish⟩)
    next rm hrm =>
      split at hmemo
      next m' hm' =>
        split at hmemo
        next => cases hmemo
        next heq =>
          obtain rfl : m' = m := some.inj hmemo
          obtain ⟨o, a, ho, ha, hkey, htoken⟩ := hk.own hm'
          exact .inr (.inl ⟨m', o, a, ho, ha, hkey, .inl htoken, hfinish⟩)
      next =>
        split at hmemo
        next hsame =>
          obtain rfl : rm = m := some.inj hmemo
          obtain ⟨-, e, he, hequal⟩ := hsame
          obtain ⟨o, ho, he⟩ := bind_eq_some_iff.mp he
          exact .inr (.inl ⟨rm, o, e, ho, he, (equal_iff.mp hequal).symm,
            .inr (findObsMemoResource_some hrm).2, hfinish⟩)
        next => cases hmemo
  | none =>
    rw [hmemo] at halloc
    cases hslot : (findObsMemo st (some req.remote) none (some req.token)).2 with
    | none =>
      rw [hslot] at halloc
      cases halloc
      exact .inl (congrArg fst hst').symm
    | some slot =>
      rw [hslot] at halloc
      cases hresource : findObsMemoResource st req.resource with
      | some rm =>
        rw [hresource] at halloc
        cases halloc
        exact .inl (congrArg fst hst').symm
      | none =>
        rw [hresource] at halloc
        dsimp only at halloc
        split at halloc
        next =>
          rcases allocate_cases hl (findObsMemo_slot hslot) halloc with heq | ⟨o, n, aux, st2, htaken, heq⟩
          · cases heq
            exact .inl (congrArg fst hst').symm
          · cases heq
            exact .inr (.inr ⟨slot, o, n, aux, st1, htaken, (congrArg fst hst').symm⟩)
        next =>
          cases halloc
          exact .inl (congrArg fst hst').symm

theorem ObserveState.register_linked (hl : st.Linked) (hk : st.Known req) {observe : BitVec 32}
    (h : st.register req = some (st', observe)) : st'.Linked ∧ Isolated st req st' := by
  -- finishing a registration of the endpoint keeps the tables linked
  have hfinish : ∀ {st1 : ObserveState C N K R} {m : Fin K}, st1.Linked → (st1.finish req m).Linked :=
    fun hl1 => hl1.setMemo rfl rfl
  -- what is finished is for the endpoint and the token
  have hafter : ∀ {st1 : ObserveState C N K R} {m : Fin K} {o : Fin C} {a : Endpoint},
      (st1.memos m).observer = some o → st1.observers o = some a → a.key = req.remote.key →
      ∀ r, (st1.finish req m).registration m = some r → r.observer = some req.remote.key ∧
        r.token = req.token ∧ r.resource = some req.resource := by
    intro st1 m o a ho ha hkey r hr
    unfold ObserveState.registration ObserveState.finish at hr
    rw [setMemo_self] at hr
    rw [ho] at hr
    cases hr
    refine ⟨?_, rfl, rfl⟩
    show (st1.observers o).map Endpoint.key = some req.remote.key
    rw [ha, map_some, hkey]
  rcases st.register_cases hl hk h with rfl | ⟨m, o, a, ho, ha, hkey, hwhich, rfl⟩ |
      ⟨m, o, n, aux, st1, htaken, rfl⟩
  · exact ⟨hl, isolated_refl⟩
  · refine ⟨hfinish hl, fun m' hne => ?_⟩
    have hm : m' = m := by
      by_contra hm
      exact hne (setMemo_registration hm)
    subst hm
    refine ⟨fun r hr => ?_, hafter ho ha hkey⟩
    unfold ObserveState.registration at hr
    rw [ho] at hr
    cases hr
    refine ⟨?_, hwhich⟩
    show (st.observers o).map Endpoint.key = some req.remote.key
    rw [ha, map_some, hkey]
  · refine ⟨hfinish (htaken.linked hl), fun m' hne => ?_⟩
    have hm : m' = m := by
      by_contra hm
      exact hne ((setMemo_registration hm).trans (htaken.registration hl hm))
    subst hm
    refine ⟨fun r hr => ?_, hafter htaken.observer ?_ rfl⟩
    · unfold ObserveState.registration at hr
      rw [htaken.free] at hr
      cases hr
    · rw [htaken.observers, update_self]

omit [DecidableEq R] in
theorem ObserveState.deregister_linked (hl : st.Linked) (hk : st.Known req)
    (h : st.deregister req = some st') : st'.Linked ∧ Isolated st req st' := by
  cases hlookup : lookupEndpoint st.observers req.remote with
  | none =>
    -- no memo is found for the endpoint
    have hnone : (findObsMemo st (some req.remote) none (some req.token)).1 = none := by
      cases hm : (findObsMemo st (some req.remote) none (some req.token)).1 with
      | none => rfl
      | some m =>
        obtain ⟨o, a, -, ha, hkey, -⟩ := hk.own hm
        exact absurd hkey (lookup_eq_none hlookup ha)
    unfold ObserveState.deregister at h
    rw [hnone] at h
    cases h
    exact ⟨hl, isolated_refl⟩
  | some o =>
    rcases st.deregister_released hl hlookup h with rfl | ⟨m, ho, htoken, hreleased⟩
    · exact ⟨hl, isolated_refl⟩
    · refine ⟨hreleased.linked hl, fun m' hne => ?_⟩
      have hm : m' = m := by
        by_contra hm
        exact hne (hreleased.registration hm)
      subst hm
      obtain ⟨a, ha, hkey⟩ := lookup_eq_some hlookup
      constructor
      · intro r hr
        unfold ObserveState.registration at hr
        rw [ho] at hr
        cases hr
        refine ⟨?_, .inl htoken⟩
        show (st.observers o).map Endpoint.key = some req.remote.key
        rw [ha, map_some, hkey]
      · intro r hr
        unfold ObserveState.registration at hr
        rw [hreleased.free] at hr
        cases hr

theorem ObserveState.handleReq_linked (hl : st.Linked)
    (hk : req.observe = obsRegister ∨ req.observe = obsDeregister → st.Known req)
    {observe : Option (BitVec 32)} (h : st.handleReq req = some (st', observe)) :
    st'.Linked ∧ Isolated st req st' := by
  unfold ObserveState.handleReq at h
  split at h
  next hregister =>
    obtain ⟨⟨st1, observe'⟩, hstep, heq⟩ := map_eq_some_iff.mp h
    obtain rfl := (Prod.mk.inj heq).1
    exact st.register_linked hl (hk (.inl hregister)) hstep
  next =>
    split at h
    next hderegister =>
      obtain ⟨st1, hstep, heq⟩ := map_eq_some_iff.mp h
      obtain rfl := (Prod.mk.inj heq).1
      exact deregister_linked hl (hk (.inr hderegister)) hstep
    next =>
      split at h
      all_goals
        obtain rfl := (Prod.mk.inj (some.inj h)).1
        exact ⟨hl, isolated_refl⟩

/-! ## Runs -/

/-- No registration or deregistration by an endpoint without an observer entry repeats the token
of a registration. -/
def ObserveState.NoRepeat (st : ObserveState C N K R) : ObserveEvent R → Prop
  | .request req => req.observe = obsRegister ∨ req.observe = obsDeregister → st.Known req
  | _ => True

theorem ObserveState.Linked.step (hl : st.Linked) {e : ObserveEvent R} (hok : st.NoRepeat e)
    (h : st.step e = some st') : st'.Linked := by
  cases e with
  | request req =>
    obtain ⟨⟨st1, observe⟩, hreq, rfl⟩ := map_eq_some_iff.mp h
    exact (st.handleReq_linked hl hok hreq).1
  | reset remote mid =>
    rcases st.expireLastMid_released hl h with rfl | ⟨m, hreleased⟩
    · exact hl
    · exact hreleased.linked hl
  | notify resource msgid =>
    cases h
    unfold ObserveState.obsInit
    split
    next => exact hl
    next m hm => exact hl.setMemo rfl rfl

/-- **Requests stay with their own endpoint and token**, or take over the endpoint's registration
for the resource. -/
def RequestsIsolated (st : ObserveState C N K R) : ObserveEvent R → Prop
  | .request req => ∀ st', st.step (.request req) = some st' → Isolated st req st'
  | _ => True

omit [DecidableEq R] in
theorem linked_init : (ObserveState.init : ObserveState C N K R).Linked where
  observerUsed _ _ ho := nomatch ho
  notifierUsed _ hused := absurd rfl hused
  observerHeld _ hused := absurd rfl hused
  notifierHeld _ hused := absurd rfl hused
  distinctObservers _ _ _ _ hi := nomatch hi
  distinctNotifiers _ _ _ _ hi := nomatch hi

/-- A client, and another one. -/
def client (port : BitVec 16) : Endpoint := ⟨.ipv6 1, 0, port⟩

/-- A request of a client with a one-byte token, for one resource. -/
def observeRequest (port : BitVec 16) (token : UInt8) (observe : BitVec 32) : ObserveRequest Unit :=
  ⟨.udp, client port, some ⟨.ipv6 2, 0, 5683⟩, [token], observe, ()⟩

/-- An endpoint without registration that repeats a token removes the registration that has it,
and the entry of its observer stays behind. -/
example : ((run ObserveState.step (ObserveState.init : ObserveState 2 1 1 Unit)
    [.request (observeRequest 1 1 obsRegister), .request (observeRequest 2 1 obsDeregister)]).map
      fun st => ((st.memos 0).observer, st.observers 1)) = some (none, some (client 1)) := by decide

end Riot.Gcoap
