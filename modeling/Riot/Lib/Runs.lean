import Mathlib.Tactic.Ring

/-!
# Runs of a step function

A system is a step function `σ → ε → Option σ`: an event either is not enabled
or leads to one next state. A run is a list of events, executed from a start
state; the run rule is the only induction over runs in the development.

Conditions on a run are conditions on its *steps*: a predicate over the state
before the step and the event, so that they never mention what the step
computes. `Along` says that every step taken meets such a condition, `Always`
that every state reached has a property.
-/

namespace Riot.Lib

open Option

variable {σ ε : Type}

/-- Executes `es` from `s`; `none` as soon as an event is not enabled. -/
def run (step : σ → ε → Option σ) : σ → List ε → Option σ
  | s, [] => some s
  | s, e :: es =>
    match step s e with
    | some s' => run step s' es
    | none => none

/-- Every step taken by the run of `es` from `s` meets `ok`. -/
def Along (step : σ → ε → Option σ) (ok : σ → ε → Prop) : σ → List ε → Prop
  | _, [] => True
  | s, e :: es =>
    match step s e with
    | some s' => ok s e ∧ Along step ok s' es
    | none => True

/-- Every state reached by the run of `es` from `s`, `s` included, has `P`. -/
def Always (step : σ → ε → Option σ) (P : σ → Prop) : σ → List ε → Prop
  | s, [] => P s
  | s, e :: es =>
    match step s e with
    | some s' => P s ∧ Always step P s' es
    | none => P s

instance Along.decidable (step : σ → ε → Option σ) (ok : σ → ε → Prop)
    [∀ s e, Decidable (ok s e)] : ∀ s es, Decidable (Along step ok s es)
  | _, [] => inferInstanceAs (Decidable True)
  | s, e :: es => by
    unfold Along
    exact match step s e with
      | some s' =>
        have := Along.decidable step ok s' es
        inferInstanceAs (Decidable (ok s e ∧ Along step ok s' es))
      | none => inferInstanceAs (Decidable True)

variable {step : σ → ε → Option σ} {ok : σ → ε → Prop} {P I : σ → Prop}

variable {es : List ε} {s : σ} {good : σ → ε → Prop}

theorem run_cons {s' : σ} {e : ε} (h : run step s (e :: es) = some s') :
    ∃ t, step s e = some t ∧ run step t es = some s' := by
  unfold run at h
  split at h
  · rename_i t ht
    exact ⟨t, ht, h⟩
  · exact absurd h (by simp)

theorem run_append {t : σ} {es' : List ε} (h : run step s es = some t) :
    run step s (es ++ es') = run step t es' := by
  induction es generalizing s with
  | nil =>
    cases h
    rfl
  | cons e es ih =>
    obtain ⟨s', hs', hrest⟩ := run_cons h
    rw [List.cons_append, run, hs']
    exact ih hrest

/-- **The run rule.** What holds at the start and is kept by every step that
meets the condition holds at the end of every run that meets it throughout. -/
theorem run_invariant (hstep : ∀ s e s', I s → ok s e → step s e = some s' → I s') :
    ∀ (es : List ε) {s s' : σ}, I s → Along step ok s es → run step s es = some s' → I s' := by
  intro es
  induction es with
  | nil =>
    intro s s' hI _ hrun
    exact some.inj hrun ▸ hI
  | cons e es ih =>
    intro s s' hI hal hrun
    obtain ⟨t, ht, hrest⟩ := run_cons hrun
    unfold Along at hal
    rw [ht] at hal
    exact ih (hstep s e t hI hal.1 ht) hal.2 hrest

theorem run_invariant_all (hstep : ∀ s e s', I s → step s e = some s' → I s') :
    ∀ (es : List ε) {s s' : σ}, I s → run step s es = some s' → I s' := by
  intro es
  induction es with
  | nil =>
    intro s s' hI hrun
    exact some.inj hrun ▸ hI
  | cons e es ih =>
    intro s s' hI hrun
    obtain ⟨t, ht, hrest⟩ := run_cons hrun
    exact ih (hstep s e t hI ht) hrest

theorem run_invariant_mem (hstep : ∀ s e s', I s → e ∈ es → step s e = some s' → I s') :
    ∀ {s s' : σ}, I s → run step s es = some s' → I s' := by
  induction es with
  | nil =>
    intro s s' hI hrun
    exact some.inj hrun ▸ hI
  | cons e es ih =>
    intro s s' hI hrun
    obtain ⟨t, ht, hrest⟩ := run_cons hrun
    exact ih (fun s e' s' hI he => hstep s e' s' hI (by simp [he]))
      (hstep s e t hI (by simp) ht) hrest

theorem Always.head : ∀ {es : List ε}, Always step P s es → P s
  | [], h => h
  | e :: es, h => by
    unfold Always at h
    split at h
    · exact h.1
    · exact h

theorem Always.last : ∀ {es : List ε} {s t : σ}, Always step P s es → run step s es = some t → P t := by
  intro es
  induction es with
  | nil =>
    intro s t hall hrun
    cases hrun
    exact hall
  | cons e es ih =>
    intro s t hall hrun
    obtain ⟨s', hs', hrest⟩ := run_cons hrun
    unfold Always at hall
    rw [hs'] at hall
    exact ih hall.2 hrest

/-- The run rule for a property of steps: what an invariant and the condition on
a step imply about it holds of every step of a run that meets the condition. -/
theorem along_of_along (hgood : ∀ s e s', I s → ok s e → step s e = some s' → good s e)
    (hstep : ∀ s e s', I s → ok s e → step s e = some s' → I s') :
    ∀ (es : List ε) {s : σ}, I s → Along step ok s es → Along step good s es := by
  intro es
  induction es with
  | nil => exact fun _ _ => trivial
  | cons e es ih =>
    intro s hI hal
    unfold Along at hal ⊢
    cases ht : step s e with
    | none => trivial
    | some t =>
      rw [ht] at hal
      exact ⟨hgood s e t hI hal.1 ht, ih (hstep s e t hI hal.1 ht) hal.2⟩

/-- When an invariant makes two conditions on a step the same, and one of them keeps it, the runs
that meet the one throughout are those that meet the other. -/
theorem along_iff_along (hiff : ∀ s e s', I s → step s e = some s' → (ok s e ↔ good s e))
    (hstep : ∀ s e s', I s → ok s e → step s e = some s' → I s') :
    ∀ (es : List ε) {s : σ}, I s → (Along step ok s es ↔ Along step good s es) := by
  intro es
  induction es with
  | nil => exact fun _ => Iff.rfl
  | cons e es ih =>
    intro s hI
    unfold Along
    cases ht : step s e with
    | none => exact Iff.rfl
    | some t =>
      have he := hiff s e t hI ht
      constructor
      · intro ⟨hok, hal⟩
        exact ⟨he.mp hok, (ih (hstep s e t hI hok ht)).mp hal⟩
      · intro ⟨hgood, hal⟩
        have hok := he.mpr hgood
        exact ⟨hok, (ih (hstep s e t hI hok ht)).mpr hal⟩

theorem Along.last : ∀ {es : List ε} {s t : σ} {e : ε}, Along step ok s (es ++ [e]) →
    run step s es = some t → (step t e).isSome → ok t e := by
  intro es
  induction es with
  | nil =>
    intro s t e hal hrun hsome
    cases hrun
    obtain ⟨t', ht'⟩ := isSome_iff_exists.mp hsome
    rw [List.nil_append] at hal
    unfold Along at hal
    rw [ht'] at hal
    exact hal.1
  | cons e' es ih =>
    intro s t e hal hrun hsome
    obtain ⟨s', hs', hrest⟩ := run_cons hrun
    rw [List.cons_append] at hal
    unfold Along at hal
    rw [hs'] at hal
    exact ih hal.2 hrest hsome

theorem always_of_along (hP : ∀ s, I s → P s) (hstep : ∀ s e s', I s → ok s e → step s e = some s' → I s') :
    ∀ (es : List ε) {s : σ}, I s → Along step ok s es → Always step P s es := by
  intro es
  induction es with
  | nil =>
    intro s hI _
    exact hP s hI
  | cons e es ih =>
    intro s hI hal
    unfold Along at hal
    unfold Always
    cases ht : step s e with
    | none => exact hP s hI
    | some t =>
      rw [ht] at hal
      exact ⟨hP s hI, ih (hstep s e t hI hal.1 ht) hal.2⟩

theorem always_of_step (hP : ∀ s, I s → P s) (hstep : ∀ s e s', I s → step s e = some s' → I s') :
    ∀ (es : List ε) {s : σ}, I s → Always step P s es := by
  intro es
  induction es with
  | nil =>
    intro s hI
    exact hP s hI
  | cons e es ih =>
    intro s hI
    unfold Always
    cases ht : step s e with
    | none => exact hP s hI
    | some t => exact ⟨hP s hI, ih (hstep s e t hI ht)⟩

/-- **Exactness.** When, in every state with the invariant and the property, a
step meets the condition exactly if the property holds after it, a run meets
the condition throughout exactly if the property holds throughout. -/
theorem along_iff_always (hexact : ∀ s e s', I s → P s → step s e = some s' → (ok s e ↔ P s'))
    (hstep : ∀ s e s', I s → P s → ok s e → step s e = some s' → I s') :
    ∀ (es : List ε) {s : σ}, I s → P s → (Along step ok s es ↔ Always step P s es) := by
  intro es
  induction es with
  | nil =>
    intro s _ hP
    exact ⟨fun _ => hP, fun _ => trivial⟩
  | cons e es ih =>
    intro s hI hP
    unfold Along Always
    cases ht : step s e with
    | none => exact ⟨fun _ => hP, fun _ => trivial⟩
    | some t =>
      constructor
      · rintro ⟨hok, hal⟩
        have hPt := (hexact s e t hI hP ht).mp hok
        exact ⟨hP, (ih (hstep s e t hI hP hok ht) hPt).mp hal⟩
      · rintro ⟨_, hal⟩
        have hok := (hexact s e t hI hP ht).mpr hal.head
        exact ⟨hok, (ih (hstep s e t hI hP hok ht) hal.head).mpr hal⟩

/-- **The measure rule.** When every step that meets the condition leads to a state with the
invariant at a smaller measure, no run that meets it throughout has more steps than the measure
it starts with. -/
theorem run_measure {J : Nat → σ → Prop}
    (hstep : ∀ m s e s', J m s → ok s e → step s e = some s' → ∃ m' < m, J m' s') :
    ∀ (es : List ε) {m : Nat} {s s' : σ}, J m s → Along step ok s es → run step s es = some s' →
      ∃ m', m' + es.length ≤ m ∧ J m' s' := by
  intro es
  induction es with
  | nil =>
    intro m s s' hJ _ hrun
    cases hrun
    exact ⟨m, Nat.le_refl _, hJ⟩
  | cons e es ih =>
    intro m s s' hJ hal hrun
    obtain ⟨t, ht, hrest⟩ := run_cons hrun
    unfold Along at hal
    rw [ht] at hal
    obtain ⟨k, hk, hJ'⟩ := hstep m s e t hJ hal.1 ht
    obtain ⟨m', hm', hJ''⟩ := ih hJ' hal.2 hrest
    refine ⟨m', ?_, hJ''⟩
    rw [List.length_cons]
    omega

/-- **The simulation rule.** When every step that meets the condition is matched by a
step of another system, so is every run that meets it throughout. -/
theorem run_simulation {τ : Type} {step' : τ → ε → Option τ} {R : σ → τ → Prop}
    (hstep : ∀ s t e s', R s t → ok s e → step s e = some s' → ∃ t', step' t e = some t' ∧ R s' t') :
    ∀ (es : List ε) {s s' : σ} {t : τ}, R s t → Along step ok s es → run step s es = some s' →
      ∃ t', run step' t es = some t' ∧ R s' t' := by
  intro es
  induction es with
  | nil =>
    intro s s' t hR _ hrun
    cases hrun
    exact ⟨t, rfl, hR⟩
  | cons e es ih =>
    intro s s' t hR hal hrun
    obtain ⟨s1, hs1, hrest⟩ := run_cons hrun
    unfold Along at hal
    rw [hs1] at hal
    obtain ⟨t1, ht1, hR1⟩ := hstep s t e s1 hR hal.1 hs1
    obtain ⟨t', ht', hR'⟩ := ih hR1 hal.2 hrest
    refine ⟨t', ?_, hR'⟩
    rw [run, ht1]
    exact ht'

/-! ## Conditions on every event -/

/-- Every event that the run of `es` from `s` comes to meets `ok`, whether it is enabled or not. -/
def Meets (step : σ → ε → Option σ) (ok : σ → ε → Prop) : σ → List ε → Prop
  | _, [] => True
  | s, e :: es =>
    ok s e ∧
      match step s e with
      | some s' => Meets step ok s' es
      | none => True

instance Meets.decidable (step : σ → ε → Option σ) (ok : σ → ε → Prop)
    [∀ s e, Decidable (ok s e)] : ∀ s es, Decidable (Meets step ok s es)
  | _, [] => inferInstanceAs (Decidable True)
  | s, e :: es => by
    unfold Meets
    exact match step s e with
      | some s' =>
        have := Meets.decidable step ok s' es
        inferInstanceAs (Decidable (ok s e ∧ Meets step ok s' es))
      | none => inferInstanceAs (Decidable (ok s e ∧ True))

/-- What an invariant and the condition imply about an event holds of every event that the run
comes to. -/
theorem meets_of_meets (hgood : ∀ s e, I s → ok s e → good s e)
    (hstep : ∀ s e s', I s → step s e = some s' → I s') :
    ∀ (es : List ε) {s : σ}, I s → Meets step ok s es → Meets step good s es := by
  intro es
  induction es with
  | nil => exact fun _ _ => trivial
  | cons e es ih =>
    intro s hI hmeets
    unfold Meets at hmeets ⊢
    refine ⟨hgood s e hI hmeets.1, ?_⟩
    cases ht : step s e with
    | none => trivial
    | some t =>
      rw [ht] at hmeets
      exact ih (hstep s e t hI ht) hmeets.2

/-- **The image rule.** When the image of every event that meets the condition does to the image
of a state what the event does to the state, so does the image of every run. -/
theorem run_image {f : σ → σ} {g : ε → ε} (himage : ∀ s e, I s → ok s e → step (f s) (g e) = (step s e).map f)
    (hstep : ∀ s e s', I s → step s e = some s' → I s') :
    ∀ (es : List ε) {s : σ}, I s → Meets step ok s es →
      run step (f s) (es.map g) = (run step s es).map f := by
  intro es
  induction es with
  | nil => exact fun _ _ => rfl
  | cons e es ih =>
    intro s hI hmeets
    unfold Meets at hmeets
    rw [List.map_cons, run, run, himage s e hI hmeets.1]
    cases ht : step s e with
    | none => rfl
    | some t =>
      rw [ht] at hmeets
      exact ih (hstep s e t hI ht) hmeets.2

/-! ## Two partial results -/

variable {α β γ δ : Type} {R : α → β → Prop} {S : γ → δ → Prop} {x : Option α} {y : Option β}

/-- Where both results are there, they are related. -/
def Agree (R : α → β → Prop) (x : Option α) (y : Option β) : Prop := ∀ a b, x = some a → y = some b → R a b

theorem Agree.pure {a : α} {b : β} (h : R a b) : Agree R (some a) (some b) := by
  intro _ _ ha hb
  cases ha
  cases hb
  exact h

theorem Agree.bind {f : α → Option γ} {g : β → Option δ} (h : Agree R x y)
    (hfg : ∀ a b, R a b → Agree S (f a) (g b)) : Agree S (x.bind f) (y.bind g) := by
  intro c d hc hd
  obtain ⟨a, ha, hc⟩ := bind_eq_some_iff.mp hc
  obtain ⟨b, hb, hd⟩ := bind_eq_some_iff.mp hd
  exact hfg a b (h a b ha hb) c d hc hd

theorem Agree.map {f : α → γ} {g : β → δ} (h : Agree R x y) (hfg : ∀ a b, R a b → S (f a) (g b)) :
    Agree S (x.map f) (y.map g) := by
  intro c d hc hd
  obtain ⟨a, ha, rfl⟩ := map_eq_some_iff.mp hc
  obtain ⟨b, hb, rfl⟩ := map_eq_some_iff.mp hd
  exact hfg a b (h a b ha hb)

/-! The literals of `Fin 1`, `Fin 2` and `Fin 3`, in runs of that many parties. -/

theorem neZero_one : NeZero 1 := ⟨by decide⟩

theorem neZero_two : NeZero 2 := ⟨by decide⟩

theorem neZero_three : NeZero 3 := ⟨by decide⟩

end Riot.Lib
