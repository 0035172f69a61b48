/-!
# Erasure

A computation that carries more data than another one, and does the same: without the
additional data, its result is that of the other one. What else is known of the result
is a predicate, which the computations that go on from there may use.
-/

namespace Riot.Lib

variable {α β γ δ : Type}

/-- Without its additional data, the result of `x` is that of `y`, and it meets `R`. -/
structure Follows (er : α → β) (R : α → Prop) (x : Option α) (y : Option β) : Prop where
  erase : x.map er = y
  result : ∀ a, x = some a → R a

variable {er : α → β} {R R' : α → Prop} {x : Option α} {y : Option β} {er' : γ → δ} {S : γ → Prop}

theorem Follows.pure {a : α} {b : β} (herase : er a = b) (hresult : R a) : Follows er R (some a) (some b) where
  erase := congrArg some herase
  result := by
    intro a' ha'
    exact Option.some.inj ha' ▸ hresult

theorem Follows.none : Follows er R none none := ⟨rfl, fun _ hc => by cases hc⟩

theorem Follows.mono (h : Follows er R x y) (himp : ∀ a, R a → R' a) : Follows er R' x y :=
  ⟨h.erase, fun a ha => himp a (h.result a ha)⟩

theorem Follows.bind {f : α → Option γ} {g : β → Option δ} (h : Follows er R x y)
    (hfg : ∀ a, R a → Follows er' S (f a) (g (er a))) : Follows er' S (x.bind f) (y.bind g) := by
  obtain ⟨rfl, hresult⟩ := h
  cases x with
  | none => exact Follows.none
  | some a => exact hfg a (hresult a rfl)

theorem Follows.map {f : α → γ} {g : β → δ} (h : Follows er R x y) (hfg : ∀ a, er' (f a) = g (er a))
    (hresult : ∀ a, R a → S (f a)) : Follows er' S (x.map f) (y.map g) := by
  rw [Option.map_eq_bind, Option.map_eq_bind]
  exact h.bind fun a ha => Follows.pure (hfg a) (hresult a ha)

theorem Follows.bind_same {ε : Type} {o : Option ε} {f : ε → Option α} {g : ε → Option β}
    (hfg : ∀ c, o = some c → Follows er R (f c) (g c)) : Follows er R (o.bind f) (o.bind g) := by
  cases o with
  | none => exact Follows.none
  | some c => exact hfg c rfl

theorem Follows.map_same {ε : Type} {o : Option ε} {f : ε → α} {g : ε → β} (hfg : ∀ c, er (f c) = g c)
    (hresult : ∀ c, o = some c → R (f c)) : Follows er R (o.map f) (o.map g) := by
  rw [Option.map_eq_bind, Option.map_eq_bind]
  exact Follows.bind_same fun c hc => Follows.pure (hfg c) (hresult c hc)

theorem Follows.map_some {f : α → γ} {b : β} {z : Option δ} (h : Follows er R x (some b))
    (hfg : ∀ a, er a = b → R a → Follows er' S (some (f a)) z) : Follows er' S (x.map f) z := by
  obtain ⟨a, rfl, ha⟩ := Option.map_eq_some_iff.mp h.erase
  exact hfg a ha (h.result a rfl)

end Riot.Lib
