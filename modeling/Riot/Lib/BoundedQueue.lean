import Mathlib.Data.List.Basic

/-!
# Bounded queues

A queue holds at most as many items as its capacity, as a field of its own. What fits is added at the end,
and the oldest item is taken first.

An object that is called gives a result each time. One object refines another under a condition on the
calls if related states give the same results as long as the calls meet it, and exactly then.
-/

namespace Riot.Lib

/-- A queue of at most `cap` items, the oldest first. -/
structure BoundedQueue (α : Type) (cap : Nat) where
  items : List α
  length_le : items.length ≤ cap

variable {α : Type} {cap : Nat} {q : BoundedQueue α cap}

namespace BoundedQueue

@[ext] theorem ext {q q' : BoundedQueue α cap} (h : q.items = q'.items) : q = q' := by
  cases q
  cases q'
  cases h
  rfl

def empty : BoundedQueue α cap := ⟨[], Nat.zero_le _⟩

/-- Adds as many of `xs` as there is room for. -/
def add (q : BoundedQueue α cap) (xs : List α) : BoundedQueue α cap :=
  ⟨q.items ++ xs.take (cap - q.items.length), by
    have h := q.length_le
    rw [List.length_append, List.length_take]
    omega⟩

/-- Forgets the oldest `n` items. -/
def drop (q : BoundedQueue α cap) (n : Nat) : BoundedQueue α cap :=
  ⟨q.items.drop n, by
    have h := q.length_le
    rw [List.length_drop]
    omega⟩

/-- The oldest item, and the queue without it. -/
def pop (q : BoundedQueue α cap) : Option α × BoundedQueue α cap := (q.items.head?, q.drop 1)

/-- What `n` times `pop` takes, and the queue after it. -/
def popMany : Nat → BoundedQueue α cap → List α × BoundedQueue α cap
  | 0, q => ([], q)
  | n + 1, q => (q.pop.1.toList ++ (popMany n q.pop.2).1, (popMany n q.pop.2).2)

@[simp] theorem drop_items (n : Nat) : (q.drop n).items = q.items.drop n := rfl

@[simp] theorem add_items (xs : List α) : (q.add xs).items = q.items ++ xs.take (cap - q.items.length) := rfl

theorem popMany_eq : ∀ (n : Nat) (q : BoundedQueue α cap), popMany n q = (q.items.take n, q.drop n)
  | 0, q => rfl
  | n + 1, q => by
    rw [popMany, popMany_eq n]
    have hitems : q.pop.2.items = q.items.drop 1 := rfl
    refine Prod.ext ?_ (BoundedQueue.ext ?_)
    · show q.items.head?.toList ++ (q.pop.2.items.take n) = q.items.take (n + 1)
      rw [hitems]
      cases q.items with
      | nil => rw [List.drop_nil, List.take_nil, List.take_nil]; rfl
      | cons x xs => rfl
    · show (q.items.drop 1).drop n = q.items.drop (n + 1)
      rw [List.drop_drop, Nat.add_comm]

end BoundedQueue

/-! ## Results of calls -/

variable {σ τ ε ρ : Type}

/-- The results of a sequence of calls. -/
def results (call : σ → ε → ρ × σ) : σ → List ε → List ρ
  | _, [] => []
  | s, e :: es => (call s e).1 :: results call (call s e).2 es

/-- Every call of a sequence meets `ok` in the state it finds. -/
def CallsMeet (call : σ → ε → ρ × σ) (ok : σ → ε → Prop) : σ → List ε → Prop
  | _, [] => True
  | s, e :: es => ok s e ∧ CallsMeet call ok (call s e).2 es

variable {call : σ → ε → ρ × σ} {call' : τ → ε → ρ × τ} {ok : σ → ε → Prop} {R : σ → τ → Prop}

/-- **The refinement rule, exact**: the results are the same exactly if every call meets the condition. -/
theorem callsMeet_iff_results (hexact : ∀ s t e, R s t → (ok s e ↔ (call s e).1 = (call' t e).1))
    (hstep : ∀ s t e, R s t → ok s e → R (call s e).2 (call' t e).2) :
    ∀ (es : List ε) {s : σ} {t : τ}, R s t → (CallsMeet call ok s es ↔ results call s es = results call' t es) := by
  intro es
  induction es with
  | nil => exact fun _ => ⟨fun _ => rfl, fun _ => trivial⟩
  | cons e es ih =>
    intro s t hR
    rw [CallsMeet, results, results, List.cons.injEq]
    constructor
    · rintro ⟨hok, hrest⟩
      exact ⟨(hexact s t e hR).mp hok, (ih (hstep s t e hR hok)).mp hrest⟩
    · rintro ⟨hres, hrest⟩
      have hok := (hexact s t e hR).mpr hres
      exact ⟨hok, (ih (hstep s t e hR hok)).mpr hrest⟩

/-- **The refinement rule**: related states give the same results, and calls keep them related. -/
theorem results_eq (hcall : ∀ s t e, R s t → (call s e).1 = (call' t e).1 ∧ R (call s e).2 (call' t e).2)
    (es : List ε) {s : σ} {t : τ} (hR : R s t) : results call s es = results call' t es := by
  have hmeets : ∀ (es : List ε) (s : σ), CallsMeet call (fun _ _ => True) s es := by
    intro es
    induction es with
    | nil => exact fun _ => trivial
    | cons e es ih => exact fun s => ⟨trivial, ih _⟩
  exact (@callsMeet_iff_results σ τ ε ρ call call' (fun _ _ => True) R (fun s t e h => ⟨fun _ => (hcall s t e h).1, fun _ => trivial⟩)
    (fun s t e h _ => (hcall s t e h).2) es s t hR).mp (hmeets es s)

end Riot.Lib
