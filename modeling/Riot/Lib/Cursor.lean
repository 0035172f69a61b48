import Mathlib.Data.List.GetD

/-!
# Reading memory through a cursor

A decoder of a byte format walks over memory with an offset that it moves. It
reads what is there, also past the end of what it was given: the memory is a
function on all addresses, and the cursor keeps how far the reads have reached,
so that a caller can compare it with the length it knows.

`Reads` is what such a reader owes the writer of the format: where the bytes
written stand at the cursor it returns the value, consumes exactly these bytes and
reads none behind them. It composes along the reader, as the bytes are appended.
-/

namespace Riot.Lib

open List

/-- Where a reader stands, and one past the furthest position it has read. -/
structure Cursor where
  off : Nat
  top : Nat
deriving Repr, DecidableEq

/-- A reader of a memory of `β`s, `none` being that it gives up. -/
def Reader (β α : Type) := (Nat → β) → Cursor → Option α × Cursor

namespace Reader

variable {β α γ : Type}

instance : Monad (Reader β) where
  pure a := fun _ c => (some a, c)
  bind r f := fun m c =>
    match r m c with
    | (some a, c') => f a m c'
    | (none, c') => (none, c')

/-- The reader gives up. -/
def fail : Reader β α := fun _ c => (none, c)

/-- The reader gives up where there is no value. -/
def ofOption : Option α → Reader β α
  | some a => pure a
  | none => fail

/-- Reads at position `i` and leaves the cursor. -/
def peek (i : Nat) : Reader β β := fun m c => (some (m i), ⟨c.off, max c.top (i + 1)⟩)

/-- Reads at the cursor and moves it by one. -/
def next : Reader β β := fun m c => (some (m c.off), ⟨c.off + 1, max c.top (c.off + 1)⟩)

/-- Moves the cursor by `n` without reading. -/
def skip (n : Nat) : Reader β Unit := fun _ c => (some (), ⟨c.off + n, c.top⟩)

/-- The `n` values from position `i` on. -/
def window (m : Nat → β) (i n : Nat) : List β := (List.range n).map fun k => m (i + k)

/-- Copies `n` values that start `d` behind the cursor, and moves it by `n`. -/
def copyAhead (d n : Nat) : Reader β (List β) := fun m c =>
  (some (window m (c.off + d) n),
    ⟨c.off + n, if n = 0 then c.top else max c.top (c.off + d + n)⟩)

/-- Copies `n` values at the cursor and moves it behind them. -/
def copy (n : Nat) : Reader β (List β) := copyAhead 0 n

variable {c : Cursor} {i : Nat} {m : Nat → β}

theorem bind_some {r : Reader β α} {f : α → Reader β γ} {c' : Cursor} {a : α}
    (h : r m c = (some a, c')) : (r >>= f) m c = f a m c' := by
  show (match r m c with | (some a, c') => f a m c' | (none, c') => (none, c')) = _
  rw [h]

@[simp] theorem next_apply :
    next m c = (some (m c.off), ⟨c.off + 1, max c.top (c.off + 1)⟩) := rfl

@[simp] theorem length_window {n : Nat} : (window m i n).length = n := by
  simp [window]

@[simp] theorem window_getElem {n k : Nat} (h : k < (window m i n).length) :
    (window m i n)[k] = m (i + k) := by
  simp [window]

end Reader

/-! ## What stands in memory -/

/-- The values `bs` stand in the memory from position `i` on. -/
def StandsAt {β : Type} (m : Nat → β) (i : Nat) (bs : List β) : Prop :=
  ∀ k (h : k < bs.length), m (i + k) = bs[k]

section StandsAt

variable {β : Type} {m : Nat → β} {i : Nat} {b : β} {as bs : List β}

theorem standsAt_append : StandsAt m i (as ++ bs) ↔ StandsAt m i as ∧ StandsAt m (i + as.length) bs := by
  constructor
  · intro h
    refine ⟨fun k hk => ?_, fun k hk => ?_⟩
    · have := h k (by rw [length_append]; omega)
      rwa [getElem_append_left hk] at this
    · have := h (as.length + k) (by rw [length_append]; omega)
      simpa [Nat.add_assoc] using this
  · rintro ⟨ha, hb⟩ k hk
    rw [length_append] at hk
    rcases Nat.lt_or_ge k as.length with hlt | hge
    · rw [getElem_append_left hlt]
      exact ha k hlt
    · rw [getElem_append_right hge, ← hb (k - as.length) (by omega)]
      congr 1
      omega

theorem StandsAt.head (h : StandsAt m i (b :: bs)) : m i = b := h 0 (Nat.succ_pos _)

theorem StandsAt.window (h : StandsAt m i bs) : Reader.window m i bs.length = bs := by
  apply ext_getElem
  · simp
  · intro k hk hk'
    rw [Reader.window_getElem]
    exact h k hk'

theorem standsAt_of_list {l : List β} {d : β} (happ : l = as ++ bs) :
    StandsAt (fun k => l.getD k d) as.length bs := by
  intro k hk
  subst happ
  have hlt : as.length + k < (as ++ bs).length := by rw [length_append]; omega
  show (as ++ bs).getD (as.length + k) d = bs[k]
  rw [getD_eq_getElem _ _ hlt, getElem_append_right (by omega)]
  simp

end StandsAt

/-! ## Reading what was written -/

/-- From offset `lo` on, where `bs` stands at the cursor the reader returns `a`, consumes `bs`
and reads nothing behind it. -/
def Reads {β α : Type} (m : Nat → β) (lo : Nat) (r : Reader β α) (bs : List β) (a : α) : Prop :=
  ∀ c : Cursor, lo ≤ c.off → c.top ≤ c.off → StandsAt m c.off bs →
    ∃ top ≤ c.off + bs.length, r m c = (some a, ⟨c.off + bs.length, top⟩)

section Reads

variable {β α γ : Type} {m : Nat → β} {lo lo' : Nat} {r : Reader β α} {f : α → Reader β γ}
  {bs bs' : List β} {a : α} {b : γ}

theorem Reads.pure : Reads m lo (Pure.pure a) [] a := by
  intro c _ htop _
  exact ⟨c.top, htop, rfl⟩

theorem Reads.pure_eq {a' : α} (h : a = a') : Reads m lo (Pure.pure a) [] a' := by
  subst h
  exact Reads.pure

theorem Reads.ofOption {o : Option α} (h : o = some a) : Reads m lo (Reader.ofOption o) [] a := by
  subst h
  exact Reads.pure

theorem Reads.bind_from (h : Reads m lo r bs a) (hf : Reads m (lo + bs.length) (f a) bs' b) :
    Reads m lo (r >>= f) (bs ++ bs') b := by
  intro c hlo htop hbs
  obtain ⟨h1, h2⟩ := standsAt_append.mp hbs
  obtain ⟨top, htop', hr⟩ := h c hlo htop h1
  have hlo' : lo + bs.length ≤ c.off + bs.length := by omega
  obtain ⟨top', htop'', hf'⟩ := hf ⟨c.off + bs.length, top⟩ hlo' htop' h2
  have hle : top' ≤ c.off + bs.length + bs'.length := htop''
  refine ⟨top', ?_, ?_⟩
  · rw [length_append]
    omega
  · rw [Reader.bind_some hr, hf', length_append, Nat.add_assoc]

theorem Reads.mono (h : Reads m lo r bs a) (hle : lo ≤ lo') : Reads m lo' r bs a :=
  fun c hlo => h c (Nat.le_trans hle hlo)

theorem Reads.bind (h : Reads m lo r bs a) (hf : Reads m lo (f a) bs' b) :
    Reads m lo (r >>= f) (bs ++ bs') b := h.bind_from (hf.mono (Nat.le_add_right ..))

theorem Reads.bind_nil (h : Reads m lo r [] a) (hf : Reads m lo (f a) bs b) :
    Reads m lo (r >>= f) bs b := h.bind hf

theorem Reads.map (h : Reads m lo r bs a) (hf : Reads m lo (f a) [] b) : Reads m lo (r >>= f) bs b := by
  have := h.bind hf
  rwa [append_nil] at this

variable {x : β}

theorem Reads.next : Reads m lo Reader.next [x] x := by
  intro c _ htop hbs
  refine ⟨c.off + 1, Nat.le_refl _, ?_⟩
  rw [Reader.next_apply, hbs.head]
  have : max c.top (c.off + 1) = c.off + 1 := by omega
  rw [this]
  rfl

theorem Reads.next_bind_from {f : β → Reader β γ} (h : Reads m (lo + 1) (f x) bs b) :
    Reads m lo (Reader.next >>= f) (x :: bs) b :=
  @Reads.bind_from _ _ _ _ _ _ _ [x] _ _ _ Reads.next h

theorem Reads.next_bind {f : β → Reader β γ} (h : Reads m lo (f x) bs b) :
    Reads m lo (Reader.next >>= f) (x :: bs) b := Reads.next.bind h

theorem Reads.skip {n : Nat} (hn : bs.length = n) : Reads m lo (Reader.skip n) bs () := by
  intro c _ htop _
  subst hn
  exact ⟨c.top, by omega, rfl⟩

theorem Reads.copy {n : Nat} (hn : bs.length = n) : Reads m lo (Reader.copy n) bs bs := by
  intro c _ htop hbs
  subst hn
  refine ⟨if bs.length = 0 then c.top else max c.top (c.off + bs.length), ?_, ?_⟩
  · split
    · omega
    · omega
  · show (some (Reader.window m (c.off + 0) bs.length), _) = _
    rw [Nat.add_zero, hbs.window]

theorem Reads.peek {i : Nat} (h : i < lo) : Reads m lo (Reader.peek i) [] (m i) := by
  intro c hlo htop _
  refine ⟨max c.top (i + 1), ?_, rfl⟩
  omega

end Reads

end Riot.Lib
