import Riot.Lib.Runs
import Riot.Psa.SlotManagement

/-!
# Every slot in its place

A slot is used or empty, in the list of its own array, and zeroed if it is empty; used slots have
different ids. This is kept as long as no key is given a slot that its attributes do not lead back to,
room is made by a slot of the right array that is not locked, and what fails fails before a slot was
linked. The ids that are counted up stay ahead of those in use.
-/

namespace Riot.Psa

open Riot.Lib Function List

variable {cfg : Config} {s s' : State} {ref v : SlotRef} {kind : SlotKind} {attr : KeyAttributes} {id : Nat}

/-! ## What has to hold -/

/-- **The slots as they should be.** -/
structure Good (cfg : Config) (s : State) : Prop where
  used : ∀ ref ∈ s.used, ref.index < cfg.count ref.kind
  empty : ∀ kind, ∀ ref ∈ s.empty kind, ref.kind = kind ∧ ref.index < cfg.count kind
  usedOnce : s.used.Nodup
  emptyOnce : ∀ kind, (s.empty kind).Nodup
  one : ∀ ref, ref.index < cfg.count ref.kind → (ref ∈ s.used ↔ ref ∉ s.empty ref.kind)
  zeroed : ∀ kind, ∀ ref ∈ s.empty kind, s.slots ref = zeroSlot cfg kind
  ids : ∀ ref ∈ s.used, ∀ ref' ∈ s.used, (s.slots ref).attr.id = (s.slots ref').attr.id → ref = ref'

/-- The lists, the lock counts and the ids are the same. -/
structure Same (s s' : State) : Prop where
  used : s'.used = s.used
  empty : s'.empty = s.empty
  locks : ∀ ref, (s'.slots ref).lockCount = (s.slots ref).lockCount
  ids : ∀ ref, (s'.slots ref).attr.id = (s.slots ref).attr.id

/-- The allocations and the loads. -/
def Event.Takes : Event → Prop
  | .allocate _ => True
  | .lookup _ _ => True
  | _ => False

/-- **What an event may do**, apart from where it leads: one that fails leaves everything as it was,
locked slots are not taken for others, and what is wiped is zeroed and in the list of its array. -/
structure Right (cfg : Config) (s : State) (e : Event) (status : Status) (s' : State) : Prop where
  failed : e.Takes → status ≠ .success → Same s s'
  locked : e.Takes → ∀ ref ∈ s.used, 0 < (s.slots ref).lockCount →
    ref ∈ s'.used ∧ (s'.slots ref).attr = (s.slots ref).attr ∧ (s'.slots ref).data = (s.slots ref).data ∧
      (s.slots ref).lockCount ≤ (s'.slots ref).lockCount
  wiped : ∀ ref ∈ s.used, ref ∉ s'.used → s'.slots ref = zeroSlot cfg ref.kind ∧ ref ∈ s'.empty ref.kind
  wipe : ∀ ref ∈ s.used, e = .wipe ref ∨ e = .wipeAll → ref ∉ s'.used

/-! ## The condition -/

/-- The attributes lead to this array, and what is wiped for them is all of a slot of it. -/
def Fits (cfg : Config) (attr : KeyAttributes) (kind : SlotKind) : Prop :=
  getEmptyKeySlotList cfg attr = some kind ∧ wipedSize cfg attr = some (cfg.dataSize kind)

/-- No slot is taken: there are no more ids, there is no array, or all slots are used and none can go. -/
def Refused (cfg : Config) (s : State) (attr : KeyAttributes) : Prop :=
  (lifetimeIsVolatile attr.lifetime = true ∧ s.keyIdCount = keyIdVolatileMax) ∨
    getEmptyKeySlotList cfg attr = none ∨
    ∃ kind, getEmptyKeySlotList cfg attr = some kind ∧ s.empty kind = [] ∧ (cfg.persistent = false ∨ victim s = none)

/-- The id of a persistent key is one that is left to its user, and none of those in use. -/
def IdFree (cfg : Config) (s : State) (attr : KeyAttributes) (used : List SlotRef) : Prop :=
  lifetimeIsVolatile attr.lifetime = true ∨
    cfg.persistent = true ∧ keyIdIsVolatile attr.id = false ∧ ∀ ref ∈ used, (s.slots ref).attr.id ≠ attr.id

/-- A slot that fits is there, or can be made free. -/
structure Provided (cfg : Config) (s : State) (attr : KeyAttributes) (kind : SlotKind) : Prop where
  counter : ¬ (lifetimeIsVolatile attr.lifetime = true ∧ s.keyIdCount = keyIdVolatileMax)
  fits : Fits cfg attr kind
  room : (s.empty kind ≠ [] ∧ IdFree cfg s attr s.used) ∨
    (s.empty kind = [] ∧ cfg.persistent = true ∧ ∃ v, victim s = some v ∧ v.kind = kind ∧
      (s.slots v).lockCount = 0 ∧ IdFree cfg s attr (s.used.erase v))

/-- What callers give: slots that are in use, and as much data as a slot has. -/
def Proper (cfg : Config) (s : State) : Event → Prop
  | .lock ref => ref ∈ s.used
  | .setData ref data => ref ∈ s.used ∧ data.length = cfg.dataSize ref.kind
  | _ => True

/-- **When an event is right**: what it allocates is refused at once or provided for, and a key that is
loaded can be decoded as a whole. -/
def Allowed (cfg : Config) (s : State) : Event → Prop
  | .allocate attr => Refused cfg s attr ∨ ∃ kind, Provided cfg s attr kind
  | .lookup id file =>
    (∃ ref ∈ s.used, (s.slots ref).attr.id = id) ∨ cfg.persistent = false ∨ keyIdIsVolatile id = true ∨
      match file with
      | .key attr data decoded => Refused cfg s attr ∨
          ∃ kind, Provided cfg s attr kind ∧ decoded = true ∧ data.length = cfg.dataSize kind
      | _ => True
  | e => Proper cfg s e

/-! ## The invariant -/

/-- Attributes lead back to the array, data has the size of the array, and volatile ids were counted. -/
structure Inv (cfg : Config) (s : State) : Prop extends Good cfg s where
  kinds : ∀ ref ∈ s.used, Fits cfg (s.slots ref).attr ref.kind
  sizes : ∀ ref ∈ s.used, (s.slots ref).data.length = cfg.dataSize ref.kind
  counted : ∀ ref ∈ s.used, keyIdIsVolatile (s.slots ref).attr.id = true → (s.slots ref).attr.id < s.keyIdCount
  counter : keyIdVolatileMin ≤ s.keyIdCount ∧ s.keyIdCount ≤ keyIdVolatileMax

theorem init_inv : Inv cfg (init cfg) where
  used := fun ref h => nomatch h
  empty := by
    intro kind ref h
    obtain ⟨i, hi, rfl⟩ := mem_map.mp h
    exact ⟨rfl, mem_range.mp hi⟩
  usedOnce := nodup_nil
  emptyOnce := by
    intro kind
    exact List.Pairwise.map _ (fun a b hab heq => hab (congrArg SlotRef.index heq)) nodup_range
  one := by
    intro ref h
    refine ⟨fun hmem => (nomatch hmem), fun hnot => absurd ?_ hnot⟩
    exact mem_map.mpr ⟨ref.index, mem_range.mpr h, rfl⟩
  zeroed := by
    intro kind ref h
    obtain ⟨i, -, rfl⟩ := mem_map.mp h
    rfl
  ids := fun ref h => nomatch h
  kinds := fun ref h => nomatch h
  sizes := fun ref h => nomatch h
  counted := fun ref h => nomatch h
  counter := ⟨Nat.le_refl keyIdVolatileMin, show keyIdVolatileMin ≤ keyIdVolatileMax by decide⟩

/-- The array for a key of these attributes. -/
def ownKind (attr : KeyAttributes) : SlotKind :=
  if lifetimeIsExternal attr.lifetime then .prot else if typeIsKeyPair attr.type then .keyPair else .single

theorem Good.notMem_empty (h : Good cfg s) (hmem : ref ∈ s.used) : ∀ kind, ref ∉ s.empty kind := by
  intro kind hin
  obtain ⟨rfl, hlt⟩ := h.empty kind ref hin
  exact (h.one ref hlt).mp hmem hin

/-- What happened to a used slot that is not used any more can be seen where it is then. -/
theorem Good.wiped (h : Good cfg s) (h' : Good cfg s') (hmem : ref ∈ s.used) (hnot : ref ∉ s'.used) :
    s'.slots ref = zeroSlot cfg ref.kind ∧ ref ∈ s'.empty ref.kind := by
  have hin : ref ∈ s'.empty ref.kind := Classical.byContradiction fun hno => hnot ((h'.one ref (h.used ref hmem)).mpr hno)
  exact ⟨h'.zeroed _ ref hin, hin⟩

/-! ## Wiping -/

/-- The state without the slot. -/
def wiped (cfg : Config) (s : State) (ref : SlotRef) : State :=
  { s with
    slots := update s.slots ref (zeroSlot cfg ref.kind)
    used := s.used.erase ref
    empty := update s.empty ref.kind (s.empty ref.kind ++ [ref]) }

theorem wipeRealSlotType_eq (h : Inv cfg s) (hmem : ref ∈ s.used) :
    wipeRealSlotType cfg (s.slots ref) = some (zeroSlot cfg ref.kind) := by
  have hsize := h.sizes ref hmem
  unfold wipeRealSlotType
  rw [(h.kinds ref hmem).2]
  dsimp only
  rw [if_pos (le_of_eq hsize.symm), drop_eq_nil_of_le (le_of_eq hsize), append_nil]
  rfl

theorem wipeKeySlot_eq (h : Inv cfg s) (hmem : ref ∈ s.used) : wipeKeySlot cfg s ref = some (.success, wiped cfg s ref) := by
  unfold wipeKeySlot
  rw [(h.kinds ref hmem).1, wipeRealSlotType_eq h hmem]
  dsimp only
  rw [if_pos hmem]
  rfl

theorem wiped_slots_of_ne {ref' : SlotRef} (h : ref' ≠ ref) : (wiped cfg s ref).slots ref' = s.slots ref' :=
  update_of_ne h _ _

theorem wiped_slots_self : (wiped cfg s ref).slots ref = zeroSlot cfg ref.kind := update_self _ _ _

theorem mem_wiped_used (h : Good cfg s) {ref' : SlotRef} : ref' ∈ (wiped cfg s ref).used ↔ ref' ∈ s.used ∧ ref' ≠ ref := by
  rw [and_comm]
  exact h.usedOnce.mem_erase_iff

theorem mem_wiped_empty {ref' : SlotRef} : ref' ∈ (wiped cfg s ref).empty kind ↔
    ref' ∈ s.empty kind ∨ kind = ref.kind ∧ ref' = ref := by
  unfold wiped
  dsimp only
  by_cases hkind : kind = ref.kind
  · subst hkind
    rw [update_self, mem_append, mem_singleton, and_iff_right rfl]
  · rw [update_of_ne hkind]
    exact ⟨.inl, fun h => h.resolve_right fun h => hkind h.1⟩

theorem wiped_inv (h : Inv cfg s) (hmem : ref ∈ s.used) : Inv cfg (wiped cfg s ref) where
  used := fun ref' h' => h.used ref' ((mem_wiped_used h.toGood).mp h').1
  empty := by
    intro kind ref' h'
    rcases mem_wiped_empty.mp h' with h' | ⟨rfl, rfl⟩
    · exact h.empty kind ref' h'
    · exact ⟨rfl, h.used ref' hmem⟩
  usedOnce := h.usedOnce.erase _
  emptyOnce := by
    intro kind
    unfold wiped
    dsimp only
    by_cases hkind : kind = ref.kind
    · subst hkind
      rw [update_self]
      refine nodup_append.mpr ⟨h.emptyOnce _, pairwise_singleton _ _, ?_⟩
      intro a ha b hb heq
      obtain rfl := mem_singleton.mp hb
      subst heq
      exact h.notMem_empty hmem _ ha
    · rw [update_of_ne hkind]
      exact h.emptyOnce kind
  one := by
    intro ref' hlt
    rw [mem_wiped_used h.toGood, mem_wiped_empty, h.one ref' hlt, not_or]
    refine and_congr_right fun _ => not_congr ⟨?_, fun h => h.2⟩
    rintro rfl
    exact ⟨rfl, rfl⟩
  zeroed := by
    intro kind ref' h'
    rcases mem_wiped_empty.mp h' with hin | ⟨rfl, rfl⟩
    · have hne : ref' ≠ ref := by
        rintro rfl
        exact h.notMem_empty hmem kind hin
      rw [wiped_slots_of_ne hne]
      exact h.zeroed kind ref' hin
    · exact wiped_slots_self
  ids := by
    intro ref1 h1 ref2 h2 heq
    obtain ⟨h1, hne1⟩ := (mem_wiped_used h.toGood).mp h1
    obtain ⟨h2, hne2⟩ := (mem_wiped_used h.toGood).mp h2
    rw [wiped_slots_of_ne hne1, wiped_slots_of_ne hne2] at heq
    exact h.ids ref1 h1 ref2 h2 heq
  kinds := by
    intro ref' h'
    obtain ⟨h', hne⟩ := (mem_wiped_used h.toGood).mp h'
    rw [wiped_slots_of_ne hne]
    exact h.kinds ref' h'
  sizes := by
    intro ref' h'
    obtain ⟨h', hne⟩ := (mem_wiped_used h.toGood).mp h'
    rw [wiped_slots_of_ne hne]
    exact h.sizes ref' h'
  counted := by
    intro ref' h'
    obtain ⟨h', hne⟩ := (mem_wiped_used h.toGood).mp h'
    rw [wiped_slots_of_ne hne]
    exact h.counted ref' h'
  counter := h.counter

theorem wipeAllLoop_inv : ∀ {n : Nat} {s : State}, Inv cfg s → s.used.length = n →
    ∃ s', wipeAllLoop cfg s.used.reverse s = some s' ∧ Inv cfg s' ∧ s'.used = [] := by
  intro n
  induction n with
  | zero =>
    intro s h hlen
    have hnil := length_eq_zero_iff.mp hlen
    rw [hnil]
    exact ⟨s, rfl, h, hnil⟩
  | succ n ih =>
    intro s h hlen
    obtain ⟨front, ref, hused⟩ : ∃ front ref, s.used = front ++ [ref] := by
      have hne : s.used ≠ [] := by
        intro hnil
        rw [hnil] at hlen
        cases hlen
      exact ⟨s.used.dropLast, s.used.getLast hne, (dropLast_concat_getLast hne).symm⟩
    have hmem : ref ∈ s.used := by
      rw [hused]
      exact mem_append_right _ mem_cons_self
    have hfront : s.used.erase ref = front := by
      have hnodup := h.usedOnce
      rw [hused] at hnodup ⊢
      have hnot : ref ∉ front := fun hin =>
        (nodup_append.mp hnodup).2.2 ref hin ref mem_cons_self rfl
      rw [erase_append_right _ hnot]
      simp
    have hrest : (wiped cfg s ref).used = front := hfront
    obtain ⟨s', hloop, hinv, hnil⟩ := ih (wiped_inv h hmem) (by
      rw [hrest]
      rw [hused, length_append, length_singleton] at hlen
      omega)
    refine ⟨s', ?_, hinv, hnil⟩
    rw [hused, reverse_append, reverse_singleton, singleton_append, wipeAllLoop,
      (h.kinds ref hmem).1, wipeRealSlotType_eq h hmem, ← hloop]
    unfold wiped
    rw [hfront, hused, dropLast_concat]
    rfl

/-! ## Taking a slot -/

/-- The state with the last empty slot of the array of `ref`, which is `ref`, used for `slot`. -/
def taken (s : State) (ref : SlotRef) (slot : KeySlot) (count : Nat) : State where
  slots := update s.slots ref slot
  used := s.used ++ [ref]
  empty := update s.empty ref.kind (s.empty ref.kind).dropLast
  keyIdCount := count

variable {slot : KeySlot} {count : Nat}

theorem mem_taken_used {ref' : SlotRef} : ref' ∈ (taken s ref slot count).used ↔ ref' ∈ s.used ∨ ref' = ref := by
  unfold taken
  rw [mem_append, mem_singleton]

theorem mem_taken_empty (h : Good cfg s) (hlast : (s.empty ref.kind).getLast? = some ref) {ref' : SlotRef} :
    ref' ∈ (taken s ref slot count).empty kind ↔ ref' ∈ s.empty kind ∧ ref' ≠ ref := by
  unfold taken
  dsimp only
  by_cases hkind : kind = ref.kind
  · subst hkind
    obtain ⟨front, hfront⟩ := getLast?_eq_some_iff.mp hlast
    have hnodup := h.emptyOnce ref.kind
    rw [update_self, hfront, dropLast_concat, mem_append, mem_singleton]
    rw [hfront] at hnodup
    have hnot : ref ∉ front := fun hin => (nodup_append.mp hnodup).2.2 ref hin ref mem_cons_self rfl
    constructor
    · intro hin
      refine ⟨.inl hin, ?_⟩
      rintro rfl
      exact hnot hin
    · rintro ⟨hin | heq, hne⟩
      · exact hin
      · exact absurd heq hne
  · rw [update_of_ne hkind]
    refine ⟨fun hin => ⟨hin, ?_⟩, fun hin => hin.1⟩
    rintro rfl
    exact hkind (h.empty kind _ hin).1.symm

theorem taken_slots_of_ne {ref' : SlotRef} (h : ref' ≠ ref) : (taken s ref slot count).slots ref' = s.slots ref' :=
  update_of_ne h _ _

theorem taken_slots_self : (taken s ref slot count).slots ref = slot := update_self _ _ _

theorem taken_inv (h : Inv cfg s) (hlast : (s.empty ref.kind).getLast? = some ref) (hfits : Fits cfg slot.attr ref.kind)
    (hsize : slot.data.length = cfg.dataSize ref.kind) (hnew : ∀ ref' ∈ s.used, (s.slots ref').attr.id ≠ slot.attr.id)
    (hcounted : keyIdIsVolatile slot.attr.id = true → slot.attr.id < count)
    (hcount : s.keyIdCount ≤ count ∧ count ≤ keyIdVolatileMax) : Inv cfg (taken s ref slot count) := by
  have hin : ref ∈ s.empty ref.kind := mem_of_getLast? hlast
  have hlt := (h.empty ref.kind ref hin).2
  have hnot : ref ∉ s.used := fun hused => h.notMem_empty hused _ hin
  have hne : ∀ ref' ∈ s.used, ref' ≠ ref := by
    rintro ref' hused rfl
    exact hnot hused
  -- what is kept of a used slot, and what is said of the new one
  have hall : ∀ {P : SlotRef → KeySlot → Prop}, (∀ ref' ∈ s.used, P ref' (s.slots ref')) → P ref slot →
      ∀ ref' ∈ (taken s ref slot count).used, P ref' ((taken s ref slot count).slots ref') := by
    intro P hold hslot ref' h'
    rcases mem_taken_used.mp h' with h' | rfl
    · rw [taken_slots_of_ne (hne ref' h')]
      exact hold ref' h'
    · rw [taken_slots_self]
      exact hslot
  exact {
    used := fun ref' h' => (mem_taken_used.mp h').elim (h.used ref') (fun heq => heq ▸ hlt)
    empty := fun kind ref' h' => h.empty kind ref' ((mem_taken_empty h.toGood hlast).mp h').1
    usedOnce := by
      refine nodup_append.mpr ⟨h.usedOnce, pairwise_singleton _ _, ?_⟩
      intro a ha b hb
      obtain rfl := mem_singleton.mp hb
      exact hne a ha
    emptyOnce := by
      intro kind
      unfold taken
      dsimp only
      by_cases hkind : kind = ref.kind
      · subst hkind
        rw [update_self]
        exact (h.emptyOnce _).sublist (dropLast_sublist _)
      · rw [update_of_ne hkind]
        exact h.emptyOnce kind
    one := by
      intro ref' hlt'
      rw [mem_taken_used, mem_taken_empty h.toGood hlast, h.one ref' hlt', not_and_or, not_not]
    zeroed := by
      intro kind ref' h'
      obtain ⟨h', hne'⟩ := (mem_taken_empty h.toGood hlast).mp h'
      rw [taken_slots_of_ne hne']
      exact h.zeroed kind ref' h'
    ids := by
      intro ref1 h1 ref2 h2 heq
      rcases mem_taken_used.mp h1 with hold1 | rfl <;> rcases mem_taken_used.mp h2 with hold2 | rfl
      · rw [taken_slots_of_ne (hne _ hold1), taken_slots_of_ne (hne _ hold2)] at heq
        exact h.ids _ hold1 _ hold2 heq
      · rw [taken_slots_of_ne (hne _ hold1), taken_slots_self] at heq
        exact absurd heq (hnew _ hold1)
      · rw [taken_slots_of_ne (hne _ hold2), taken_slots_self] at heq
        exact absurd heq.symm (hnew _ hold2)
      · rfl
    kinds := hall (P := fun ref slot => Fits cfg slot.attr ref.kind) h.kinds hfits
    sizes := hall (P := fun ref slot => slot.data.length = cfg.dataSize ref.kind) h.sizes hsize
    counted := hall (P := fun _ slot => keyIdIsVolatile slot.attr.id = true → slot.attr.id < count)
      (fun ref' h' hvol => lt_of_lt_of_le (h.counted ref' h' hvol) hcount.1) hcounted
    counter := ⟨le_trans h.counter.1 hcount.1, hcount.2⟩ }

/-- The id that a key gets. -/
def newId (s : State) (attr : KeyAttributes) : Nat := if lifetimeIsVolatile attr.lifetime then s.keyIdCount else attr.id

def newCount (s : State) (attr : KeyAttributes) : Nat :=
  if lifetimeIsVolatile attr.lifetime then s.keyIdCount + 1 else s.keyIdCount

/-- What provides a slot: the last of an array that has empty ones, where no used slot has the new id. -/
structure Provides (cfg : Config) (s : State) (attr : KeyAttributes) (ref : SlotRef) : Prop extends Inv cfg s where
  last : (s.empty ref.kind).getLast? = some ref
  fits : Fits cfg attr ref.kind
  counterLeft : ¬ (lifetimeIsVolatile attr.lifetime = true ∧ s.keyIdCount = keyIdVolatileMax)
  idFree : IdFree cfg s attr s.used

theorem Provides.taken_inv {data : List UInt8} (h : Provides cfg s attr ref) (hlen : data.length = cfg.dataSize ref.kind) :
    Inv cfg (taken s ref ⟨1, { attr with id := newId s attr }, data⟩ (newCount s attr)) := by
  have hfits : Fits cfg { attr with id := newId s attr } ref.kind := h.fits
  unfold newId newCount at *
  cases hvol : lifetimeIsVolatile attr.lifetime with
  | true =>
    have hlt : s.keyIdCount < keyIdVolatileMax := by
      have := h.counter.2
      have hne : s.keyIdCount ≠ keyIdVolatileMax := fun heq => h.counterLeft ⟨hvol, heq⟩
      omega
    refine Riot.Psa.taken_inv h.toInv h.last hfits hlen ?_ (fun _ => Nat.lt_succ_self _) ⟨Nat.le_succ _, hlt⟩
    intro ref' h' heq
    -- the counted ids are behind the counter
    have hcounted := h.counted ref' h'
    rw [heq] at hcounted
    refine absurd (hcounted ?_) (Nat.lt_irrefl _)
    have hmin := h.counter.1
    have hmax := h.counter.2
    simp [keyIdIsVolatile, hmin, hmax]
  | false =>
    rcases h.idFree with h' | ⟨-, hid, hnew⟩
    · rw [hvol] at h'
      cases h'
    · simp only [hvol, if_false, Bool.false_eq_true] at hfits ⊢
      refine Riot.Psa.taken_inv h.toInv h.last hfits hlen hnew ?_ ⟨le_rfl, h.counter.2⟩
      intro hvolatile
      rw [hid] at hvolatile
      cases hvolatile

/-- Only room was made: a slot that is not locked is wiped. -/
def MadeRoom (cfg : Config) (s s₁ : State) : Prop :=
  s₁ = s ∨ ∃ v ∈ s.used, (s.slots v).lockCount = 0 ∧ s₁ = wiped cfg s v

theorem Provided.provides (h : Inv cfg s) (hp : Provided cfg s attr kind) :
    ∃ s1 ref, MadeRoom cfg s s1 ∧ Provides cfg s1 attr ref ∧ ref.kind = kind ∧
      (if s.empty kind = [] then
        if cfg.persistent then findAndWipePersistentKey cfg s else some (.insufficientStorage, s)
      else some (.success, s)) = some (.success, s1) := by
  rcases hp.room with ⟨hne, hfree⟩ | ⟨hnil, hpers, v, hv, hkind, hunlocked, hfree⟩
  · have hlast := getLast?_eq_some_getLast hne
    have hk := (h.empty kind _ (getLast_mem hne)).1
    refine ⟨s, (s.empty kind).getLast hne, .inl rfl, ⟨h, ?_, ?_, hp.counter, hfree⟩, hk, if_neg hne⟩
    · rw [hk]
      exact hlast
    · rw [hk]
      exact hp.fits
  · have hmem : v ∈ s.used := mem_of_find?_eq_some hv
    subst hkind
    refine ⟨wiped cfg s v, v, .inr ⟨v, hmem, hunlocked, rfl⟩, ⟨wiped_inv h hmem, ?_, hp.fits, hp.counter, ?_⟩, rfl, ?_⟩
    · show ((update s.empty v.kind (s.empty v.kind ++ [v])) v.kind).getLast? = some v
      rw [update_self, getLast?_concat]
    · refine hfree.imp_right fun ⟨hpers, hid, hnew⟩ => ⟨hpers, hid, ?_⟩
      intro ref' h'
      rw [wiped_slots_of_ne ((mem_wiped_used h.toGood).mp h').2]
      exact hnew ref' h'
    · rw [if_pos hnil, if_pos hpers, findAndWipePersistentKey, hv]
      exact wipeKeySlot_eq h hmem

/-- **A slot that is provided is taken.** -/
theorem allocateEmptyKeySlot_provided (h : Inv cfg s) (hp : Provided cfg s attr kind) :
    ∃ s1 ref, MadeRoom cfg s s1 ∧ Provides cfg s1 attr ref ∧ ref.kind = kind ∧
      allocateEmptyKeySlot cfg s attr = some (.ok (ref, newId s1 attr),
          taken s1 ref ⟨1, zeroAttributes, replicate (cfg.dataSize ref.kind) 0⟩ (newCount s1 attr)) := by
  obtain ⟨s1, ref, hroom, hprov, hkind, heq⟩ := hp.provides h
  refine ⟨s1, ref, hroom, hprov, hkind, ?_⟩
  have hzero : s1.slots ref = zeroSlot cfg ref.kind := hprov.zeroed _ ref (mem_of_getLast? hprov.last)
  have hlist : allocateKeySlotInList cfg s attr = some (.ok ref, { s1 with
      used := s1.used ++ [ref]
      empty := update s1.empty ref.kind (s1.empty ref.kind).dropLast }) := by
    unfold allocateKeySlotInList
    rw [hp.fits.1]
    dsimp only
    rw [heq, Option.bind_some]
    rw [if_neg (fun hne => hne rfl), ← hkind, hprov.last]
  unfold allocateEmptyKeySlot
  rw [if_neg hp.counter, hlist, Option.map_some]
  have hlock : lockKeySlot cfg { s1 with
      used := s1.used ++ [ref]
      empty := update s1.empty ref.kind (s1.empty ref.kind).dropLast } ref =
      (.success, taken s1 ref ⟨1, zeroAttributes, replicate (cfg.dataSize ref.kind) 0⟩ s1.keyIdCount) := by
    unfold lockKeySlot
    rw [if_neg (by rw [hzero]; exact Nat.not_le_of_lt cfg.sizeMax_pos), hzero]
    rfl
  dsimp only
  rw [hlock]
  unfold newId newCount taken
  cases hvol : lifetimeIsVolatile attr.lifetime with
  | true => simp
  | false =>
    rcases hprov.idFree with h' | ⟨hpers, hid, -⟩
    · rw [hvol] at h'
      cases h'
    · simp [hpers, hid]

/-- **A slot that is refused leaves everything as it was.** -/
theorem allocateEmptyKeySlot_refused (hr : Refused cfg s attr) :
    ∃ status, status ≠ .success ∧ allocateEmptyKeySlot cfg s attr = some (.error status, s) := by
  unfold allocateEmptyKeySlot
  by_cases hcount : lifetimeIsVolatile attr.lifetime = true ∧ s.keyIdCount = keyIdVolatileMax
  · rw [if_pos hcount]
    exact ⟨.insufficientStorage, nofun, rfl⟩
  rw [if_neg hcount]
  unfold allocateKeySlotInList
  rcases hr with hr | hnone | ⟨kind, hkind, hnil, hfull⟩
  · exact absurd hr hcount
  · rw [hnone]
    exact ⟨.doesNotExist, nofun, rfl⟩
  · rw [hkind]
    dsimp only
    rw [if_pos hnil]
    refine ⟨.insufficientStorage, nofun, ?_⟩
    rcases hfull with hpers | hvictim
    · rw [hpers]
      rfl
    · have hwipe : findAndWipePersistentKey cfg s = some (.insufficientStorage, s) := by
        unfold findAndWipePersistentKey
        rw [hvictim]
      rw [hwipe, ite_self]
      rfl

/-! ## Every event -/

theorem Same.refl : Same s s := ⟨rfl, rfl, fun _ => rfl, fun _ => rfl⟩

theorem right_self (e : Event) {status : Status} (hno : ∀ ref ∈ s.used, ¬ (e = .wipe ref ∨ e = .wipeAll)) :
    Right cfg s e status s where
  failed := fun _ _ => Same.refl
  locked := fun _ _ h _ => ⟨h, rfl, rfl, le_rfl⟩
  wiped := fun _ h hnot => absurd h hnot
  wipe := fun ref h hwipe => absurd hwipe (hno ref h)

theorem setAttributes_taken : setAttributes (taken s ref slot count) ref attr = taken s ref { slot with attr := attr } count := by
  unfold setAttributes
  rw [taken_slots_self]
  unfold taken
  rw [update_idem]

theorem setData_taken {data : List UInt8} :
    setData (taken s ref slot count) ref data = taken s ref { slot with data := data } count := by
  unfold setData
  rw [taken_slots_self]
  unfold taken
  rw [update_idem]

theorem MadeRoom.right {s1 : State} (h : Inv cfg s) (hroom : MadeRoom cfg s s1) (hprov : Provides cfg s1 attr ref)
    (hinv : Inv cfg (taken s1 ref slot count)) {e : Event} (he : e.Takes) :
    Right cfg s e .success (taken s1 ref slot count) := by
  have hin : ref ∈ s1.empty ref.kind := mem_of_getLast? hprov.last
  have hnot : ref ∉ s1.used := fun hused => hprov.notMem_empty hused _ hin
  have hkept : ∀ ref' ∈ s.used, 0 < (s.slots ref').lockCount → ref' ∈ s1.used ∧ s1.slots ref' = s.slots ref' := by
    intro ref' hmem hlock
    rcases hroom with rfl | ⟨v, hv, hunlocked, rfl⟩
    · exact ⟨hmem, rfl⟩
    · have hne : ref' ≠ v := by
        rintro rfl
        omega
      exact ⟨(mem_wiped_used h.toGood).mpr ⟨hmem, hne⟩, wiped_slots_of_ne hne⟩
  refine ⟨fun _ hfail => absurd rfl hfail, ?_, fun ref' hmem hno => h.wiped hinv.toGood hmem hno, ?_⟩
  · intro _ ref' hmem hlock
    obtain ⟨hmem', hsame⟩ := hkept ref' hmem hlock
    have hne : ref' ≠ ref := by
      rintro rfl
      exact hnot hmem'
    rw [taken_slots_of_ne hne, hsame]
    exact ⟨mem_taken_used.mpr (.inl hmem'), rfl, rfl, le_rfl⟩
  · intro ref' _ hwipe
    rcases hwipe with rfl | rfl <;> cases he

theorem startKeyCreation_right (h : Inv cfg s) (hok : Refused cfg s attr ∨ ∃ kind, Provided cfg s attr kind) :
    ∃ status s', startKeyCreation cfg s attr = some (status, s') ∧ Inv cfg s' ∧ Right cfg s (.allocate attr) status s' := by
  unfold startKeyCreation
  rcases hok with hr | ⟨kind, hp⟩
  · obtain ⟨status, -, heq⟩ := allocateEmptyKeySlot_refused hr
    rw [heq]
    exact ⟨status, s, rfl, h, right_self _ fun _ _ hno => hno.elim nofun nofun⟩
  · obtain ⟨s1, ref, hroom, hprov, rfl, heq⟩ := allocateEmptyKeySlot_provided h hp
    have hinv := hprov.taken_inv (length_replicate (a := (0 : UInt8)))
    rw [heq]
    refine ⟨.success, _, congrArg some (congrArg (Prod.mk _) setAttributes_taken), hinv, ?_⟩
    exact hroom.right h hprov hinv trivial

theorem getPersistedKeySlot_right {id : Nat} {file : Stored} (h : Inv cfg s)
    (hok : match file with
      | .key attr data decoded => Refused cfg s attr ∨
          ∃ kind, Provided cfg s attr kind ∧ decoded = true ∧ data.length = cfg.dataSize kind
      | _ => True) :
    ∃ status s', getPersistedKeySlot cfg s file = some (status, s') ∧ Inv cfg s' ∧
      Right cfg s (.lookup id file) status s' := by
  have hself : ∀ status, Right cfg s (.lookup id file) status s := fun _ => right_self _ fun _ _ hno => hno.elim nofun nofun
  cases file with
  | unread => exact ⟨.storageFailure, s, rfl, h, hself _⟩
  | undecoded => exact ⟨.storageFailure, s, rfl, h, hself _⟩
  | key attr data decoded =>
    unfold getPersistedKeySlot
    dsimp only
    rcases hok with hr | ⟨kind, hp, rfl, hlen⟩
    · obtain ⟨status, -, heq⟩ := allocateEmptyKeySlot_refused hr
      rw [heq]
      exact ⟨status, s, rfl, h, hself _⟩
    · obtain ⟨s1, ref, hroom, hprov, rfl, heq⟩ := allocateEmptyKeySlot_provided h hp
      have hinv := hprov.taken_inv hlen
      rw [heq, Option.map_some]
      dsimp only
      rw [setAttributes_taken, setData_taken]
      exact ⟨.success, _, rfl, hinv, hroom.right h hprov hinv trivial⟩

/-- A slot that is not empty may change, but for its attributes and the size of its data. -/
theorem Inv.update (h : Inv cfg s) (hnot : ∀ kind, ref ∉ s.empty kind) (hattr : slot.attr = (s.slots ref).attr)
    (hlen : ref ∈ s.used → slot.data.length = cfg.dataSize ref.kind) :
    Inv cfg { s with slots := Function.update s.slots ref slot } := by
  have hattrs : ∀ ref', (Function.update s.slots ref slot ref').attr = (s.slots ref').attr := by
    intro ref'
    by_cases hne : ref' = ref
    · subst hne
      rw [Function.update_self, hattr]
    · rw [update_of_ne hne]
  exact { h with
    zeroed := by
      intro kind ref' h'
      have hne : ref' ≠ ref := by
        rintro rfl
        exact hnot kind h'
      exact (update_of_ne hne _ _).trans (h.zeroed kind ref' h')
    ids := by
      intro ref1 h1 ref2 h2
      rw [hattrs, hattrs]
      exact h.ids ref1 h1 ref2 h2
    kinds := by
      intro ref' h'
      rw [hattrs]
      exact h.kinds ref' h'
    sizes := by
      intro ref' h'
      dsimp only
      by_cases hne : ref' = ref
      · subst hne
        rw [Function.update_self]
        exact hlen h'
      · rw [update_of_ne hne]
        exact h.sizes ref' h'
    counted := by
      intro ref' h'
      rw [hattrs]
      exact h.counted ref' h' }

theorem lockKeySlot_right (h : Inv cfg s) (hmem : ref ∈ s.used) {e : Event} (hno : ∀ ref, ¬ (e = .wipe ref ∨ e = .wipeAll)) :
    Inv cfg (lockKeySlot cfg s ref).2 ∧ Right cfg s e (lockKeySlot cfg s ref).1 (lockKeySlot cfg s ref).2 := by
  unfold lockKeySlot
  split
  · exact ⟨h, right_self e fun ref' _ => hno ref'⟩
  · refine ⟨h.update (h.notMem_empty hmem) rfl fun hused => h.sizes ref hused, ?_⟩
    refine ⟨fun _ hfail => absurd rfl hfail, ?_, fun ref' h' hnot => absurd h' hnot, fun ref' _ hwipe => absurd hwipe (hno ref')⟩
    intro _ ref' h' _
    refine ⟨h', ?_⟩
    dsimp only
    by_cases hne : ref' = ref
    · subst hne
      rw [update_self]
      exact ⟨rfl, rfl, Nat.le_succ _⟩
    · rw [update_of_ne hne]
      exact ⟨rfl, rfl, le_rfl⟩

theorem unlockKeySlot_inv (h : Inv cfg s) : Inv cfg (unlockKeySlot s ref).2 := by
  unfold unlockKeySlot
  split
  · rename_i hlock
    refine h.update (fun kind hin => ?_) rfl fun hused => h.sizes ref hused
    rw [h.zeroed kind ref hin] at hlock
    exact Nat.lt_irrefl 0 hlock
  · exact h

theorem unlockKeySlot_used : (unlockKeySlot s ref).2.used = s.used := by
  unfold unlockKeySlot
  split <;> rfl

/-- **An event that is right keeps the invariant.** -/
theorem call_right {e : Event} (h : Inv cfg s) (hok : Allowed cfg s e) :
    ∃ status s', call cfg s e = some (status, s') ∧ Inv cfg s' ∧ Right cfg s e status s' := by
  cases e with
  | allocate attr => exact startKeyCreation_right h hok
  | lookup id file =>
    unfold call getAndLockKeySlot
    dsimp only
    cases hfind : s.used.find? (fun ref => (s.slots ref).attr.id = id) with
    | some ref =>
      have hlock := lockKeySlot_right (e := .lookup id file) h (mem_of_find?_eq_some hfind) (fun _ hno => hno.elim nofun nofun)
      exact ⟨_, _, rfl, hlock.1, hlock.2⟩
    | none =>
      have hself : ∃ status s', some (Status.doesNotExist, s) = some (status, s') ∧ Inv cfg s' ∧
          Right cfg s (.lookup id file) status s' :=
        ⟨_, _, rfl, h, right_self _ fun _ _ hno => hno.elim nofun nofun⟩
      dsimp only
      rcases hok with ⟨ref, hmem, hid⟩ | hpers | hvol | hfile
      · have := find?_eq_none.mp hfind ref hmem
        simp [hid] at this
      · rw [hpers]
        exact hself
      · rw [hvol, Bool.not_true, Bool.and_false]
        exact hself
      · split
        · exact getPersistedKeySlot_right h hfile
        · exact hself
  | lock ref =>
    have hlock := lockKeySlot_right (e := .lock ref) h hok (fun _ hno => hno.elim nofun nofun)
    exact ⟨_, _, rfl, hlock.1, hlock.2⟩
  | unlock ref =>
    refine ⟨(unlockKeySlot s ref).1, (unlockKeySlot s ref).2, rfl, unlockKeySlot_inv h, nofun, nofun, ?_, fun _ _ hwipe => hwipe.elim nofun nofun⟩
    intro ref' hmem hnot
    rw [unlockKeySlot_used] at hnot
    exact absurd hmem hnot
  | setData ref data =>
    obtain ⟨hmem, hlen⟩ := hok
    refine ⟨_, _, rfl, h.update (h.notMem_empty hmem) rfl fun _ => hlen, nofun, nofun, ?_,
      fun _ _ hwipe => hwipe.elim nofun nofun⟩
    intro ref' h' hnot
    exact absurd h' hnot
  | wipe ref =>
    by_cases hmem : ref ∈ s.used
    · have hinv := wiped_inv h hmem
      refine ⟨_, _, wipeKeySlot_eq h hmem, hinv, nofun, nofun, fun ref' h' hnot => h.wiped hinv.toGood h' hnot, ?_⟩
      rintro ref' h' (heq | heq)
      · obtain rfl := Event.wipe.inj heq
        exact fun hin => ((mem_wiped_used h.toGood).mp hin).2 rfl
      · cases heq
    · have hcall : ∃ status, wipeKeySlot cfg s ref = some (status, s) := by
        unfold wipeKeySlot
        split
        · exact ⟨_, rfl⟩
        · rw [if_neg hmem]
          exact ⟨_, rfl⟩
      obtain ⟨status, hcall⟩ := hcall
      refine ⟨status, s, hcall, h, right_self _ ?_⟩
      rintro ref' h' (heq | heq)
      · obtain rfl := Event.wipe.inj heq
        exact hmem h'
      · cases heq
  | wipeAll =>
    obtain ⟨s', hloop, hinv, hnil⟩ := wipeAllLoop_inv h rfl
    refine ⟨.success, s', congrArg (Option.map _) hloop, hinv, nofun, nofun, fun ref' h' hnot => h.wiped hinv.toGood h' hnot, ?_⟩
    intro ref' _ _
    rw [hnil]
    exact not_mem_nil

/-! ## Every run -/

/-- **What the slots are and what every event does**, where the events meet `ok`. -/
def SlotsRight (cfg : Config) (ok : State → Event → Prop) (s : State) : Prop :=
  Good cfg s ∧ ∀ e, ok s e → ∃ status s', call cfg s e = some (status, s') ∧ Right cfg s e status s'

/-- **Key slots stay in their place** in every run whose events are all right. -/
theorem slots_right (cfg : Config) (es : List Event) (h : Along (step cfg) (Allowed cfg) (init cfg) es) :
    Always (step cfg) (SlotsRight cfg (Allowed cfg)) (init cfg) es := by
  refine always_of_along (I := Inv cfg) ?_ ?_ es init_inv h
  · intro s hinv
    refine ⟨hinv.toGood, fun e hok => ?_⟩
    obtain ⟨status, s', hcall, -, hright⟩ := call_right hinv hok
    exact ⟨status, s', hcall, hright⟩
  · intro s e s' hinv hok hstep
    obtain ⟨status, s₁, hcall, hinv', -⟩ := call_right hinv hok
    unfold step at hstep
    rw [hcall] at hstep
    cases hstep
    exact hinv'

/-- One slot in each array. -/
def oneEach : Config := ⟨fun _ => 1, fun _ => 2, true, 255, by decide⟩

/-- A persistent key of this id. -/
def persistentKey (id : Nat) : KeyAttributes := ⟨0, 1, id⟩

/-- A key is created and unlocked, and makes room for another. -/
theorem slots_right_evicted : Always (step oneEach) (SlotsRight oneEach (Allowed oneEach)) (init oneEach)
    [.allocate (persistentKey 5), .unlock ⟨.single, 0⟩, .allocate (persistentKey 6), .wipeAll] := by
  refine slots_right oneEach _ ?_
  have hfits : Fits oneEach (persistentKey 5) .single ∧ Fits oneEach (persistentKey 6) .single :=
    ⟨⟨by decide, by decide⟩, ⟨by decide, by decide⟩⟩
  refine And.intro (.inr ⟨.single, by decide, hfits.1, .inl ⟨by decide, .inr ⟨rfl, by decide, nofun⟩⟩⟩) ?_
  refine And.intro trivial ?_
  refine And.intro (.inr ⟨.single, by decide, hfits.2, .inr ⟨rfl, rfl, ⟨.single, 0⟩, rfl, rfl, rfl, ?_⟩⟩) ?_
  · exact .inr ⟨rfl, by decide, nofun⟩
  · exact And.intro trivial trivial

/-- A key whose data cannot be decoded is not there, but has a slot, and the slot is locked. -/
theorem not_slots_right : ¬ ∀ (cfg : Config) (es : List Event), Along (step cfg) (Proper cfg) (init cfg) es →
    Always (step cfg) (SlotsRight cfg (Proper cfg)) (init cfg) es := by
  intro hall
  have hright : SlotsRight oneEach (Proper oneEach) (init oneEach) := (hall oneEach [] trivial).head
  obtain ⟨status, s', hcall, hright⟩ := hright.2 (.lookup 5 (.key (persistentKey 5) [0, 0] false)) trivial
  have hfail : (call oneEach (init oneEach) (.lookup 5 (.key (persistentKey 5) [0, 0] false))).map
      (fun result => (result.1, result.2.used)) = some (.storageFailure, [⟨.single, 0⟩]) := by decide
  rw [hcall] at hfail
  obtain ⟨hstatus, hused⟩ := Prod.mk.inj (Option.some.inj hfail)
  have hne : status ≠ .success := by
    rintro rfl
    cases hstatus
  have hsame := (hright.failed trivial hne).used
  rw [hused] at hsame
  cases hsame

end Riot.Psa
