import Riot.Pktbuf.Merge

/-!
# What the operations do to a packet

Marking, reallocating and merging, for every packet in the buffer and whatever else is live in it:
each fails and leaves everything as it was, or the bytes come out as they should. Two cases are
missed: the size that `_align` makes 0 of, and snips behind the first that have no data to merge.
-/

namespace Riot.Pktbuf

open Riot.Lib List

variable {c : Config} {b : Buf} {room : Nat → Prop} {others rest : List Nat} {p size : Nat}

/-- **The three operations** on the packet of `p` and the snips `rest`, for a new size of the data. -/
structure ContentsRight (c : Config) (room : Nat → Prop) (b : Buf) (p : Nat) (rest others : List Nat) (size : Nat) :
    Prop where
  markNull : ∀ size type, gnrcPktbufMark c b none size type = some (none, b)
  mark : ∀ size type, gnrcPktbufMark c b (some p) size type = some (none, b) ∨
    ∃ m b', gnrcPktbufMark c b (some p) size type = some (some m, b') ∧ Marked c room b b' p m size type others
  realloc : ReallocRight c room b p size others
  merge : MergeRight c room b p rest

/-- **Exactly when they are right:** the size is no greater than before, or does not run over in
`_align`, or there is no unused section; and there are no other snips in the packet, or one of them
has data. -/
theorem contents_right_iff (h : Sound c room b (p :: others)) (hchain : Chain b (some p) (p :: rest))
    (hsub : ∀ q ∈ rest, q ∈ others) (hword : size < 2 ^ c.word) :
    ContentsRight c room b p rest others size ↔
      (size ≤ (b.snips p).size ∨ c.Fits size ∨ b.unused = []) ∧ (rest = [] ∨ ∃ q ∈ rest, (b.snips q).size ≠ 0) := by
  constructor
  · intro hright
    refine ⟨Classical.byContradiction fun hbad => ?_, (merge_right_iff h hchain hsub).mp hright.merge⟩
    rw [not_or, not_or] at hbad
    exact not_realloc_right h hword (Nat.lt_of_not_le hbad.1) hbad.2.1 hbad.2.2 hright.realloc
  · rintro ⟨hsize, hrest⟩
    exact ⟨fun _ _ => rfl, fun _ _ => gnrcPktbufMark_cases h, realloc_right h hsize,
      (merge_right_iff h hchain hsub).mpr hrest⟩

/-! ## A small buffer -/

/-- 64 bytes on a platform of 32 bits. -/
def small : Config where
  word := 32
  unusedSize := 8
  snipSize := 20
  bufSize := 64
  unused_pos := by decide
  snip_pos := by decide
  buf_pos := by decide
  aligned := by decide
  snip_fits := by decide
  buf_fits := by decide

/-- A snip with four bytes in it. -/
def onePacket : Buf := ⟨[⟨32, 32⟩], fun x => UInt8.ofNat x, fun _ => ⟨none, some 24, 4, 0, 1⟩⟩

/-- The cells of the snip and of the section behind it. -/
def onePacketRoom (x : Nat) : Prop := Covers onePacket.unused x ∨ Covers (areas small onePacket [0]) x

theorem onePacket_sound : Sound small onePacketRoom onePacket [0] := by
  have hareas : areas small onePacket [0] = [⟨0, 24⟩, ⟨24, 8⟩] := by decide
  have hplaced : ∀ s ∈ [(⟨32, 32⟩ : Area), ⟨0, 24⟩, ⟨24, 8⟩], Placed small s := by
    intro s hs
    have hall : ∀ s ∈ [(⟨32, 32⟩ : Area), ⟨0, 24⟩, ⟨24, 8⟩], 8 ∣ s.addr ∧ 8 ∣ s.size ∧ 0 < s.size ∧
      s.addr + s.size ≤ 64 := by decide
    exact ⟨(hall s hs).1, (hall s hs).2.1, (hall s hs).2.2.1, (hall s hs).2.2.2⟩
  refine ⟨⟨⟨⟨by decide, by decide⟩, fun s hs => ?_⟩, fun s hs => ?_, ?_, fun s hs x hx hc => ?_, fun x => Iff.rfl⟩, fun p _ => ?_⟩
  · exact hplaced s (mem_of_mem_head? (by rw [mem_singleton.mp hs]; rfl))
  · exact hplaced s (mem_cons_of_mem _ hs)
  · rw [hareas]
    exact pairwise_cons.mpr ⟨fun t ht => .inl (by rw [mem_singleton.mp ht]; decide), pairwise_singleton _ _⟩
  · have hend : ∀ s ∈ [(⟨0, 24⟩ : Area), ⟨24, 8⟩], s.addr + s.size ≤ 32 := by decide
    have hle := hend s hs
    obtain ⟨t, ht, hge, -⟩ := hc
    rw [mem_singleton.mp ht] at hge
    have hlt := hx.2
    dsimp only at hge
    omega
  · change SnipOk small ⟨none, some 24, 4, 0, 1⟩
    exact ⟨⟨fun h => (nomatch h), fun h => absurd h (by decide)⟩, by decide, by decide⟩

/-- Ten bytes for the four. -/
theorem contents_right_iff_onePacket : ContentsRight small onePacketRoom onePacket 0 [] [] 10 :=
  (@contents_right_iff small onePacket onePacketRoom [] [] 0 10 onePacket_sound ⟨rfl, rfl⟩ nofun
    (by decide)).mpr
    ⟨.inr (.inl (by unfold Config.Fits; decide)), .inl rfl⟩

/-- The greatest size there is. -/
theorem not_contents_right : ¬ ContentsRight small onePacketRoom onePacket 0 [] [] (2 ^ 32 - 1) := fun h =>
  not_realloc_right onePacket_sound (by decide) (by decide) (by unfold Config.Fits; decide) (List.cons_ne_nil _ _)
    h.realloc

end Riot.Pktbuf
