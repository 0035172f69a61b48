import Riot.Core.Msg

/-!
# Message queues

What a section does to the queues: a message that fits goes to the end, a receiver
takes the first one, and the place it frees may take the message of a waiting sender.
-/

namespace Riot.Core

open Function

variable {n : Nat}

/-- The messages in a thread's queue. -/
def queueItems (k : Kernel n) (t : Fin n) : List Msg :=
  match k.msgArray t with
  | some msgArray => cibItems (k.msgQueue t) msgArray
  | none => []

/-- A thread without a message queue, or with one freshly initialised; its size is an `int`. -/
def QueueFresh (k : Kernel n) (t : Fin n) : Prop :=
  k.msgArray t = none ∧ k.msgQueue t = cibInit 0 ∨
    (k.msgArray t).isSome ∧ ∃ j ≤ 30, k.msgQueue t = cibInit (BitVec.ofNat 32 (2 ^ j))

variable {k k' : Kernel n} {W W' : WaitList n → List (Fin n)} {me : Option (Fin n)} {t : Fin n}
  {pid : Nat} {msg : Msg} {out : MsgOut n}

theorem QueueFresh.queueOk (h : QueueFresh k t) : QueueOk k t := by
  unfold QueueOk
  rcases h with ⟨harr, hqueue⟩ | ⟨harr, j, hj, hqueue⟩
  · rw [harr, hqueue]
    rfl
  · rw [harr, if_pos rfl, hqueue]
    have havail : cibAvail (cibInit (BitVec.ofNat 32 (2 ^ j))) = 0 := by simp [cibAvail, cibInit]
    refine ⟨j, hj, cibInit_sized (by omega), ?_⟩
    rw [havail]
    exact Nat.zero_le _

theorem QueueOk.queued {i : Nat} {cib : Cib} (hq : QueueOk k t)
    (hput : cibPut (k.msgQueue t) = (some i, cib)) (hqueue : k'.msgQueue t = cib)
    (harray : k'.msgArray t = (k.msgArray t).map fun a => update a i msg) :
    QueueOk k' t ∧ queueItems k' t = queueItems k t ++ [msg] := by
  unfold QueueOk queueItems at *
  rw [harray, hqueue]
  cases harr : k.msgArray t with
  | none =>
    rw [harr] at hq
    rw [show k.msgQueue t = cibInit 0 from by simpa using hq, cibPut_eq, cibFull_init] at hput
    exact absurd hput (by simp)
  | some msgArray =>
    rw [harr, Option.isSome_some, if_pos rfl] at hq
    obtain ⟨j, hj, hsized, hle⟩ := hq
    rw [cibPut_eq] at hput
    split at hput
    · exact absurd hput (by simp)
    · rename_i hfull
      obtain ⟨rfl, rfl⟩ := hput
      rw [cibFull_iff hsized hj hle] at hfull
      have hroom : (cibAvail (k.msgQueue t)).toNat < 2 ^ j := by omega
      have hlt := hsized.lt
      refine ⟨?_, cibItems_put hsized hroom msg⟩
      exact ⟨j, hj, hsized, by rw [cibAvail_put (by omega)]; omega⟩

theorem QueueOk.taken {msgArray : Nat → Msg} (hq : QueueOk k t)
    (harr : k.msgArray t = some msgArray) (havail : cibAvail (k.msgQueue t) ≠ 0)
    (hqueue : k'.msgQueue t = (cibGetUnsafe (k.msgQueue t)).2)
    (harray : k'.msgArray t = some msgArray) :
    QueueOk k' t ∧ queueItems k t = msgArray (cibGetUnsafe (k.msgQueue t)).1 :: queueItems k' t := by
  unfold QueueOk queueItems at *
  rw [harr, Option.isSome_some, if_pos rfl] at hq
  obtain ⟨j, hj, hsized, hle⟩ := hq
  have hget := cibAvail_get havail
  rw [harray, hqueue, harr]
  refine ⟨?_, cibItems_get hsized havail⟩
  exact ⟨j, hj, hsized, by omega⟩

theorem QueueOk.refilled {msgArray : Nat → Msg} (hq : QueueOk k t)
    (harr : k.msgArray t = some msgArray) (havail : cibAvail (k.msgQueue t) ≠ 0)
    (hqueue : k'.msgQueue t = (cibPutUnsafe (cibGetUnsafe (k.msgQueue t)).2).2)
    (harray : k'.msgArray t = some (update msgArray (cibPutUnsafe (cibGetUnsafe (k.msgQueue t)).2).1 msg)) :
    QueueOk k' t ∧ queueItems k t ++ [msg] = msgArray (cibGetUnsafe (k.msgQueue t)).1 :: queueItems k' t := by
  -- the state between the read and the write
  let k1 : Kernel n :=
    { k with msgQueue := update k.msgQueue t (cibGetUnsafe (k.msgQueue t)).2 }
  have hqueue1 : k1.msgQueue t = (cibGetUnsafe (k.msgQueue t)).2 := update_self ..
  have htaken : QueueOk k1 t ∧ queueItems k t = msgArray (cibGetUnsafe (k.msgQueue t)).1 :: queueItems k1 t :=
    hq.taken harr havail hqueue1 harr
  have hput : cibPut (k1.msgQueue t) = (some (cibPutUnsafe (cibGetUnsafe (k.msgQueue t)).2).1,
      (cibPutUnsafe (cibGetUnsafe (k.msgQueue t)).2).2) := by
    rw [hqueue1]
    exact hq.put harr havail
  have hqueued : QueueOk k' t ∧ queueItems k' t = queueItems k1 t ++ [msg] := htaken.1.queued hput hqueue
      (by rw [harray, show k1.msgArray t = some msgArray from harr, Option.map_some])
  exact ⟨hqueued.1, by rw [hqueued.2, htaken.2, List.cons_append]⟩

theorem QueueOk.congr (hq : QueueOk k t) (hqueue : k'.msgQueue t = k.msgQueue t)
    (harray : k'.msgArray t = k.msgArray t) : QueueOk k' t := by
  unfold QueueOk at *
  rw [hqueue, harray]
  exact hq

theorem queueItems_congr (hqueue : k'.msgQueue t = k.msgQueue t)
    (harray : k'.msgArray t = k.msgArray t) : queueItems k' t = queueItems k t := by
  unfold queueItems
  rw [hqueue, harray]

theorem queueItems_empty (hq : (k.msgArray t).isSome → cibAvail (k.msgQueue t) = 0) :
    queueItems k t = [] := by
  unfold queueItems
  cases harr : k.msgArray t with
  | none => rfl
  | some msgArray => exact cibItems_eq_nil.mpr (hq (by rw [harr]; rfl))

theorem QueueOk.full (hq : QueueOk k t) (hput : (cibPut (k.msgQueue t)).1 = none)
    (harr : (k.msgArray t).isSome) : queueItems k t ≠ [] := by
  unfold QueueOk queueItems at *
  rw [if_pos harr] at hq
  obtain ⟨j, hj, hsized, hle⟩ := hq
  obtain ⟨msgArray, harr⟩ := Option.isSome_iff_exists.mp harr
  have hfull : cibFull (k.msgQueue t) = true := by
    rw [cibPut_eq] at hput
    split at hput
    · assumption
    · exact absurd hput (by simp)
  rw [cibFull_iff hsized hj hle] at hfull
  rw [harr, ne_eq, cibItems_eq_nil]
  intro havail
  rw [havail] at hfull
  have := Nat.two_pow_pos j
  simp only [BitVec.ofNat_eq_ofNat, BitVec.toNat_ofNat] at hfull
  omega

/-- **A move keeps the queues usable.** -/
theorem MsgMove.queueOk (hm : MsgMove k W me pid out k' W') (hq : ∀ t, QueueOk k t) (t : Fin n) :
    QueueOk k' t := by
  cases hm with
  | failed => exact hq t
  | direct => exact (hq t).congr rfl rfl
  | @queued u msg i cib hst hpid hput =>
    by_cases htu : t = u
    · subst htu
      exact ((hq t).queued hput (update_self ..) (update_self ..)).1
    · exact (hq t).congr (update_of_ne htu ..) (update_of_ne htu ..)
  | sending => exact (hq t).congr rfl rfl
  | sent => exact (hq t).congr rfl rfl
  | answered => exact (hq t).congr rfl rfl
  | delivered => exact (hq t).congr rfl rfl
  | receiving => exact (hq t).congr rfl rfl
  | @taken u msgArray hme hidle harr havail hw =>
    by_cases htu : t = u
    · subst htu
      exact And.left ((hq t).taken harr havail (update_self ..) harr)
    · exact (hq t).congr (update_of_ne htu ..) rfl
  | @refilled u sender ts msgArray s hme hidle harr havail hw hs =>
    by_cases htu : t = u
    · subst htu
      exact ((hq t).refilled harr havail (update_self ..) (update_self ..)).1
    · exact (hq t).congr (update_of_ne htu ..) (update_of_ne htu ..)
  | copied => exact (hq t).congr rfl rfl

end Riot.Core
