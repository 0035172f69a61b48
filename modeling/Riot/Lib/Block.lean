import Riot.Lib.BigEndian

/-!
# Blocks of bytes

Blocks of a fixed number of bytes, as block ciphers work on them: exclusive or, padding with
zeros, and the chaining and counter modes of a function on blocks.
-/

namespace Riot.Lib

/-- A block of `k` bytes. -/
abbrev Block (k : Nat) := Vector UInt8 k

open List Nat

namespace Block

variable {k n : Nat} {a b c : Block k} {bs cs : List UInt8}

def zero (k : Nat) : Block k := .replicate k 0

/-- The first `k` bytes, padded with zeros. -/
def ofList (k : Nat) (bs : List UInt8) : Block k := .ofFn fun i => bs[i.val]?.getD 0

def xor (a b : Block k) : Block k := .ofFn fun i => a[i] ^^^ b[i]

/-- The block with `bs` in it from `pos` on. -/
def copy (b : Block k) (pos : Nat) (bs : List UInt8) : Block k :=
  .ofFn fun i => if pos ≤ i then bs[i - pos]?.getD b[i] else b[i]

variable {i : Nat}

@[simp] theorem getElem_zero (h : i < k) : (zero k)[i] = 0 := Vector.getElem_replicate h

@[simp] theorem getElem_ofList (h : i < k) : (ofList k bs)[i] = bs[i]?.getD 0 := Vector.getElem_ofFn h

@[simp] theorem getElem_xor (h : i < k) : (xor a b)[i] = a[i] ^^^ b[i] := Vector.getElem_ofFn h

@[simp] theorem getElem_copy {pos : Nat} (h : i < k) :
    (copy b pos bs)[i] = if pos ≤ i then bs[i - pos]?.getD b[i] else b[i] := Vector.getElem_ofFn h

theorem xor_comm : xor a b = xor b a := by
  ext i hi
  rw [getElem_xor, getElem_xor, UInt8.xor_comm]

theorem xor_assoc : xor (xor a b) c = xor a (xor b c) := by
  ext i hi
  rw [getElem_xor, getElem_xor, getElem_xor, getElem_xor, UInt8.xor_assoc]

@[simp] theorem xor_zero : xor a (zero k) = a := by
  ext i hi
  rw [getElem_xor, getElem_zero, UInt8.xor_zero]

@[simp] theorem zero_xor : xor (zero k) a = a := by
  rw [xor_comm, xor_zero]

@[simp] theorem xor_self : xor a a = zero k := by
  ext i hi
  rw [getElem_xor, getElem_zero, UInt8.xor_self]

theorem xor_xor_cancel : xor (xor a b) b = a := by
  rw [xor_assoc, xor_self, xor_zero]

theorem ofList_toList : ofList k b.toList = b := by
  ext i hi
  rw [getElem_ofList, getElem?_eq_getElem (by rw [Vector.length_toList]; exact hi), Option.getD_some,
    Vector.getElem_toList]

theorem toList_ofList (h : bs.length = k) : (ofList k bs).toList = bs := by
  apply ext_getElem
  · rw [Vector.length_toList, h]
  · intro i hi hi'
    rw [Vector.getElem_toList, getElem_ofList, getElem?_eq_getElem hi', Option.getD_some]

theorem ofList_take (h : k ≤ n) : ofList k (bs.take n) = ofList k bs := by
  ext i hi
  rw [getElem_ofList, getElem_ofList, getElem?_take_of_lt (by omega)]

theorem ofList_append_zeros : ofList k (bs ++ replicate n 0) = ofList k bs := by
  ext i hi
  rw [getElem_ofList, getElem_ofList]
  by_cases hlt : i < bs.length
  · rw [getElem?_append_left hlt]
  · rw [getElem?_append_right (by omega), getElem?_eq_none (l := bs) (by omega), getElem?_replicate]
    split <;> rfl

theorem ofList_append : ofList k (b.toList ++ bs) = b := by
  ext i hi
  rw [getElem_ofList, getElem?_append_left (by rw [Vector.length_toList]; exact hi),
    getElem?_eq_getElem (by rw [Vector.length_toList]; exact hi), Vector.getElem_toList]
  rfl

theorem copy_zero : copy (zero k) 0 bs = ofList k bs := by
  ext i hi
  rw [getElem_copy, getElem_ofList, if_pos (zero_le _), getElem_zero]
  rfl

theorem copy_ofList : copy (ofList k bs) bs.length cs = ofList k (bs ++ cs) := by
  ext i hi
  rw [getElem_copy, getElem_ofList, getElem_ofList]
  split
  next hle =>
    rw [getElem?_append_right hle, getElem?_eq_none hle, Option.getD_none]
  next hlt => rw [getElem?_append_left (by omega)]

theorem copy_middle {x y : UInt8} :
    copy (ofList k (bs ++ x :: cs)) bs.length [y] = ofList k (bs ++ y :: cs) := by
  ext i hi
  rw [getElem_copy, getElem_ofList, getElem_ofList]
  split
  next hle =>
    obtain ⟨j, rfl⟩ := Nat.exists_eq_add_of_le hle
    rw [Nat.add_sub_cancel_left, getElem?_append_right hle, getElem?_append_right hle,
      Nat.add_sub_cancel_left]
    cases j with
    | zero => rfl
    | succ j => rfl
  next hlt => rw [getElem?_append_left (by omega), getElem?_append_left (by omega)]

end Block

/-! ## Bytes in blocks -/

/-- Exclusive or, as far as both go. -/
def xorBytes (bs cs : List UInt8) : List UInt8 := bs.zipWith (· ^^^ ·) cs

variable {k : Nat} {bs cs ds : List UInt8}

theorem length_xorBytes (h : bs.length ≤ cs.length) : (xorBytes bs cs).length = bs.length := by
  rw [xorBytes, length_zipWith, Nat.min_eq_left h]

theorem xorBytes_cancel (h : bs.length ≤ cs.length) : xorBytes (xorBytes bs cs) cs = bs := by
  unfold xorBytes
  apply ext_getElem
  · rw [length_zipWith, length_zipWith]
    omega
  · intro i hi hi'
    rw [getElem_zipWith, getElem_zipWith, UInt8.xor_assoc, UInt8.xor_self, UInt8.xor_zero]

theorem xorBytes_zero (h : bs.length ≤ k) : xorBytes (Block.zero k).toList bs = bs := by
  unfold xorBytes
  apply ext_getElem
  · rw [length_zipWith, Vector.length_toList, Nat.min_eq_right h]
  · intro i h1 h2
    rw [getElem_zipWith, Vector.getElem_toList, Block.getElem_zero, UInt8.zero_xor]

theorem xorBytes_append (h : bs.length = cs.length) {bs' cs' : List UInt8} :
    xorBytes (bs ++ bs') (cs ++ cs') = xorBytes bs cs ++ xorBytes bs' cs' := by
  exact zipWith_append h

theorem xorBytes_take : xorBytes bs (cs.take bs.length) = xorBytes bs cs := by
  induction bs generalizing cs with
  | nil => rfl
  | cons b bs ih =>
    cases cs with
    | nil => rfl
    | cons c cs => exact congrArg (cons (b ^^^ c)) ih

/-- The number of blocks of `k` bytes that `n` bytes take. -/
def blockCount (k n : Nat) : Nat := (n + (k - 1)) / k

/-- The bytes in blocks, the last padded with zeros. -/
def blocks (k : Nat) (bs : List UInt8) : List (Block k) :=
  (List.range (blockCount k bs.length)).map fun i => Block.ofList k (bs.drop (i * k))

theorem blockCount_zero (hk : 0 < k) : blockCount k 0 = 0 := div_eq_of_lt (by omega)

variable {n start : Nat} {s : Nat → Block k}

theorem blockCount_of_pos (hk : 0 < k) (hn : 0 < n) : blockCount k n = blockCount k (n - k) + 1 := by
  unfold blockCount
  by_cases h : k ≤ n
  · have : n + (k - 1) = n - k + (k - 1) + k := by omega
    rw [this, add_div_right _ hk]
  · have h1 : n - k + (k - 1) < k := by omega
    have h2 : n + (k - 1) = n - 1 + k := by omega
    rw [div_eq_of_lt h1, h2, add_div_right _ hk, div_eq_of_lt (by omega)]

theorem blocks_nil (hk : 0 < k) : blocks k [] = [] := by
  rw [blocks, length_nil, blockCount_zero hk]
  rfl

theorem blocks_of_ne (hk : 0 < k) (h : bs ≠ []) : blocks k bs = Block.ofList k bs :: blocks k (bs.drop k) := by
  unfold blocks
  rw [blockCount_of_pos hk (length_pos_of_ne_nil h), range_succ_eq_map, map_cons, map_map,
    Nat.zero_mul, drop_zero, length_drop]
  congr 1
  apply map_congr_left
  intro i _
  rw [Function.comp, drop_drop, Nat.succ_mul, Nat.add_comm]

/-! ## Modes -/

/-- Cipher block chaining: what is left of `x` and the blocks. -/
def chain (f : Block k → Block k) (x : Block k) (bs : List (Block k)) : Block k :=
  bs.foldl (fun x b => f (x.xor b)) x

theorem chain_append {f : Block k → Block k} {x : Block k} {xs ys : List (Block k)} :
    chain f (chain f x xs) ys = chain f x (xs ++ ys) := foldl_append.symm

/-- The first `n` blocks of a key stream, from the number `from` on. -/
def keyStream (s : Nat → Block k) (start n : Nat) : List UInt8 :=
  (List.range n).flatMap fun i => (s (start + i)).toList

theorem keyStream_succ : keyStream s start (n + 1) = (s start).toList ++ keyStream s (start + 1) n := by
  unfold keyStream
  rw [range_succ_eq_map, flatMap_cons, flatMap_map]
  congr 1
  apply flatMap_congr
  intro i _
  rw [succ_eq_add_one, add_assoc, add_comm 1 i]

theorem length_keyStream : (keyStream s start n).length = n * k := by
  induction n generalizing start with
  | zero => rw [Nat.zero_mul]; rfl
  | succ n ih => rw [keyStream_succ, length_append, Vector.length_toList, ih, succ_mul, add_comm]

theorem keyStream_congr {t : Nat → Block k} (h : ∀ i, start ≤ i → i < start + n → s i = t i) :
    keyStream s start n = keyStream t start n := by
  refine flatMap_congr fun i hi => ?_
  rw [h (start + i) (le_add_right _ _) (Nat.add_lt_add_left (mem_range.mp hi) _)]

theorem drop_keyStream : ∀ {j n start : Nat}, j ≤ n →
    (keyStream s start n ++ bs).drop (k * j) = keyStream s (start + j) (n - j) ++ bs := by
  intro j
  induction j with
  | zero => exact fun _ => rfl
  | succ j ih =>
    intro n start hle
    obtain ⟨n, rfl⟩ := exists_eq_succ_of_ne_zero (show n ≠ 0 by omega)
    have hfirst : k = (s start).toList.length := Vector.length_toList.symm
    rw [keyStream_succ, mul_succ, add_comm (k * j), ← drop_drop, append_assoc, drop_left' hfirst.symm,
      ih (le_of_succ_le_succ hle), succ_sub_succ, add_assoc, add_comm 1 j]

end Riot.Lib
