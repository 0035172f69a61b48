import Mathlib.Logic.Function.Basic

/-!
# Key slots (`sys/psa_crypto/psa_key_slot_mgmt/psa_crypto_slot_management.c`)

There is an array of slots for single keys, one for key pairs and one for protected keys, each with a
list of those that are empty, and one list of all used slots. Which array a slot belongs to is not
kept: it is recomputed from the attributes of its key. A node that is `NULL`, and a slot that is wiped
beyond its end, have no result.
-/

namespace Riot.Psa

open Function

/-- The three arrays of slots. -/
inductive SlotKind where
  | single
  | keyPair
  | prot
deriving DecidableEq

/-- A slot: the array it is in, and where. -/
structure SlotRef where
  kind : SlotKind
  index : Nat
deriving DecidableEq

/-- `psa_key_attributes_t`, as far as the slots depend on it -/
structure KeyAttributes where
  type : UInt16
  lifetime : UInt32
  id : Nat
deriving DecidableEq

/-- `psa_key_slot_t`, `psa_key_pair_slot_t` or `psa_prot_key_slot_t`: `data` are the bytes of `key`. -/
structure KeySlot where
  lockCount : Nat
  attr : KeyAttributes
  data : List UInt8
deriving DecidableEq

structure Config where
  /-- `PSA_SINGLE_KEY_COUNT`, `PSA_ASYMMETRIC_KEYPAIR_COUNT`, `PSA_PROTECTED_KEY_COUNT` -/
  count : SlotKind → Nat
  /-- the sizes of `key` -/
  dataSize : SlotKind → Nat
  /-- `IS_USED(MODULE_PSA_PERSISTENT_STORAGE)` -/
  persistent : Bool
  /-- `SIZE_MAX` -/
  sizeMax : Nat
  sizeMax_pos : 0 < sizeMax

structure State where
  slots : SlotRef → KeySlot
  /-- `key_slot_list` -/
  used : List SlotRef
  /-- `single_key_list_empty`, `key_pair_list_empty`, `protected_list_empty` -/
  empty : SlotKind → List SlotRef
  /-- `key_id_count` -/
  keyIdCount : Nat

/-- `psa_status_t` -/
inductive Status where
  | success
  | doesNotExist
  | insufficientStorage
  | invalidArgument
  | corruptionDetected
  /-- what reading from a file and decoding return -/
  | storageFailure
deriving DecidableEq

def keyIdVolatileMin : Nat := 0x40000000

def keyIdVolatileMax : Nat := 0x7fffffff

def keyIdIsVolatile (id : Nat) : Bool := keyIdVolatileMin ≤ id && id ≤ keyIdVolatileMax

def lifetimeIsVolatile (lifetime : UInt32) : Bool := lifetime &&& 0xff == 0

def lifetimeIsExternal (lifetime : UInt32) : Bool := lifetime >>> 8 != 0

def typeIsKeyPair (type : UInt16) : Bool := type &&& 0x7000 == 0x7000

def zeroAttributes : KeyAttributes := ⟨0, 0, 0⟩

variable (cfg : Config)

/-- A slot of zeros. -/
def zeroSlot (kind : SlotKind) : KeySlot := ⟨0, zeroAttributes, List.replicate (cfg.dataSize kind) 0⟩

/-- `psa_init_key_slots` -/
def init : State where
  slots ref := zeroSlot cfg ref.kind
  used := []
  empty kind := (List.range (cfg.count kind)).map fun i => ⟨kind, i⟩
  keyIdCount := keyIdVolatileMin

def getEmptyKeySlotList (attr : KeyAttributes) : Option SlotKind :=
  if !lifetimeIsExternal attr.lifetime && cfg.count .keyPair ≠ 0 && typeIsKeyPair attr.type then some .keyPair
  else if !lifetimeIsExternal attr.lifetime && cfg.count .single ≠ 0 then some .single
  else if cfg.count .prot ≠ 0 then some .prot
  else none

/-- How much of `key` the structure has that `psa_wipe_real_slot_type` takes the slot for; `none` where
its branch is not compiled. -/
def wipedSize (attr : KeyAttributes) : Option Nat :=
  if !lifetimeIsExternal attr.lifetime then
    if !typeIsKeyPair attr.type then some (if cfg.count .single ≠ 0 then cfg.dataSize .single else 0)
    else if cfg.count .keyPair ≠ 0 then some (cfg.dataSize .keyPair)
    else none
  else if cfg.count .prot ≠ 0 then some (cfg.dataSize .prot)
  else none

def wipeRealSlotType (slot : KeySlot) : Option KeySlot :=
  match wipedSize cfg slot.attr with
  | none => some slot
  | some n =>
    if n ≤ slot.data.length then some ⟨0, zeroAttributes, List.replicate n 0 ++ slot.data.drop n⟩ else none

def wipeKeySlot (s : State) (ref : SlotRef) : Option (Status × State) :=
  match getEmptyKeySlotList cfg (s.slots ref).attr with
  | none => some (.doesNotExist, s)
  | some kind =>
    if ref ∈ s.used then
      (wipeRealSlotType cfg (s.slots ref)).map fun slot => (.success, { s with
        slots := update s.slots ref slot
        used := s.used.erase ref
        empty := update s.empty kind (s.empty kind ++ [ref]) })
    else some (.doesNotExist, s)

/-- The loop of `psa_wipe_all_key_slots`, over the used slots from the last on. -/
def wipeAllLoop : List SlotRef → State → Option State
  | [], s => some s
  | ref :: rest, s =>
    (getEmptyKeySlotList cfg (s.slots ref).attr).bind fun kind =>
    (wipeRealSlotType cfg (s.slots ref)).bind fun slot =>
    wipeAllLoop rest { s with
      slots := update s.slots ref slot
      used := s.used.dropLast
      empty := update s.empty kind (s.empty kind ++ [ref]) }

def wipeAllKeySlots (s : State) : Option State := wipeAllLoop cfg s.used.reverse s

def lockKeySlot (s : State) (ref : SlotRef) : Status × State :=
  if (s.slots ref).lockCount ≥ cfg.sizeMax then (.corruptionDetected, s)
  else (.success, { s with
    slots := update s.slots ref { s.slots ref with lockCount := (s.slots ref).lockCount + 1 } })

def unlockKeySlot (s : State) (ref : SlotRef) : Status × State :=
  if (s.slots ref).lockCount > 0 then
    (.success, { s with
      slots := update s.slots ref { s.slots ref with lockCount := (s.slots ref).lockCount - 1 } })
  else (.corruptionDetected, s)

/-- The slot that makes room: the first with a persistent key. -/
def victim (s : State) : Option SlotRef := s.used.find? fun ref => !lifetimeIsVolatile (s.slots ref).attr.lifetime

/-- `psa_find_and_wipe_persistent_key_from_local_storage` -/
def findAndWipePersistentKey (s : State) : Option (Status × State) :=
  match victim s with
  | none => some (.insufficientStorage, s)
  | some ref => wipeKeySlot cfg s ref

def allocateKeySlotInList (s : State) (attr : KeyAttributes) : Option (Except Status SlotRef × State) :=
  match getEmptyKeySlotList cfg attr with
  | none => some (.error .doesNotExist, s)
  | some kind =>
    (if s.empty kind = [] then
      if cfg.persistent then findAndWipePersistentKey cfg s else some (.insufficientStorage, s)
    else some (.success, s)).bind fun (status, s) =>
    if status ≠ .success then some (.error status, s)
    else
      match (s.empty kind).getLast? with
      | none => none
      | some ref => some (.ok ref, { s with
          used := s.used ++ [ref]
          empty := update s.empty kind (s.empty kind).dropLast })

/-- `psa_allocate_empty_key_slot`: the slot and the id. -/
def allocateEmptyKeySlot (s : State) (attr : KeyAttributes) : Option (Except Status (SlotRef × Nat) × State) :=
  if lifetimeIsVolatile attr.lifetime ∧ s.keyIdCount = keyIdVolatileMax then some (.error .insufficientStorage, s)
  else
    (allocateKeySlotInList cfg s attr).map fun
    | (.error status, s) => (.error status, s)
    | (.ok ref, s) =>
      match lockKeySlot cfg s ref with
      | (.success, s) =>
        if lifetimeIsVolatile attr.lifetime then (.ok (ref, s.keyIdCount), { s with keyIdCount := s.keyIdCount + 1 })
        else if cfg.persistent && !keyIdIsVolatile attr.id then (.ok (ref, attr.id), s)
        else (.error .invalidArgument, s)
      | (status, s) => (.error status, s)

/-- What callers do with the slot they get: `slot->attr` becomes the attributes of the key. -/
def setAttributes (s : State) (ref : SlotRef) (attr : KeyAttributes) : State :=
  { s with slots := update s.slots ref { s.slots ref with attr := attr } }

def setData (s : State) (ref : SlotRef) (data : List UInt8) : State :=
  { s with slots := update s.slots ref { s.slots ref with data := data } }

/-- `psa_allocate_empty_key_slot` in `psa_start_key_creation`, and the attributes that are set then. -/
def startKeyCreation (s : State) (attr : KeyAttributes) : Option (Status × State) :=
  (allocateEmptyKeySlot cfg s attr).map fun
  | (.error status, s) => (status, s)
  | (.ok (ref, id), s) => (.success, setAttributes s ref { attr with id := id })

/-- What is found in the file of a key: nothing, no attributes, or attributes with the data that
`psa_decode_key_slot_data` puts in the slot and whether it succeeds. -/
inductive Stored where
  | unread
  | undecoded
  | key (attr : KeyAttributes) (data : List UInt8) (decoded : Bool)
deriving DecidableEq

/-- `psa_get_persisted_key_slot_from_storage` -/
def getPersistedKeySlot (s : State) (file : Stored) : Option (Status × State) :=
  match file with
  | .unread => some (.storageFailure, s)
  | .undecoded => some (.storageFailure, s)
  | .key attr data decoded =>
    (allocateEmptyKeySlot cfg s attr).map fun
    | (.error status, s) => (status, s)
    | (.ok (ref, id), s) =>
      (if decoded then .success else .storageFailure, setData (setAttributes s ref { attr with id := id }) ref data)

def getAndLockKeySlot (s : State) (id : Nat) (file : Stored) : Option (Status × State) :=
  match s.used.find? fun ref => (s.slots ref).attr.id = id with
  | some ref => some (lockKeySlot cfg s ref)
  | none =>
    if cfg.persistent && !keyIdIsVolatile id then getPersistedKeySlot cfg s file else some (.doesNotExist, s)

/-- What is done to the slots. `setData` is the creation of a key, which puts its data in the slot. -/
inductive Event where
  | allocate (attr : KeyAttributes)
  | lookup (id : Nat) (file : Stored)
  | lock (ref : SlotRef)
  | unlock (ref : SlotRef)
  | setData (ref : SlotRef) (data : List UInt8)
  | wipe (ref : SlotRef)
  | wipeAll
deriving DecidableEq

/-- An event, and what it returns. -/
def call (s : State) : Event → Option (Status × State)
  | .allocate attr => startKeyCreation cfg s attr
  | .lookup id file => getAndLockKeySlot cfg s id file
  | .lock ref => some (lockKeySlot cfg s ref)
  | .unlock ref => some (unlockKeySlot s ref)
  | .setData ref data => some (.success, setData s ref data)
  | .wipe ref => wipeKeySlot cfg s ref
  | .wipeAll => (wipeAllKeySlots cfg s).map fun s => (.success, s)

def step (s : State) (e : Event) : Option State := (call cfg s e).map Prod.snd

end Riot.Psa
