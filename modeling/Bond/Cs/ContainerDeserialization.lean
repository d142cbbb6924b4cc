import Bond.Lib.Growth
import Bond.Cs.VarintPaths

set_option autoImplicit false

/-! # Deserializing containers in C#

`DeserializerTransform.Container` and `ApplyCountCap`
(cs/src/core/expressions/DeserializerTransform.cs): how the elements of a list, of an array or of a
blob get from the parser into a field. The containers of a custom factory are left out. -/

namespace Bond.Cs

open Growth

/-! ## Arrays -/

/-- What ends a deserialization. -/
inductive Thrown (ε : Type) where
  | parser (e : ε)
  | nullReference
  | argument
  | overflow
  | indexOutOfRange
  | outOfMemory
deriving DecidableEq, Repr

/-- How long arrays may get, which is up to the runtime and to the type of the elements. -/
structure ArrayLimit where
  maxLength : Nat
  maxLength_lt : maxLength < 2 ^ 31

/-- `T[]` -/
structure ManagedArray (limit : ArrayLimit) (α : Type) where
  items : List α
  length_le : items.length ≤ limit.maxLength

variable {ε α : Type} {limit : ArrayLimit}

namespace ManagedArray

def length (array : ManagedArray limit α) : Nat :=
  array.items.length

/-- `new T[length]` -/
def new [Inhabited α] (length : Int32) : Except (Thrown ε) (ManagedArray limit α) :=
  if length < 0 then
    .error .overflow
  else if h : length.toInt.toNat ≤ limit.maxLength then
    .ok ⟨List.replicate length.toInt.toNat default, by rwa [List.length_replicate]⟩
  else
    .error .outOfMemory

/-- `Array.Resize` -/
def resize [Inhabited α] (array : ManagedArray limit α) (newSize : Int32) :
    Except (Thrown ε) (ManagedArray limit α) :=
  if newSize < 0 then
    .error .argument
  else if h : newSize.toInt.toNat ≤ limit.maxLength then
    .ok ⟨(array.items.take newSize.toInt.toNat).rightpad newSize.toInt.toNat default, by
      rwa [List.length_rightpad, List.length_take, Nat.max_eq_left (Nat.min_le_left _ _)]⟩
  else
    .error .outOfMemory

/-- `array[i] = value` -/
def store (array : ManagedArray limit α) (i : Nat) (value : α) :
    Except (Thrown ε) (ManagedArray limit α) :=
  if i < array.length then
    .ok ⟨array.items.set i value, by rw [List.length_set]; exact array.length_le⟩
  else
    .error .indexOutOfRange

end ManagedArray

/-! ## Collections -/

/-- A class that implements `ICollection`: whether it has a constructor for a capacity and a
    property `Capacity`, and how many elements it may hold. Their number is an `int`. -/
structure CollectionType where
  countConstructor : Bool
  capacity : Bool
  maxCount : Nat
  maxCount_lt : maxCount < 2 ^ 31

/-- An `ICollection` that keeps the elements in the order in which they are added. -/
structure Collection (type : CollectionType) (α : Type) where
  items : List α
  length_le : items.length ≤ type.maxCount

namespace Collection

variable {type : CollectionType}

def empty : Collection type α :=
  ⟨[], Nat.zero_le _⟩

/-- `Add` -/
def add (container : Collection type α) (value : α) : Except (Thrown ε) (Collection type α) :=
  if h : container.items.length < type.maxCount then
    .ok ⟨container.items ++ [value], by rw [List.length_append]; exact h⟩
  else
    .error .outOfMemory

end Collection

/-! ## What the parser gives -/

/-- What `next` and the reads of the elements come to, one after the other. -/
inductive Elements (ε α : Type) where
  | done
  | nextThrows (e : ε)
  | itemThrows (e : ε)
  | item (value : α) (rest : Elements ε α)

namespace Elements

/-- The elements, unless reading them throws. -/
def all : Elements ε α → Except ε (List α)
  | done => .ok []
  | nextThrows e => .error e
  | itemThrows e => .error e
  | item value rest => (value :: ·) <$> rest.all

/-- `count--` times an element. -/
def ofCount {σ : Type} (read : σ → Except ε (α × σ)) : Nat → σ → Elements ε α
  | 0, _ => done
  | count + 1, s =>
      match read s with
      | .error e => itemThrows e
      | .ok (value, s) => item value (ofCount read count s)

theorem length_ofCount {σ : Type} {read : σ → Except ε (α × σ)} {count : Nat} {s : σ} {xs : List α}
    (h : (ofCount read count s).all = .ok xs) : xs.length = count := by
  induction count generalizing s xs with
  | zero =>
      cases h
      rfl
  | succ count ih =>
      rw [ofCount] at h
      split at h
      · cases h
      · next value s' _ =>
          cases hrest : (ofCount read count s').all with
          | error e => rw [all, hrest] at h; cases h
          | ok rest =>
              rw [all, hrest] at h
              cases h
              rw [List.length_cons, ih hrest]

end Elements

/-- `r` gives the elements, and throws if reading them does. -/
def GivesAll {δ β : Type} (elements : Elements ε α) (f : List α → β) (r : Except δ β) : Prop :=
  match elements.all with
  | .ok xs => r = .ok (f xs)
  | .error _ => ∃ e, r = .error e

/-- A container in a payload. -/
structure Payload (ε α : Type) where
  /-- The count in front of the elements, which text protocols do not have. -/
  declared : Option UInt32
  /-- The elements, as many as are declared. -/
  elements : Elements ε α
  /-- What `Blob` gives for the elements, unless it is `null`. -/
  blob : Option (Except ε (List α))
  length_eq : ∀ n xs, declared = some n → elements.all = .ok xs → xs.length = n.toNat
  blob_gives : ∀ bytes, blob = some bytes → ∃ n, declared = some n ∧
    (n.toInt32 < 0 → ∃ e, bytes = .error e) ∧ (0 ≤ n.toInt32 → GivesAll elements id bytes)

namespace Payload

/-- The `count` of the parser, an `int`, or else the constant 0. -/
def count (payload : Payload ε α) : Int32 :=
  match payload.declared with
  | some n => n.toInt32
  | none => 0

/-- What a loop over `next` meets. A count that is negative as an `int` ends it at once. -/
def visited (payload : Payload ε α) : Elements ε α :=
  if payload.count < 0 then .done else payload.elements

/-- A container of a text protocol. -/
def ofText (elements : Elements ε α) : Payload ε α where
  declared := none
  elements := elements
  blob := none
  length_eq := nofun
  blob_gives := nofun

/-- A container of a binary protocol, of which the elements are no bytes. -/
def ofReader {σ : Type} (read : σ → Except ε (α × σ)) (n : UInt32) (s : σ) : Payload ε α where
  declared := some n
  elements := .ofCount read n.toNat s
  blob := none
  length_eq := by
    rintro _ xs ⟨⟩ hall
    exact Elements.length_ofCount hall
  blob_gives := nofun

end Payload

/-! ### Bytes in memory -/

namespace InputBuffer

open Decoder

variable {b : InputBuffer}

/-- Reading byte by byte. -/
theorem all_ofCount_readUInt8 (h : b.Inside) (count : Nat) :
    if count ≤ (remaining b).length then
      (Elements.ofCount readUInt8 count b).all = .ok ((remaining b).take count)
    else ∃ e, (Elements.ofCount readUInt8 count b).all = .error e := by
  induction count generalizing b with
  | zero => exact rfl
  | succ count ih =>
      cases hbytes : remaining b with
      | nil =>
          have hlength := remaining_length h
          rw [hbytes] at hlength
          have hend : b.position ≥ b.end_ := by
            rw [ge_iff_le, Int32.le_iff_toInt_le]
            unfold Inside at h
            simp only [List.length_nil] at hlength
            omega
          have hread : readUInt8 b = .error (.endOfStream, b) := by
            show (if b.position ≥ b.end_ then throwException Exception.endOfStream
              else nextByte : Reader UInt8) b = _
            rw [if_pos hend]
            rfl
          rw [if_neg (by simp), Elements.ofCount, hread]
          exact ⟨_, rfl⟩
      | cons v rest =>
          have hread : readUInt8 b = .ok (v, b.advance 1) := decodes_readUInt8 v b rest hbytes
          have hrest : remaining (b.advance 1) = rest := by
            have hdrop : remaining (b.advance 1) = (remaining b).drop 1 :=
              Cursor.remaining_advance b 1
            rw [hdrop, hbytes]
            rfl
          have hnext := ih (b := b.advance 1) (advance_inside h 1)
          rw [hrest] at hnext
          simp only [Elements.ofCount, hread, Elements.all, List.length_cons, Nat.succ_le_succ_iff,
            List.take_succ_cons]
          split at hnext
          · next hle =>
              rw [if_pos hle, hnext]
              rfl
          · next hlt =>
              rw [if_neg hlt]
              obtain ⟨e, he⟩ := hnext
              exact ⟨e, by rw [he]; rfl⟩

theorem readBytes_apply (count : Int32) :
    readBytes count b = (if b.position > b.end_ - count then throwException .endOfStream
      else onPosition fun data position => do
        let bytes ← bytesAt data position count
        return (bytes, position + count) : Reader (List UInt8)) b := by
  show (if b.position > b.end_ - count then _ else _ : Reader (List UInt8)) b = _
  rfl

/-- Reading all bytes at once. -/
theorem readBytes_of_nonneg (h : b.Inside) {count : Int32} (hcount : 0 ≤ count) :
    if count.toInt.toNat ≤ (remaining b).length then
      Prod.fst <$> readBytes count b = .ok ((remaining b).take count.toInt.toNat)
    else ∃ e, readBytes count b = .error e := by
  have hnonneg := Int32.le_iff_toInt_le.1 hcount
  rw [Int32.toInt_zero] at hnonneg
  have hlt := count.toInt_lt
  have hlength := remaining_length h
  have hend := b.end_toInt
  have hle := b.end_le
  have hsub := toInt_sub_small (x := b.end_) (Int.toNat_of_nonneg hnonneg).symm
    (Int.natCast_nonneg _) b.end_nonneg (by omega)
  have hinside := h
  unfold Inside at hinside
  have hcheck : b.position > b.end_ - count ↔ (remaining b).length < count.toInt.toNat := by
    rw [gt_iff_lt, Int32.lt_iff_toInt_lt, hsub]
    omega
  rw [readBytes_apply]
  split
  · next hfits =>
      rw [if_neg (mt hcheck.1 (by omega))]
      have hslice : bytesAt b.buffer b.position count
          = .ok ((remaining b).take count.toInt.toNat) := by
        unfold bytesAt
        rw [if_pos ⟨by rw [Int32.le_iff_toInt_le]; exact hinside.1, hcount, by omega⟩, remaining,
          if_pos h, List.drop_take, List.take_take, Nat.min_eq_left (by omega)]
      simp only [onPosition, hslice]
      rfl
  · next hshort =>
      rw [if_pos (hcheck.2 (by omega))]
      exact ⟨_, rfl⟩

/-- No bytes are read if their number is negative. -/
theorem readBytes_of_neg {count : Int32} (hcount : count < 0) :
    ∃ e, readBytes count b = .error e := by
  rw [readBytes_apply]
  split
  · exact ⟨_, rfl⟩
  · have hslice : bytesAt b.buffer b.position count = .error .indexOutOfRange := by
      unfold bytesAt
      rw [if_neg]
      rintro ⟨-, hnonneg, -⟩
      rw [Int32.le_iff_toInt_le] at hnonneg
      rw [Int32.lt_iff_toInt_lt] at hcount
      omega
    simp only [onPosition, hslice]
    exact ⟨_, rfl⟩

end InputBuffer

/-- A `uint` as an `int`. -/
theorem toInt_toInt32 (n : UInt32) :
    n.toInt32.toInt = if n.toNat < 2 ^ 31 then (n.toNat : Int) else n.toNat - 2 ^ 32 := by
  have hcond := BitVec.toInt_eq_toNat_cond n.toBitVec
  have hnat : n.toBitVec.toNat = n.toNat := rfl
  rw [hnat] at hcond
  rw [show n.toInt32.toInt = n.toBitVec.toInt from rfl, hcond]
  split <;> split <;> omega

theorem toInt32_of_nonneg {n : UInt32} (h : 0 ≤ n.toInt32) : n.toInt32.toInt = n.toNat := by
  have hint := toInt_toInt32 n
  have hlt := n.toNat_lt
  rw [Int32.le_iff_toInt_le, Int32.toInt_zero] at h
  split at hint <;> omega

/-- `count` bytes in a memory buffer. -/
def Payload.ofBuffer (b : InputBuffer) (h : b.Inside) (n : UInt32) :
    Payload (Exception × InputBuffer) UInt8 where
  declared := some n
  elements := .ofCount InputBuffer.readUInt8 n.toNat b
  blob := some (Prod.fst <$> InputBuffer.readBytes n.toInt32 b)
  length_eq := by
    rintro _ xs ⟨⟩ hall
    exact Elements.length_ofCount hall
  blob_gives := by
    rintro _ ⟨⟩
    refine ⟨n, rfl, fun hneg => ?_, fun hnonneg => ?_⟩
    · obtain ⟨e, he⟩ := InputBuffer.readBytes_of_neg (b := b) hneg
      exact ⟨e, by rw [he]; rfl⟩
    · have hcount : n.toInt32.toInt.toNat = n.toNat := by
        rw [toInt32_of_nonneg hnonneg, Int.toNat_natCast]
      have hbytes := InputBuffer.readBytes_of_nonneg h hnonneg
      have hitems := InputBuffer.all_ofCount_readUInt8 h n.toNat
      rw [hcount] at hbytes
      unfold GivesAll
      split at hitems
      · next hfits =>
          rw [if_pos hfits] at hbytes
          rw [hitems]
          exact hbytes
      · next hshort =>
          rw [if_neg hshort] at hbytes
          obtain ⟨e, he⟩ := hitems
          obtain ⟨e', he'⟩ := hbytes
          rw [he, he']
          exact ⟨e', rfl⟩

/-! ## The deserializer -/

/-- Neither can be set to a negative number. -/
structure DeserializerControls where
  maxPreallocatedContainerElements : Int32
  maxPreallocatedBlobBytes : Int32
  elements_nonneg : 0 ≤ maxPreallocatedContainerElements
  bytes_nonneg : 0 ≤ maxPreallocatedBlobBytes

/-- `ApplyCountCap` -/
def applyCountCap (payload : Payload ε α) (maxAllowedCount : Int32) : Int32 :=
  match payload.declared with
  | none => 0
  | some _ => if payload.count > maxAllowedCount then maxAllowedCount else payload.count

section

variable [Inhabited α]

/-- The array before element `i` is stored. -/
def maybeResize (isFull : Nat → Nat → Bool) (newSize : Nat → Int32) (array : ManagedArray limit α)
    (i : Nat) : Except (Thrown ε) (ManagedArray limit α) :=
  if isFull i array.length then array.resize (newSize i) else .ok array

/-- The loop that stores the elements in an array. -/
def fillArray (isFull : Nat → Nat → Bool) (newSize : Nat → Int32) :
    Elements ε α → ManagedArray limit α → Nat → Except (Thrown ε) (ManagedArray limit α × Nat)
  | .done, array, i => .ok (array, i)
  | .nextThrows e, _, _ => .error (.parser e)
  | .itemThrows e, array, i => do
      let _ ← maybeResize isFull newSize array i
      .error (.parser e)
  | .item value rest, array, i => do
      let array ← maybeResize isFull newSize array i
      let array ← array.store i value
      fillArray isFull newSize rest array (i + 1)

/-- `newSize` of a blob -/
def blobNewSize (index : Nat) : Int32 :=
  if index > 512 then Int32.ofNat index * 2 else 1024

/-- The size that an array is resized to. -/
def arrayNewSize (i : Nat) : Int32 :=
  (if i < 32 then 32 else Int32.ofNat i) * 2

/-- What the reader throws. -/
def fromParser {β : Type} : Except ε β → Except (Thrown ε) β
  | .ok v => .ok v
  | .error e => .error (.parser e)

/-- `Buffer.BlockCopy` to the front of an array. -/
def blockCopy (source : List α) (container : Option (ManagedArray limit α)) (count : Int32) :
    Except (Thrown ε) (List α) :=
  match container with
  | none => .error .argument
  | some array =>
      if count < 0 ∨ source.length < count.toInt.toNat ∨ array.length < count.toInt.toNat then
        .error .argument
      else
        .ok (source.take count.toInt.toNat ++ array.items.drop count.toInt.toNat)

/-- The field, with what it holds before. -/
inductive Destination (limit : ArrayLimit) (α : Type) where
  /-- `ArraySegment<byte>`, or an alias of it. -/
  | blob
  | array (elementIsByte : Bool) (container : Option (ManagedArray limit α))
  | collection (type : CollectionType) (container : Option (Collection type α))

/-- A capacity that memory is set aside for. -/
def allocate (limit : ArrayLimit) (least : Nat) (capacity : Int32) : Except (Thrown ε) Unit :=
  if capacity.toInt < least then .error .argument
  else if capacity.toInt ≤ limit.maxLength then .ok ()
  else .error .outOfMemory

/-- A field of type blob -/
def blobContainer (limit : ArrayLimit) (controls : DeserializerControls) (payload : Payload ε α) :
    Except (Thrown ε) (Option (List α)) :=
  match payload.blob with
  | some blob => some <$> fromParser blob
  | none => do
      let array : ManagedArray limit α ←
        ManagedArray.new (applyCountCap payload controls.maxPreallocatedBlobBytes)
      let (array, index) ← fillArray (fun index length => decide (index ≥ length)) blobNewSize
        payload.visited array 0
      return some (array.items.take index)

/-- Expanding the array potentially leaves many blank entries. -/
def trimArray (array : ManagedArray limit α) (i : Nat) : Except (Thrown ε) (ManagedArray limit α) :=
  if array.length > i then array.resize (Int32.ofNat i) else .ok array

/-- The loop and what follows it, for an array -/
def arrayLoop (payload : Payload ε α) (container : Option (ManagedArray limit α)) :
    Except (Thrown ε) (Option (List α)) :=
  match container with
  | some array => do
      let (array, i) ← fillArray (fun i length => decide (i = length)) arrayNewSize
        payload.visited array 0
      let array ← trimArray array i
      return some array.items
  | none =>
      -- `ArrayLength` of `null`
      match payload.visited with
      | .nextThrows e => .error (.parser e)
      | _ => .error .nullReference

/-- The elements of an array: bytes are copied if the parser has them as a block. -/
def arrayElements (payload : Payload ε α) (elementIsByte : Bool)
    (container : Option (ManagedArray limit α)) : Except (Thrown ε) (Option (List α)) :=
  match elementIsByte, payload.blob with
  | true, some blob => do
      let blob ← fromParser blob
      some <$> blockCopy blob container payload.count
  | _, _ => arrayLoop payload container

/-- A field that is an array -/
def arrayContainer (controls : DeserializerControls) (payload : Payload ε α) (elementIsByte : Bool)
    (container : Option (ManagedArray limit α)) (initializes : Bool) :
    Except (Thrown ε) (Option (List α)) := do
  let container ←
    (if initializes then some <$> ManagedArray.new
        (applyCountCap payload controls.maxPreallocatedContainerElements)
    else .ok container)
  arrayElements payload elementIsByte container

/-- The loop over `Add` -/
def addItems {type : CollectionType} :
    Elements ε α → Option (Collection type α) → Except (Thrown ε) (Option (Collection type α))
  | .done, container => .ok container
  | .nextThrows e, _ => .error (.parser e)
  | .itemThrows e, _ => .error (.parser e)
  | .item _ _, none => .error .nullReference
  | .item value rest, some container => do
      let container ← container.add value
      addItems rest (some container)

/-- What is in front of the loop over `Add`. -/
def beforeAdding (limit : ArrayLimit) {type : CollectionType} (cappedCount : Int32)
    (container : Option (Collection type α)) (initializes : Bool) :
    Except (Thrown ε) (Option (Collection type α)) :=
  if initializes then
    if type.countConstructor then
      (fun _ => some .empty) <$> allocate limit 0 cappedCount
    else .ok (some .empty)
  else if type.capacity then
    match container with
    | none => .error .nullReference
    | some container =>
        (fun _ => some container) <$> allocate limit container.items.length cappedCount
  else .ok container

/-- A field that is an `ICollection` -/
def collectionContainer (limit : ArrayLimit) (controls : DeserializerControls)
    (payload : Payload ε α) {type : CollectionType} (container : Option (Collection type α))
    (initializes : Bool) : Except (Thrown ε) (Option (List α)) := do
  let container ← beforeAdding limit
    (applyCountCap payload controls.maxPreallocatedContainerElements) container initializes
  let container ← addItems payload.visited container
  return container.map Collection.items

/-- `Container`. A field is initialized first if its default value is `null`. -/
def Destination.container (controls : DeserializerControls) (payload : Payload ε α)
    (destination : Destination limit α) (initializes : Bool) :
    Except (Thrown ε) (Option (List α)) :=
  match destination with
  | blob => blobContainer limit controls payload
  | array elementIsByte container =>
      arrayContainer controls payload elementIsByte container initializes
  | collection _ container => collectionContainer limit controls payload container initializes

end

end Bond.Cs
