import Bond.Cs.ContainerDeserialization

set_option autoImplicit false

/-! # The elements of a deserialized container in C#

When a field holds the elements of its container and nothing else, for every way in which
`DeserializerTransform` (cs/src/core/expressions/DeserializerTransform.cs) fills a field. -/

namespace Bond.Cs

open Growth

variable {ε α : Type} {limit : ArrayLimit}

/-! ## What the loops meet -/

theorem Elements.all_item {value : α} {rest : Elements ε α} {xs : List α}
    (h : (Elements.item value rest).all = .ok xs) :
    ∃ ys, rest.all = .ok ys ∧ xs = value :: ys := by
  rw [Elements.all] at h
  cases hall : rest.all with
  | error e => rw [hall] at h; cases h
  | ok ys =>
      rw [hall] at h
      cases h
      exact ⟨ys, rfl, rfl⟩

theorem Elements.all_item_error {value : α} {rest : Elements ε α} {e : ε}
    (h : (Elements.item value rest).all = .error e) : rest.all = .error e := by
  rw [Elements.all] at h
  cases hall : rest.all with
  | error e' =>
      rw [hall] at h
      cases h
      rfl
  | ok xs => rw [hall] at h; cases h

theorem Payload.visited_of_nonneg {payload : Payload ε α} (h : 0 ≤ payload.count) :
    payload.visited = payload.elements := by
  have hneg : ¬ payload.count < 0 := by
    rw [Int32.lt_iff_toInt_lt]
    rw [Int32.le_iff_toInt_le] at h
    omega
  exact if_neg hneg

/-- For binary protocols `next` is `count-- > 0`. -/
theorem Payload.visited_ofReader {σ : Type} (read : σ → Except ε (α × σ)) (n : UInt32) (s : σ) :
    (ofReader read n s).visited = .ofCount read n.toInt32.toInt.toNat s := by
  by_cases h : n.toInt32 < 0
  · have hcount : n.toInt32.toInt.toNat = 0 := by
      rw [Int32.lt_iff_toInt_lt, Int32.toInt_zero] at h
      omega
    rw [hcount]
    exact if_pos h
  · have hnonneg : 0 ≤ n.toInt32 := by
      rw [Int32.lt_iff_toInt_lt] at h
      rw [Int32.le_iff_toInt_le]
      omega
    rw [toInt32_of_nonneg hnonneg, Int.toNat_natCast]
    exact if_neg h

/-- A payload that is complete has as many elements as its count, which may be no `int`. -/
theorem Payload.length_of_all {payload : Payload ε α} {n : UInt32} {xs : List α}
    (hdeclared : payload.declared = some n) (hall : payload.elements.all = .ok xs) :
    if payload.count < 0 then 2 ^ 31 ≤ xs.length else payload.count.toInt = xs.length := by
  have hlength := payload.length_eq n xs hdeclared hall
  have hcount : payload.count = n.toInt32 := by rw [count, hdeclared]
  have hint := toInt_toInt32 n
  have hlt := n.toNat_lt
  rw [hcount, hlength]
  split
  · next hneg =>
      rw [Int32.lt_iff_toInt_lt, Int32.toInt_zero] at hneg
      split at hint <;> omega
  · next hnonneg =>
      rw [Int32.lt_iff_toInt_lt, Int32.toInt_zero] at hnonneg
      split at hint <;> omega

/-! ## The sizes of arrays -/

/-- What becomes of the size of the array of a blob. -/
def blobSize (size : Nat) : Nat :=
  if size > 512 then size * 2 else 1024

/-- What becomes of the size of an array. -/
def arraySize (size : Nat) : Nat :=
  max size 32 * 2

theorem expands_blobSize : Expands blobSize := by
  intro size
  unfold blobSize
  split <;> omega

theorem expands_arraySize : Expands arraySize := by
  intro size
  unfold arraySize
  omega

/-- `newSize` is what `grow` says, unless that is no `int`. -/
def Computes (newSize : Nat → Int32) (grow : Nat → Nat) : Prop :=
  ∀ size, size < 2 ^ 31 →
    if grow size < 2 ^ 31 then (newSize size).toInt = grow size else newSize size < 0

/-- A product with 2 that is too large for an `int` is negative. -/
theorem toInt_double {n : Nat} (h : n < 2 ^ 31) :
    (Int32.ofNat n * 2).toInt
      = if n * 2 < 2 ^ 31 then ((n * 2 : Nat) : Int) else n * 2 - 2 ^ 32 := by
  rw [Int32.toInt_mul, Int32.toInt_ofNat_of_lt h, show (2 : Int32).toInt = 2 from rfl]
  rw [Int.bmod_def]
  split <;> split <;> omega

theorem computes_blobSize : Computes blobNewSize blobSize := by
  intro size hsize
  have hdouble := toInt_double hsize
  unfold blobNewSize blobSize
  by_cases hlarge : size > 512
  · rw [if_pos hlarge, if_pos hlarge]
    split at hdouble
    · next hlt => rwa [if_pos hlt]
    · next hge =>
        rw [if_neg hge, Int32.lt_iff_toInt_lt, hdouble, show (0 : Int32).toInt = 0 from rfl]
        omega
  · rw [if_neg hlarge, if_neg hlarge, if_pos (by decide)]
    rfl

theorem computes_arraySize : Computes arrayNewSize arraySize := by
  intro size hsize
  have hdouble := toInt_double hsize
  unfold arrayNewSize arraySize
  by_cases hsmall : size < 32
  · rw [if_pos hsmall, Nat.max_eq_right (Nat.le_of_lt hsmall), if_pos (by decide)]
    rfl
  · rw [if_neg hsmall, Nat.max_eq_left (by omega)]
    split at hdouble
    · next hlt => rwa [if_pos hlt]
    · next hge =>
        rw [if_neg hge, Int32.lt_iff_toInt_lt, hdouble, show (0 : Int32).toInt = 0 from rfl]
        omega

/-! ## Filling an array -/

namespace ManagedArray

theorem length_le_maxLength (array : ManagedArray limit α) : array.length ≤ limit.maxLength :=
  array.length_le

theorem length_lt (array : ManagedArray limit α) : array.length < 2 ^ 31 :=
  Nat.lt_of_le_of_lt array.length_le limit.maxLength_lt

variable (ε) in
/-- Storing an element behind the others. -/
theorem store_of_lt {array : ManagedArray limit α} {i : Nat} (h : i < array.length) (value : α) :
    ∃ array', array.store i value = (.ok array' : Except (Thrown ε) _) ∧
      array'.length = array.length ∧ array'.items.take (i + 1) = array.items.take i ++ [value] := by
  refine ⟨_, if_pos h, List.length_set, ?_⟩
  show (array.items.set i value).take (i + 1) = _
  rw [List.take_add_one, List.take_set_of_le (Nat.le_refl i), List.getElem?_set_self h]
  rfl

variable [Inhabited α]

variable (ε) in
theorem resize_of_le {array : ManagedArray limit α} {newSize : Int32} {n : Nat}
    (hsize : newSize.toInt = n) (hle : n ≤ limit.maxLength) :
    ∃ array', array.resize newSize = (.ok array' : Except (Thrown ε) _) ∧ array'.length = n ∧
      ∀ i, i ≤ n → i ≤ array.length → array'.items.take i = array.items.take i := by
  have hnonneg : ¬ newSize < 0 := by
    rw [Int32.lt_iff_toInt_lt, hsize]
    show ¬ (n : Int) < 0
    omega
  have hn : newSize.toInt.toNat = n := by rw [hsize, Int.toNat_natCast]
  have hlength : ((array.items.take n).rightpad n default).length = n := by
    rw [List.length_rightpad, List.length_take, Nat.max_eq_left (Nat.min_le_left _ _)]
  refine ⟨⟨(array.items.take n).rightpad n default, by rwa [hlength]⟩, ?_, hlength, ?_⟩
  · unfold resize
    rw [if_neg hnonneg]
    simp only [hn]
    rw [dif_pos hle]
  · intro i hi hlen
    show ((array.items.take n) ++ List.replicate _ default).take i = _
    rw [List.take_append_of_le_length (by rw [List.length_take]; unfold length at hlen; omega),
      List.take_take, Nat.min_eq_left hi]

theorem resize_of_lt {array : ManagedArray limit α} {newSize : Int32} {n : Nat}
    (hsize : if n < 2 ^ 31 then newSize.toInt = n else newSize < 0) (hlt : limit.maxLength < n) :
    ∃ e, array.resize newSize = (.error e : Except (Thrown ε) _) := by
  unfold resize
  split at hsize
  · have hn : newSize.toInt.toNat = n := by rw [hsize, Int.toNat_natCast]
    split
    · exact ⟨_, rfl⟩
    · exact ⟨_, dif_neg (by omega)⟩
  · rw [if_pos hsize]
    exact ⟨_, rfl⟩

end ManagedArray

section

variable [Inhabited α] {isFull : Nat → Nat → Bool} {newSize : Nat → Int32} {grow : Nat → Nat}

/-- `isFull` asks if all elements of an array have been stored. -/
def AsksFull (isFull : Nat → Nat → Bool) : Prop :=
  ∀ i length, i ≤ length → (isFull i length = true ↔ i = length)

theorem asksFull_ge : AsksFull fun index length => decide (index ≥ length) := by
  intro i length h
  rw [decide_eq_true_iff]
  omega

theorem asksFull_eq : AsksFull fun i length => decide (i = length) := by
  intro i length _
  rw [decide_eq_true_iff]

variable (ε) in
/-- There is room for one more element, if the array may grow when it has to. -/
theorem maybeResize_of_le (hfull : AsksFull isFull) (hsize : Computes newSize grow)
    (hgrow : Expands grow) {array : ManagedArray limit α} {i : Nat} (hi : i ≤ array.length)
    (hle : i = array.length → grow array.length ≤ limit.maxLength) :
    ∃ array', maybeResize isFull newSize array i = (.ok array' : Except (Thrown ε) _) ∧
      array'.length = (if i = array.length then grow array.length else array.length) ∧
      array'.items.take i = array.items.take i := by
  unfold maybeResize
  by_cases heq : i = array.length
  · have hlimit := hle heq
    have hcomputes := hsize array.length array.length_lt
    have hmax := limit.maxLength_lt
    rw [if_pos (by omega)] at hcomputes
    obtain ⟨array', hresize, hlength, htake⟩ :=
      array.resize_of_le ε hcomputes hlimit
    have hexpands := hgrow array.length
    refine ⟨array', ?_, ?_, htake i (by omega) hi⟩
    · rw [if_pos ((hfull i _ hi).2 heq), heq]
      exact hresize
    · rw [if_pos heq, hlength]
  · refine ⟨array, if_neg fun h => heq ((hfull i _ hi).1 h), ?_, rfl⟩
    rw [if_neg heq]

variable (ε) in
theorem maybeResize_of_lt (hfull : AsksFull isFull) (hsize : Computes newSize grow)
    {array : ManagedArray limit α} (hlt : limit.maxLength < grow array.length) :
    ∃ e, maybeResize isFull newSize array array.length = (.error e : Except (Thrown ε) _) := by
  unfold maybeResize
  rw [if_pos ((hfull _ _ (Nat.le_refl _)).2 rfl)]
  exact array.resize_of_lt (hsize array.length array.length_lt) hlt

variable (isFull newSize) in
/-- Elements that do not all come are not stored as if they did. -/
theorem throws_fillArray {elements : Elements ε α} {e : ε} (h : elements.all = .error e)
    (array : ManagedArray limit α) (i : Nat) :
    ∃ e, fillArray isFull newSize elements array i = .error e := by
  induction elements generalizing array i with
  | done => cases h
  | nextThrows e => exact ⟨_, rfl⟩
  | itemThrows e =>
      rw [fillArray]
      cases maybeResize isFull newSize array i with
      | error e => exact ⟨_, rfl⟩
      | ok array => exact ⟨_, rfl⟩
  | item value rest ih =>
      have hrest := Elements.all_item_error h
      rw [fillArray]
      cases maybeResize isFull newSize array i with
      | error e => exact ⟨_, rfl⟩
      | ok array =>
          show ∃ e, (array.store i value >>= _) = Except.error e
          cases array.store i value with
          | error e => exact ⟨_, rfl⟩
          | ok array => exact ih hrest array (i + 1)

/-- An array that may grow as far as it has to ends with all the elements. -/
theorem fillArray_of_grows (hfull : AsksFull isFull) (hsize : Computes newSize grow)
    (hgrow : Expands grow) {elements : Elements ε α} {xs : List α} (hall : elements.all = .ok xs)
    {array : ManagedArray limit α} {i : Nat} (hi : i ≤ array.length)
    (h : Grows grow limit.maxLength array.length (i + xs.length)) :
    ∃ array', fillArray isFull newSize elements array i = .ok (array', i + xs.length) ∧
      i + xs.length ≤ array'.length ∧
      array'.items.take (i + xs.length) = array.items.take i ++ xs := by
  induction elements generalizing array i xs with
  | done =>
      cases hall
      exact ⟨array, rfl, hi, (List.append_nil _).symm⟩
  | nextThrows e => cases hall
  | itemThrows e => cases hall
  | item value rest ih =>
      obtain ⟨ys, hrest, rfl⟩ := Elements.all_item hall
      have hnext : i = array.length → grow array.length ≤ limit.maxLength ∧
          Grows grow limit.maxLength (grow array.length) (i + (value :: ys).length) := fun heq =>
        (grows_iff (by rw [List.length_cons]; omega)).1 h
      obtain ⟨grown, hresize, hlength, htake⟩ :=
        maybeResize_of_le ε hfull hsize hgrow hi fun heq => (hnext heq).1
      have hroom : i < grown.length := by
        have hexpands := hgrow array.length
        rw [hlength]
        split <;> omega
      have hgrows : Grows grow limit.maxLength grown.length (i + (value :: ys).length) := by
        rw [hlength]
        split
        · next heq => exact (hnext heq).2
        · exact h
      obtain ⟨stored, hstore, hstored, hlast⟩ := grown.store_of_lt ε hroom value
      have hcount : i + (value :: ys).length = i + 1 + ys.length := by
        rw [List.length_cons]
        omega
      rw [hcount] at hgrows ⊢
      rw [← hstored] at hgrows
      obtain ⟨array', hrun, hle, hitems⟩ := ih hrest (by omega) hgrows
      refine ⟨array', ?_, hle, ?_⟩
      · rw [fillArray, hresize]
        show (grown.store i value >>= _) = _
        rw [hstore]
        exact hrun
      · rw [hitems, hlast, htake, List.append_assoc]
        rfl

/-- An array that ends with all the elements has not grown further than it may. -/
theorem grows_of_fillArray (hfull : AsksFull isFull) (hsize : Computes newSize grow)
    (hgrow : Expands grow) {elements : Elements ε α} {xs : List α} (hall : elements.all = .ok xs)
    {array : ManagedArray limit α} {i : Nat} (hi : i ≤ array.length)
    {r : ManagedArray limit α × Nat} (h : fillArray isFull newSize elements array i = .ok r) :
    Grows grow limit.maxLength array.length (i + xs.length) := by
  induction elements generalizing array i xs with
  | done =>
      cases hall
      exact Grows.of_le hgrow hi
  | nextThrows e => cases hall
  | itemThrows e => cases hall
  | item value rest ih =>
      obtain ⟨ys, hrest, rfl⟩ := Elements.all_item hall
      have hle : i = array.length → grow array.length ≤ limit.maxLength := by
        intro heq
        by_contra hnot
        have hlt : limit.maxLength < grow array.length := by omega
        obtain ⟨e, hthrows⟩ := maybeResize_of_lt ε hfull hsize hlt
        rw [fillArray, heq, hthrows] at h
        cases h
      obtain ⟨grown, hresize, hlength, htake⟩ := maybeResize_of_le ε hfull hsize hgrow hi hle
      have hroom : i < grown.length := by
        have hexpands := hgrow array.length
        rw [hlength]
        split <;> omega
      obtain ⟨stored, hstore, hstored, -⟩ := grown.store_of_lt ε hroom value
      rw [fillArray, hresize] at h
      change (grown.store i value >>= _) = _ at h
      rw [hstore] at h
      have hgrows := ih hrest (by omega) h
      have hcount : i + (value :: ys).length = i + 1 + ys.length := by
        rw [List.length_cons]
        omega
      rw [← hcount, hstored, hlength] at hgrows
      split at hgrows
      · next heq =>
          exact (grows_iff (by rw [List.length_cons]; omega)).2 ⟨hle heq, hgrows⟩
      · exact hgrows

end

/-! ## Adding to a collection -/

section

variable {type : CollectionType}

theorem addItems_of_le {elements : Elements ε α} {xs : List α} (hall : elements.all = .ok xs)
    {container : Collection type α} (h : container.items.length + xs.length ≤ type.maxCount) :
    ∃ container', addItems elements (some container) = .ok (some container') ∧
      container'.items = container.items ++ xs := by
  induction elements generalizing container xs with
  | done =>
      cases hall
      exact ⟨container, rfl, (List.append_nil _).symm⟩
  | nextThrows e => cases hall
  | itemThrows e => cases hall
  | item value rest ih =>
      obtain ⟨ys, hrest, rfl⟩ := Elements.all_item hall
      rw [List.length_cons] at h
      have hadd : container.add value
          = (.ok ⟨container.items ++ [value], _⟩ : Except (Thrown ε) _) := dif_pos (by omega)
      have hlength : (container.items ++ [value]).length = container.items.length + 1 := by
        rw [List.length_append, List.length_singleton]
      have hroom : (⟨container.items ++ [value], by omega⟩ : Collection type α).items.length
          + ys.length ≤ type.maxCount := by
        show (container.items ++ [value]).length + _ ≤ _
        omega
      obtain ⟨container', hrun, hitems⟩ := ih hrest hroom
      refine ⟨container', ?_, by rw [hitems, List.append_assoc]; rfl⟩
      rw [addItems, hadd]
      exact hrun

/-- Adding without an exception adds all the elements. -/
theorem items_of_addItems {elements : Elements ε α} {xs : List α} (hall : elements.all = .ok xs)
    {container : Collection type α} {container' : Option (Collection type α)}
    (h : addItems elements (some container) = .ok container') :
    ∃ c, container' = some c ∧ c.items = container.items ++ xs := by
  induction elements generalizing container xs with
  | done =>
      cases hall
      cases h
      exact ⟨container, rfl, (List.append_nil _).symm⟩
  | nextThrows e => cases hall
  | itemThrows e => cases hall
  | item value rest ih =>
      obtain ⟨ys, hrest, rfl⟩ := Elements.all_item hall
      rw [addItems] at h
      cases hadd : (container.add value : Except (Thrown ε) _) with
      | error e => rw [hadd] at h; cases h
      | ok added =>
          rw [hadd] at h
          obtain ⟨c, hc, hitems⟩ := ih hrest h
          refine ⟨c, hc, ?_⟩
          unfold Collection.add at hadd
          split at hadd
          · cases hadd
            rw [hitems, List.append_assoc]
            rfl
          · cases hadd

theorem throws_addItems {elements : Elements ε α} {e : ε} (h : elements.all = .error e)
    (container : Option (Collection type α)) :
    ∃ e, addItems elements container = .error e := by
  induction elements generalizing container with
  | done => cases h
  | nextThrows e => exact ⟨_, rfl⟩
  | itemThrows e => exact ⟨_, rfl⟩
  | item value rest ih =>
      have hrest := Elements.all_item_error h
      cases container with
      | none => exact ⟨_, rfl⟩
      | some container =>
          rw [addItems]
          cases container.add value with
          | error e => exact ⟨_, rfl⟩
          | ok added => exact ih hrest (some added)

end

/-! ## The field -/

section

variable {controls : DeserializerControls} {payload : Payload ε α} {xs : List α} {e : ε}

theorem not_neg_of_nonneg {count : Int32} (h : 0 ≤ count) : ¬ count < 0 := by
  rw [Int32.lt_iff_toInt_lt]
  rw [Int32.le_iff_toInt_le] at h
  omega

theorem toInt_nonneg {count : Int32} (h : 0 ≤ count) : 0 ≤ count.toInt := by
  rwa [Int32.le_iff_toInt_le, Int32.toInt_zero] at h

theorem toInt_neg {count : Int32} (h : count < 0) : count.toInt < 0 := by
  rwa [Int32.lt_iff_toInt_lt, Int32.toInt_zero] at h

variable (payload) in
/-- What is left of a count. -/
theorem applyCountCap_toInt {maxAllowedCount : Int32} (hmax : 0 ≤ maxAllowedCount) :
    (applyCountCap payload maxAllowedCount).toInt
      = min payload.count.toInt maxAllowedCount.toInt := by
  have hmax' := toInt_nonneg hmax
  unfold applyCountCap
  cases hdeclared : payload.declared with
  | none =>
      have hcount : payload.count = 0 := by rw [Payload.count, hdeclared]
      rw [hcount, Int32.toInt_zero]
      omega
  | some n =>
      show (if payload.count > maxAllowedCount then maxAllowedCount else payload.count).toInt = _
      split
      · next hgt =>
          rw [gt_iff_lt, Int32.lt_iff_toInt_lt] at hgt
          omega
      · next hle =>
          rw [gt_iff_lt, Int32.lt_iff_toInt_lt] at hle
          omega

theorem applyCountCap_of_nonneg {maxAllowedCount : Int32} (hmax : 0 ≤ maxAllowedCount)
    (hcount : 0 ≤ payload.count) : 0 ≤ applyCountCap payload maxAllowedCount := by
  have hcapped := applyCountCap_toInt payload hmax
  have hmax' := toInt_nonneg hmax
  have hleast := toInt_nonneg hcount
  rw [Int32.le_iff_toInt_le, Int32.toInt_zero]
  omega

theorem applyCountCap_of_neg {maxAllowedCount : Int32} (hmax : 0 ≤ maxAllowedCount)
    (hcount : payload.count < 0) : applyCountCap payload maxAllowedCount < 0 := by
  have hcapped := applyCountCap_toInt payload hmax
  have hneg := toInt_neg hcount
  rw [Int32.lt_iff_toInt_lt, Int32.toInt_zero]
  omega

/-- What `Blob` gives. -/
theorem Payload.blob_of_nonneg {bytes : Except ε (List α)} (hblob : payload.blob = some bytes)
    (h : 0 ≤ payload.count) : GivesAll payload.elements id bytes := by
  obtain ⟨n, hdeclared, -, hgives⟩ := payload.blob_gives bytes hblob
  refine hgives ?_
  rwa [count, hdeclared] at h

theorem Payload.blob_of_neg {bytes : Except ε (List α)} (hblob : payload.blob = some bytes)
    (h : payload.count < 0) : ∃ e, bytes = .error e := by
  obtain ⟨n, hdeclared, hthrows, -⟩ := payload.blob_gives bytes hblob
  refine hthrows ?_
  rwa [count, hdeclared] at h

theorem GivesAll.of_ok {δ β : Type} {elements : Elements ε α} {f : List α → β} {r : Except δ β}
    (hall : elements.all = .ok xs) : GivesAll elements f r ↔ r = .ok (f xs) := by
  unfold GivesAll
  rw [hall]

theorem GivesAll.of_error {δ β : Type} {elements : Elements ε α} {f : List α → β} {r : Except δ β}
    (hall : elements.all = .error e) : GivesAll elements f r ↔ ∃ e, r = .error e := by
  unfold GivesAll
  rw [hall]

namespace ManagedArray

variable [Inhabited α] {length : Int32}

section

variable (ε α limit)

theorem new_of_le (hnonneg : 0 ≤ length) (hle : length.toInt ≤ limit.maxLength) :
    ∃ array : ManagedArray limit α, new length = (.ok array : Except (Thrown ε) _) ∧
      array.length = length.toInt.toNat := by
  refine ⟨⟨List.replicate length.toInt.toNat default, ?_⟩, ?_, List.length_replicate⟩
  · rw [List.length_replicate]
    omega
  · unfold new
    rw [if_neg (not_neg_of_nonneg hnonneg)]
    exact dif_pos (by omega)

theorem new_of_lt (hlt : limit.maxLength < length.toInt) :
    ∃ e, (new length : Except (Thrown ε) (ManagedArray limit α)) = .error e := by
  unfold new
  split
  · exact ⟨_, rfl⟩
  · exact ⟨_, dif_neg (by omega)⟩

theorem new_of_neg (h : length < 0) :
    ∃ e, (new length : Except (Thrown ε) (ManagedArray limit α)) = .error e := by
  exact ⟨_, if_pos h⟩

end

end ManagedArray

variable (ε) in
/-- The array of bytes that a blob is copied to has to be there, and as long as the blob. -/
theorem blockCopy_iff {container : Option (ManagedArray limit α)} {count : Int32}
    (hcount : count.toInt = xs.length) :
    (blockCopy xs container count : Except (Thrown ε) _) = .ok xs ↔
      ∃ array, container = some array ∧ array.length = xs.length := by
  have hnat : count.toInt.toNat = xs.length := by omega
  have hneg : ¬ count < 0 := by
    rw [Int32.lt_iff_toInt_lt, Int32.toInt_zero]
    omega
  unfold blockCopy
  cases container with
  | none => exact ⟨nofun, fun ⟨_, hnone, _⟩ => nomatch hnone⟩
  | some array =>
      dsimp only
      rw [hnat]
      constructor
      · intro h
        refine ⟨array, rfl, ?_⟩
        split at h
        · cases h
        · next hroom =>
            have hitems := congrArg (fun r : Except (Thrown ε) (List α) =>
              match r with
              | .ok items => items.length
              | .error _ => 0) h
            simp only [List.length_append, List.length_take, List.length_drop] at hitems
            unfold ManagedArray.length at hroom ⊢
            omega
      · rintro ⟨_, ⟨⟩, hlength⟩
        rw [if_neg (by rw [hlength]; simp [hneg]), List.take_length,
          List.drop_of_length_le (Nat.le_of_eq hlength), List.append_nil]

/-! ### Blobs -/

section

variable [Inhabited α]

theorem blobContainer_iff (hcount : 0 ≤ payload.count) (hall : payload.elements.all = .ok xs) :
    blobContainer limit controls payload = .ok (some xs) ↔
      payload.blob.isSome = true ∨
        (applyCountCap payload controls.maxPreallocatedBlobBytes).toInt ≤ limit.maxLength ∧
        Grows blobSize limit.maxLength
          (applyCountCap payload controls.maxPreallocatedBlobBytes).toInt.toNat xs.length := by
  unfold blobContainer
  cases hblob : payload.blob with
  | some bytes =>
      have hbytes := (GivesAll.of_ok hall).1 (payload.blob_of_nonneg hblob hcount)
      rw [hbytes]
      exact ⟨fun _ => Or.inl rfl, fun _ => rfl⟩
  | none =>
      have hnonneg := applyCountCap_of_nonneg controls.bytes_nonneg hcount
      rw [payload.visited_of_nonneg hcount]
      refine Iff.trans ?_ (or_iff_right (by simp)).symm
      by_cases hlarge : limit.maxLength
          < (applyCountCap payload controls.maxPreallocatedBlobBytes).toInt
      · obtain ⟨e, he⟩ := ManagedArray.new_of_lt ε α limit hlarge
        simp only [he]
        exact ⟨nofun, fun h => absurd h.1 (by omega)⟩
      · obtain ⟨array, hnew, hlength⟩ :=
          ManagedArray.new_of_le ε α limit hnonneg (by omega)
        simp only [hnew]
        rw [← hlength]
        constructor
        · intro h
          refine ⟨by omega, ?_⟩
          cases hfill : fillArray (fun index length => decide (index ≥ length)) blobNewSize
              payload.elements array 0 with
          | error e =>
              change (fillArray _ _ _ _ _ >>= _) = _ at h
              rw [hfill] at h
              cases h
          | ok r =>
              have hgrows := grows_of_fillArray asksFull_ge computes_blobSize expands_blobSize hall
                (Nat.zero_le _) hfill
              rwa [Nat.zero_add] at hgrows
        · rintro ⟨-, hgrows⟩
          rw [← Nat.zero_add xs.length] at hgrows
          obtain ⟨array', hfill, -, hitems⟩ := fillArray_of_grows asksFull_ge computes_blobSize
            expands_blobSize hall (Nat.zero_le _) hgrows
          change (fillArray _ _ _ _ _ >>= _) = _
          rw [hfill]
          show Except.ok (some (array'.items.take (0 + xs.length))) = _
          rw [hitems, List.take_zero, List.nil_append]

theorem throws_blobContainer (hcount : 0 ≤ payload.count) (hall : payload.elements.all = .error e) :
    ∃ e, blobContainer limit controls payload = .error e := by
  unfold blobContainer
  cases hblob : payload.blob with
  | some bytes =>
      obtain ⟨e', hbytes⟩ := (GivesAll.of_error hall).1 (payload.blob_of_nonneg hblob hcount)
      exact ⟨_, by rw [hbytes]; rfl⟩
  | none =>
      rw [payload.visited_of_nonneg hcount]
      dsimp only
      cases (ManagedArray.new (applyCountCap payload controls.maxPreallocatedBlobBytes) :
          Except (Thrown ε) (ManagedArray limit α)) with
      | error e => exact ⟨_, rfl⟩
      | ok array =>
          obtain ⟨e', hfill⟩ := throws_fillArray (fun index length => decide (index ≥ length))
            blobNewSize hall array 0
          refine ⟨e', ?_⟩
          change (fillArray _ _ _ _ _ >>= _) = _
          rw [hfill]
          rfl

variable (limit controls) in
theorem blobContainer_of_neg (hcount : payload.count < 0) :
    ∃ e, blobContainer limit controls payload = .error e := by
  unfold blobContainer
  cases hblob : payload.blob with
  | some bytes =>
      obtain ⟨e', hbytes⟩ := payload.blob_of_neg hblob hcount
      exact ⟨_, by rw [hbytes]; rfl⟩
  | none =>
      obtain ⟨e', hnew⟩ := ManagedArray.new_of_neg ε α limit
        (applyCountCap_of_neg controls.bytes_nonneg hcount)
      exact ⟨e', by simp only [hnew]; rfl⟩

/-! ### Arrays -/

variable (ε) in
/-- The array is cut behind its element `i`. -/
theorem trimArray_eq {array : ManagedArray limit α} {i : Nat} (hi : i ≤ array.length) :
    ∃ array', trimArray array i = (.ok array' : Except (Thrown ε) _) ∧
      array'.items = array.items.take i := by
  have hlt := array.length_lt
  unfold trimArray
  by_cases hlonger : array.length > i
  · obtain ⟨cut, hresize, hlength, htake⟩ := array.resize_of_le ε
      (Int32.toInt_ofNat_of_lt (by omega : i < 2 ^ 31)) (Nat.le_trans hi array.length_le)
    have hcut := htake i (Nat.le_refl _) hi
    rw [List.take_of_length_le (Nat.le_of_eq hlength)] at hcut
    refine ⟨cut, ?_, hcut⟩
    rw [if_pos hlonger, hresize]
  · refine ⟨array, if_neg hlonger, ?_⟩
    rw [List.take_of_length_le (by unfold ManagedArray.length at hlonger; omega)]

variable {container : Option (ManagedArray limit α)}

theorem arrayLoop_iff (hcount : 0 ≤ payload.count) (hall : payload.elements.all = .ok xs) :
    arrayLoop payload container = .ok (some xs) ↔
      ∃ array, container = some array ∧
        Grows arraySize limit.maxLength array.length xs.length := by
  unfold arrayLoop
  rw [payload.visited_of_nonneg hcount]
  cases container with
  | none =>
      refine ⟨fun h => ?_, fun ⟨_, hnone, _⟩ => nomatch hnone⟩
      dsimp only at h
      split at h <;> cases h
  | some array =>
      constructor
      · intro h
        refine ⟨array, rfl, ?_⟩
        cases hfill : fillArray (fun i length => decide (i = length)) arrayNewSize
            payload.elements array 0 with
        | error e =>
            change (fillArray _ _ _ _ _ >>= _) = _ at h
            rw [hfill] at h
            cases h
        | ok r =>
            have hgrows := grows_of_fillArray asksFull_eq computes_arraySize expands_arraySize hall
              (Nat.zero_le _) hfill
            rwa [Nat.zero_add] at hgrows
      · rintro ⟨_, ⟨⟩, hgrows⟩
        rw [← Nat.zero_add xs.length] at hgrows
        obtain ⟨array', hfill, hle, hitems⟩ := fillArray_of_grows asksFull_eq computes_arraySize
          expands_arraySize hall (Nat.zero_le _) hgrows
        rw [Nat.zero_add] at hfill hle hitems
        change (fillArray _ _ _ _ _ >>= _) = _
        rw [hfill]
        obtain ⟨cut, htrim, hcut⟩ := trimArray_eq ε hle
        change (trimArray array' xs.length >>= _) = _
        rw [htrim]
        show Except.ok (some cut.items) = _
        rw [hcut, hitems, List.take_zero, List.nil_append]

theorem throws_arrayLoop (hcount : 0 ≤ payload.count) (hall : payload.elements.all = .error e) :
    ∃ e, arrayLoop payload container = .error e := by
  unfold arrayLoop
  rw [payload.visited_of_nonneg hcount]
  cases container with
  | none =>
      dsimp only
      split <;> exact ⟨_, rfl⟩
  | some array =>
      obtain ⟨e', hfill⟩ := throws_fillArray (fun i length => decide (i = length)) arrayNewSize
        hall array 0
      refine ⟨e', ?_⟩
      change (fillArray _ _ _ _ _ >>= _) = _
      rw [hfill]
      rfl

variable (container) in
/-- A loop that is over at once leaves an empty array. -/
theorem arrayLoop_of_neg (hcount : payload.count < 0) :
    match container with
    | some _ => arrayLoop payload container = .ok (some [])
    | none => ∃ e, arrayLoop payload container = .error e := by
  have hvisited : payload.visited = .done := if_pos hcount
  unfold arrayLoop
  rw [hvisited]
  cases container with
  | none => exact ⟨_, rfl⟩
  | some array =>
      obtain ⟨cut, htrim, hcut⟩ := trimArray_eq ε (Nat.zero_le array.length)
      show (trimArray array 0 >>= _) = _
      rw [htrim]
      show Except.ok (some cut.items) = _
      rw [hcut]
      rfl

/-- A new array, or the one that is there. -/
theorem newArray_iff {cappedCount : Int32} (hnonneg : 0 ≤ cappedCount) (initializes : Bool)
    (f : Option (ManagedArray limit α) → Except (Thrown ε) (Option (List α)))
    {p : ManagedArray limit α → Prop}
    (hf : ∀ container, f container = .ok (some xs) ↔ ∃ array, container = some array ∧ p array)
    (hp : ∀ array array' : ManagedArray limit α, array.length = array'.length →
      p array → p array') :
    ((if initializes then some <$> ManagedArray.new cappedCount else .ok container) >>= f)
        = .ok (some xs) ↔
      if initializes then ∃ array : ManagedArray limit α,
        array.length = cappedCount.toInt.toNat ∧ p array
      else ∃ array, container = some array ∧ p array := by
  cases initializes with
  | false => exact hf container
  | true =>
      rw [if_pos rfl, if_pos rfl]
      by_cases hlarge : limit.maxLength < cappedCount.toInt
      · obtain ⟨e, he⟩ := ManagedArray.new_of_lt ε α limit hlarge
        rw [he]
        refine ⟨nofun, fun ⟨array, hlength, _⟩ => ?_⟩
        have hle := array.length_le_maxLength
        omega
      · obtain ⟨array, hnew, hlength⟩ :=
          ManagedArray.new_of_le ε α limit hnonneg (by omega)
        rw [hnew]
        refine (hf (some array)).trans ⟨?_, ?_⟩
        · rintro ⟨_, ⟨⟩, h⟩
          exact ⟨array, hlength, h⟩
        · rintro ⟨array', hlength', h⟩
          exact ⟨array, rfl, hp array' array (hlength'.trans hlength.symm) h⟩

theorem arrayElements_of_blob {bytes : Except ε (List α)} (hblob : payload.blob = some bytes) :
    arrayElements payload true container = (do
      let blob ← fromParser bytes
      some <$> blockCopy blob container payload.count) := by
  unfold arrayElements
  rw [hblob]

theorem arrayElements_of_loop {elementIsByte : Bool}
    (h : ¬ (elementIsByte = true ∧ payload.blob.isSome = true)) :
    arrayElements payload elementIsByte container = arrayLoop payload container := by
  unfold arrayElements
  split
  · next bytes hblob => exact absurd ⟨rfl, by rw [hblob]; rfl⟩ h
  · rfl

/-- There is an array of every length up to the limit. -/
theorem exists_array_iff {n : Nat} {p : Nat → Prop} :
    (∃ array : ManagedArray limit α, array.length = n ∧ p array.length) ↔
      n ≤ limit.maxLength ∧ p n := by
  constructor
  · rintro ⟨array, rfl, h⟩
    exact ⟨array.length_le_maxLength, h⟩
  · rintro ⟨hle, h⟩
    have hlength : (List.replicate n (default : α)).length = n := List.length_replicate
    refine ⟨⟨List.replicate n default, by rwa [hlength]⟩, hlength, ?_⟩
    unfold ManagedArray.length
    rwa [hlength]

theorem arrayContainer_iff (hcount : 0 ≤ payload.count) (hall : payload.elements.all = .ok xs)
    (elementIsByte initializes : Bool) :
    arrayContainer controls payload elementIsByte container initializes = .ok (some xs) ↔
      if elementIsByte = true ∧ payload.blob.isSome = true then
        if initializes then xs.length ≤ controls.maxPreallocatedContainerElements.toInt.toNat ∧
          xs.length ≤ limit.maxLength
        else ∃ array, container = some array ∧ array.length = xs.length
      else if initializes then
        (applyCountCap payload controls.maxPreallocatedContainerElements).toInt.toNat
          ≤ limit.maxLength ∧ Grows arraySize limit.maxLength
          (applyCountCap payload controls.maxPreallocatedContainerElements).toInt.toNat xs.length
      else ∃ array, container = some array ∧
        Grows arraySize limit.maxLength array.length xs.length := by
  have hmax := toInt_nonneg controls.elements_nonneg
  have hleast := toInt_nonneg hcount
  have hcapped := applyCountCap_toInt payload controls.elements_nonneg
  have hnonneg := applyCountCap_of_nonneg controls.elements_nonneg hcount
  by_cases hbytes : elementIsByte = true ∧ payload.blob.isSome = true
  · obtain ⟨rfl, hsome⟩ := hbytes
    obtain ⟨bytes, hblob⟩ := Option.isSome_iff_exists.1 hsome
    have hread := (GivesAll.of_ok hall).1 (payload.blob_of_nonneg hblob hcount)
    obtain ⟨n, hdeclared, -⟩ := payload.blob_gives bytes hblob
    have hlength := payload.length_of_all hdeclared hall
    rw [if_neg (not_neg_of_nonneg hcount)] at hlength
    rw [if_pos ⟨rfl, hsome⟩]
    refine (newArray_iff hnonneg initializes _
      (p := fun array => array.length = xs.length) (fun container => ?_)
      fun array array' hsame h => hsame.symm.trans h).trans ?_
    · refine Iff.trans ?_ (blockCopy_iff ε hlength)
      rw [arrayElements_of_blob hblob, hread]
      show (some <$> blockCopy xs container payload.count) = _ ↔ _
      cases (blockCopy xs container payload.count : Except (Thrown ε) _) with
      | error e => exact ⟨nofun, nofun⟩
      | ok items =>
          refine ⟨fun h => ?_, fun h => ?_⟩
          · cases h
            rfl
          · cases h
            rfl
    · cases initializes with
      | false => rfl
      | true =>
          rw [if_pos rfl, if_pos rfl, exists_array_iff (p := fun length => length = xs.length)]
          omega
  · rw [if_neg hbytes]
    refine (newArray_iff hnonneg initializes _
      (p := fun array => Grows arraySize limit.maxLength array.length xs.length)
      (fun container => ?_)
      fun array array' hsame h => hsame ▸ h).trans ?_
    · rw [arrayElements_of_loop hbytes]
      exact arrayLoop_iff hcount hall
    · cases initializes with
      | false => rfl
      | true =>
          rw [if_pos rfl, if_pos rfl, exists_array_iff
            (p := fun length => Grows arraySize limit.maxLength length xs.length)]

theorem throws_arrayContainer (hcount : 0 ≤ payload.count)
    (hall : payload.elements.all = .error e) (elementIsByte initializes : Bool) :
    ∃ e, arrayContainer controls payload elementIsByte container initializes = .error e := by
  unfold arrayContainer
  cases (if initializes then some <$> ManagedArray.new
      (applyCountCap payload controls.maxPreallocatedContainerElements)
    else .ok container : Except (Thrown ε) (Option (ManagedArray limit α))) with
  | error e => exact ⟨_, rfl⟩
  | ok container =>
      show ∃ e, arrayElements payload elementIsByte container = Except.error e
      by_cases hbytes : elementIsByte = true ∧ payload.blob.isSome = true
      · obtain ⟨rfl, hsome⟩ := hbytes
        obtain ⟨bytes, hblob⟩ := Option.isSome_iff_exists.1 hsome
        obtain ⟨e', hread⟩ := (GivesAll.of_error hall).1 (payload.blob_of_nonneg hblob hcount)
        rw [arrayElements_of_blob hblob, hread]
        exact ⟨_, rfl⟩
      · rw [arrayElements_of_loop hbytes]
        exact throws_arrayLoop hcount hall

variable (controls container) in
/-- With a count that is negative, the field becomes an empty array, if there is an array for it. -/
theorem arrayContainer_of_neg (hcount : payload.count < 0) (elementIsByte initializes : Bool) :
    if initializes = true ∨ (elementIsByte = true ∧ payload.blob.isSome = true) ∨ container = none
    then ∃ e, arrayContainer controls payload elementIsByte container initializes = .error e
    else arrayContainer controls payload elementIsByte container initializes = .ok (some []) := by
  cases initializes with
  | true =>
      obtain ⟨e', hnew⟩ := ManagedArray.new_of_neg ε α limit
        (applyCountCap_of_neg controls.elements_nonneg hcount)
      unfold arrayContainer
      rw [if_pos (Or.inl rfl), if_pos rfl, hnew]
      exact ⟨_, rfl⟩
  | false =>
      have helements : arrayContainer controls payload elementIsByte container false
          = arrayElements payload elementIsByte container := rfl
      rw [helements]
      by_cases hbytes : elementIsByte = true ∧ payload.blob.isSome = true
      · obtain ⟨rfl, hsome⟩ := hbytes
        obtain ⟨bytes, hblob⟩ := Option.isSome_iff_exists.1 hsome
        obtain ⟨e', hread⟩ := payload.blob_of_neg hblob hcount
        rw [if_pos (Or.inr (Or.inl ⟨rfl, hsome⟩)), arrayElements_of_blob hblob, hread]
        exact ⟨_, rfl⟩
      · have hrun := arrayLoop_of_neg container hcount
        rw [arrayElements_of_loop hbytes]
        cases container with
        | none =>
            rw [if_pos (Or.inr (Or.inr rfl))]
            exact hrun
        | some array =>
            rw [if_neg (by simp only [Bool.false_eq_true, hbytes, reduceCtorEq, or_self,
              not_false_eq_true])]
            exact hrun

/-! ### Collections -/

omit [Inhabited α]

variable {type : CollectionType} {collection : Option (Collection type α)}

variable (ε limit) in
theorem allocate_iff (least : Nat) (capacity : Int32) :
    (allocate limit least capacity : Except (Thrown ε) Unit) = .ok () ↔
      least ≤ capacity.toInt ∧ capacity.toInt ≤ limit.maxLength := by
  unfold allocate
  split
  · next hless => exact ⟨nofun, fun h => absurd h.1 (by omega)⟩
  · next hleast =>
      split
      · next hle => exact ⟨fun _ => ⟨by omega, hle⟩, fun _ => rfl⟩
      · next hlt => exact ⟨nofun, fun h => absurd h.2 hlt⟩

/-- Setting memory aside changes nothing, if there is enough of it. -/
theorem map_allocate_iff {β : Type} {least : Nat} {capacity : Int32} {v w : β} :
    (fun _ => v) <$> (allocate limit least capacity : Except (Thrown ε) Unit) = .ok w ↔
      v = w ∧ least ≤ capacity.toInt ∧ capacity.toInt ≤ limit.maxLength := by
  have hiff := allocate_iff ε limit least capacity
  cases hrun : (allocate limit least capacity : Except (Thrown ε) Unit) with
  | ok _ => exact ⟨fun h => ⟨Except.ok.inj h, hiff.1 hrun⟩, fun h => congrArg Except.ok h.1⟩
  | error e =>
      refine ⟨nofun, fun h => ?_⟩
      rw [hiff.2 h.2] at hrun
      cases hrun

variable (collection) in
/-- Only what is added to an empty collection is all that it holds. -/
theorem addItems_iff (hcount : 0 ≤ payload.count) (hall : payload.elements.all = .ok xs) :
    (do
      let container ← (addItems payload.visited collection :
        Except (Thrown ε) (Option (Collection type α)))
      return container.map Collection.items) = .ok (some xs) ↔
      xs.length ≤ type.maxCount ∧ ∃ c, collection = some c ∧ c.items = [] := by
  rw [payload.visited_of_nonneg hcount]
  constructor
  · intro h
    cases hrun : addItems payload.elements collection with
    | error e => rw [hrun] at h; cases h
    | ok container' =>
        rw [hrun] at h
        have hitems : container'.map Collection.items = some xs := Except.ok.inj h
        cases collection with
        | none =>
            cases helements : payload.elements with
            | done =>
                rw [helements] at hrun
                cases hrun
                cases hitems
            | nextThrows e => rw [helements] at hrun; cases hrun
            | itemThrows e => rw [helements] at hrun; cases hrun
            | item value rest => rw [helements] at hrun; cases hrun
        | some c =>
            obtain ⟨c', rfl, hadded⟩ := items_of_addItems hall hrun
            have hlength := c'.length_le
            have heq : c'.items = xs := Option.some.inj hitems
            refine ⟨heq ▸ hlength, c, rfl, ?_⟩
            rw [heq] at hadded
            exact List.append_left_eq_self.1 hadded.symm
  · rintro ⟨hle, c, rfl, hempty⟩
    obtain ⟨c', hrun, hitems⟩ := addItems_of_le hall (by rw [hempty]; simpa using hle)
    rw [hrun]
    show Except.ok (some c'.items) = _
    rw [hitems, hempty]
    rfl

theorem collectionContainer_iff (hcount : 0 ≤ payload.count) (hall : payload.elements.all = .ok xs)
    (initializes : Bool) :
    collectionContainer limit controls payload collection initializes = .ok (some xs) ↔
      xs.length ≤ type.maxCount ∧
      if initializes then
        type.countConstructor = true →
          (applyCountCap payload controls.maxPreallocatedContainerElements).toInt ≤ limit.maxLength
      else
        (∃ c, collection = some c ∧ c.items = []) ∧ (type.capacity = true →
          (applyCountCap payload controls.maxPreallocatedContainerElements).toInt
            ≤ limit.maxLength) := by
  have hnonneg := toInt_nonneg (applyCountCap_of_nonneg controls.elements_nonneg hcount)
  have hbefore : collectionContainer limit controls payload collection initializes
      = .ok (some xs) ↔ ∃ c, beforeAdding limit (applyCountCap payload
        controls.maxPreallocatedContainerElements) collection initializes
          = (.ok (some c) : Except (Thrown ε) _) ∧ c.items = [] ∧ xs.length ≤ type.maxCount := by
    unfold collectionContainer
    cases beforeAdding limit (applyCountCap payload controls.maxPreallocatedContainerElements)
        collection initializes with
    | error e => exact ⟨nofun, fun ⟨_, h, _⟩ => nomatch h⟩
    | ok collection =>
        refine (addItems_iff collection hcount hall).trans ⟨?_, ?_⟩
        · rintro ⟨hle, c, rfl, hempty⟩
          exact ⟨c, rfl, hempty, hle⟩
        · rintro ⟨c, ⟨⟩, hempty, hle⟩
          exact ⟨hle, c, rfl, hempty⟩
  rw [hbefore]
  unfold beforeAdding
  cases initializes with
  | true =>
      simp only [if_true]
      cases hconstructor : type.countConstructor with
      | true =>
          simp only [if_true, map_allocate_iff, Option.some.injEq, forall_const]
          constructor
          · rintro ⟨c, ⟨-, -, hle⟩, -, hmax⟩
            exact ⟨hmax, hle⟩
          · rintro ⟨hmax, hle⟩
            exact ⟨.empty, ⟨rfl, hnonneg, hle⟩, rfl, hmax⟩
      | false =>
          constructor
          · rintro ⟨c, -, -, hmax⟩
            exact ⟨hmax, nofun⟩
          · rintro ⟨hmax, -⟩
            exact ⟨.empty, rfl, rfl, hmax⟩
  | false =>
      simp only [Bool.false_eq_true, if_false]
      cases hcapacity : type.capacity with
      | true =>
          simp only [if_true, forall_const]
          cases collection with
          | none => exact ⟨fun ⟨_, h, _⟩ => (nomatch h), fun ⟨_, ⟨_, h, _⟩, _⟩ => nomatch h⟩
          | some collection =>
              simp only [map_allocate_iff, Option.some.injEq]
              constructor
              · rintro ⟨c, ⟨rfl, -, hle⟩, hempty, hmax⟩
                exact ⟨hmax, ⟨_, rfl, hempty⟩, hle⟩
              · rintro ⟨hmax, ⟨c, rfl, hempty⟩, hle⟩
                refine ⟨_, ⟨rfl, ?_, hle⟩, hempty, hmax⟩
                rw [hempty]
                exact hnonneg
      | false =>
          simp only [Bool.false_eq_true, if_false, Except.ok.injEq, false_implies, and_true]
          exact ⟨fun ⟨c, h, hempty, hmax⟩ => ⟨hmax, c, h, hempty⟩,
            fun ⟨hmax, c, h, hempty⟩ => ⟨c, h, hempty, hmax⟩⟩

theorem throws_collectionContainer (hcount : 0 ≤ payload.count)
    (hall : payload.elements.all = .error e) (initializes : Bool) :
    ∃ e, collectionContainer limit controls payload collection initializes = .error e := by
  unfold collectionContainer
  rw [payload.visited_of_nonneg hcount]
  cases beforeAdding limit (applyCountCap payload controls.maxPreallocatedContainerElements)
      collection initializes with
  | error e => exact ⟨_, rfl⟩
  | ok collection =>
      obtain ⟨e', hrun⟩ := throws_addItems hall collection
      refine ⟨e', ?_⟩
      show (addItems payload.elements collection >>= _) = _
      rw [hrun]
      rfl

variable (limit controls collection) in
/-- With a count that is negative nothing is added, unless the count is refused as a capacity. -/
theorem collectionContainer_of_neg (hcount : payload.count < 0) (initializes : Bool) :
    if (if initializes then type.countConstructor else type.capacity) = true then
      ∃ e, collectionContainer limit controls payload collection initializes = .error e
    else
      collectionContainer limit controls payload collection initializes
        = .ok (if initializes then some [] else collection.map Collection.items) := by
  have hvisited : payload.visited = .done := if_pos hcount
  have hneg := toInt_neg (applyCountCap_of_neg controls.elements_nonneg hcount)
  have hrefused : ∀ least, ∃ e, (allocate limit least
      (applyCountCap payload controls.maxPreallocatedContainerElements) :
        Except (Thrown ε) Unit) = .error e := fun least => ⟨_, if_pos (by omega)⟩
  unfold collectionContainer beforeAdding
  rw [hvisited]
  cases initializes with
  | true =>
      simp only [if_true]
      split
      · next hconstructor =>
          obtain ⟨e', he⟩ := hrefused 0
          refine ⟨e', ?_⟩
          rw [he]
          rfl
      · rfl
  | false =>
      simp only [Bool.false_eq_true, if_false]
      split
      · next hcapacity =>
          cases collection with
          | none => exact ⟨_, rfl⟩
          | some collection =>
              obtain ⟨e', he⟩ := hrefused collection.items.length
              refine ⟨e', ?_⟩
              simp only [he]
              rfl
      · rfl

end

end

/-! ## Every field -/

section

variable {controls : DeserializerControls} {payload : Payload ε α} {xs : List α} {e : ε}


/-- Whether a field ends with `n` elements, where the count is not negative. -/
def Destination.Holds (controls : DeserializerControls) (payload : Payload ε α)
    (initializes : Bool) (n : Nat) : Destination limit α → Prop
  | .blob => payload.blob.isSome = true ∨
      (applyCountCap payload controls.maxPreallocatedBlobBytes).toInt ≤ limit.maxLength ∧
      Grows blobSize limit.maxLength
        (applyCountCap payload controls.maxPreallocatedBlobBytes).toInt.toNat n
  | .array elementIsByte container =>
      if elementIsByte = true ∧ payload.blob.isSome = true then
        if initializes then
          n ≤ controls.maxPreallocatedContainerElements.toInt.toNat ∧ n ≤ limit.maxLength
        else ∃ array, container = some array ∧ array.length = n
      else if initializes then
        (applyCountCap payload controls.maxPreallocatedContainerElements).toInt.toNat
          ≤ limit.maxLength ∧ Grows arraySize limit.maxLength
          (applyCountCap payload controls.maxPreallocatedContainerElements).toInt.toNat n
      else ∃ array, container = some array ∧ Grows arraySize limit.maxLength array.length n
  | .collection type container =>
      n ≤ type.maxCount ∧
      if initializes then
        type.countConstructor = true →
          (applyCountCap payload controls.maxPreallocatedContainerElements).toInt ≤ limit.maxLength
      else
        (∃ c, container = some c ∧ c.items = []) ∧ (type.capacity = true →
          (applyCountCap payload controls.maxPreallocatedContainerElements).toInt
            ≤ limit.maxLength)

/-- Whether a count that is negative makes the deserialization throw. -/
def Destination.RefusesNegative (payload : Payload ε α) (initializes : Bool) :
    Destination limit α → Prop
  | .blob => True
  | .array elementIsByte container =>
      initializes = true ∨ (elementIsByte = true ∧ payload.blob.isSome = true) ∨ container = none
  | .collection type _ => (if initializes then type.countConstructor else type.capacity) = true

/-- Whether a field ends with the elements of a payload, or the deserialization throws if they do
    not all come. -/
def Destination.Suits (controls : DeserializerControls) (payload : Payload ε α)
    (initializes : Bool) (destination : Destination limit α) : Prop :=
  match payload.elements.all with
  | .ok xs => 0 ≤ payload.count ∧ destination.Holds controls payload initializes xs.length
  | .error _ => 0 ≤ payload.count ∨ destination.RefusesNegative payload initializes

/-- A deserialization that is either refused or ends with few elements. -/
theorem refused_iff {δ : Type} {refused : Prop} [Decidable refused]
    {r : Except δ (Option (List α))} {items : Option (List α)}
    (hrun : if refused then ∃ e, r = .error e else r = .ok items)
    (hfew : ∀ xs, items = some xs → xs.length < 2 ^ 31) :
    (refused ↔ ∃ e, r = .error e) ∧ ∀ xs, r = .ok (some xs) → xs.length < 2 ^ 31 := by
  split at hrun
  · next h =>
      obtain ⟨e', rfl⟩ := hrun
      exact ⟨⟨fun _ => ⟨e', rfl⟩, fun _ => h⟩, nofun⟩
  · next h =>
      subst hrun
      refine ⟨⟨fun h' => absurd h' h, nofun⟩, fun xs hxs => hfew xs (Except.ok.inj hxs)⟩

variable [Inhabited α]

theorem Destination.container_iff {destination : Destination limit α} (hcount : 0 ≤ payload.count)
    (hall : payload.elements.all = .ok xs) (initializes : Bool) :
    destination.container controls payload initializes = .ok (some xs) ↔
      destination.Holds controls payload initializes xs.length := by
  cases destination with
  | blob => exact blobContainer_iff hcount hall
  | array elementIsByte container => exact arrayContainer_iff hcount hall elementIsByte initializes
  | collection type container => exact collectionContainer_iff hcount hall initializes

theorem Destination.throws_container {destination : Destination limit α}
    (hcount : 0 ≤ payload.count) (hall : payload.elements.all = .error e) (initializes : Bool) :
    ∃ e, destination.container controls payload initializes = .error e := by
  cases destination with
  | blob => exact throws_blobContainer hcount hall
  | array elementIsByte container =>
      exact throws_arrayContainer hcount hall elementIsByte initializes
  | collection type container => exact throws_collectionContainer hcount hall initializes

/-- With a count that is negative, no field ends with 2^31 elements or more. -/
theorem Destination.container_of_neg {destination : Destination limit α}
    (hcount : payload.count < 0) (initializes : Bool) :
    (destination.RefusesNegative payload initializes ↔
      ∃ e, destination.container controls payload initializes = .error e) ∧
      ∀ xs, destination.container controls payload initializes = .ok (some xs) →
        xs.length < 2 ^ 31 := by
  cases destination with
  | blob =>
      have hrun := blobContainer_of_neg limit controls hcount
      exact ⟨⟨fun _ => hrun, fun _ => trivial⟩, fun xs h => nomatch hrun.choose_spec.symm.trans h⟩
  | array elementIsByte container =>
      have hrun := arrayContainer_of_neg controls container hcount elementIsByte initializes
      have hiff := refused_iff hrun (by rintro xs ⟨⟩; exact Nat.two_pow_pos 31)
      exact hiff
  | collection type container =>
      have hrun := collectionContainer_of_neg limit controls container hcount initializes
      have hfew : ∀ xs, (if initializes then some [] else container.map Collection.items)
          = some xs → xs.length < 2 ^ 31 := by
        intro xs h
        cases initializes with
        | true =>
            cases h
            exact Nat.two_pow_pos 31
        | false =>
            obtain ⟨c, -, rfl⟩ := Option.map_eq_some_iff.1 h
            exact Nat.lt_of_le_of_lt c.length_le type.maxCount_lt
      have hiff := refused_iff hrun hfew
      exact hiff

/-- A field ends with the elements of the payload, in order and nothing else, or the
    deserialization throws if the payload is truncated. -/
theorem container_givesAll_iff (controls : DeserializerControls) (payload : Payload ε α)
    (destination : Destination limit α) (initializes : Bool) :
    GivesAll payload.elements some (destination.container controls payload initializes) ↔
      destination.Suits controls payload initializes := by
  unfold Destination.Suits
  cases hall : payload.elements.all with
  | ok xs =>
      rw [GivesAll.of_ok hall]
      dsimp only
      by_cases hcount : 0 ≤ payload.count
      · rw [Destination.container_iff hcount hall]
        exact (and_iff_right hcount).symm
      · have hneg : payload.count < 0 := by
          rw [Int32.lt_iff_toInt_lt]
          rw [Int32.le_iff_toInt_le] at hcount
          omega
        refine ⟨fun h => ?_, fun h => absurd h.1 hcount⟩
        have hlt := (Destination.container_of_neg hneg initializes).2 xs h
        cases hdeclared : payload.declared with
        | none =>
            have hzero : payload.count = 0 := by rw [Payload.count, hdeclared]
            rw [hzero] at hneg
            exact absurd hneg (by decide)
        | some n =>
            have hlength := payload.length_of_all hdeclared hall
            rw [if_pos hneg] at hlength
            omega
  | error e =>
      rw [GivesAll.of_error hall]
      dsimp only
      by_cases hcount : 0 ≤ payload.count
      · exact ⟨fun _ => Or.inl hcount, fun _ => Destination.throws_container hcount hall _⟩
      · have hneg : payload.count < 0 := by
          rw [Int32.lt_iff_toInt_lt]
          rw [Int32.le_iff_toInt_le] at hcount
          omega
        rw [or_iff_right hcount]
        exact (Destination.container_of_neg hneg initializes).1.symm

end

/-- With the default controls the byte 1 ends behind what a list holds already, and does not get
    into an array of bytes that is empty. -/
theorem oneByte_not_given : ∃ (limit : ArrayLimit) (controls : DeserializerControls)
    (payload : Payload (Exception × InputBuffer) UInt8) (list : CollectionType)
    (initial : Collection list UInt8) (array : ManagedArray limit UInt8),
    controls.maxPreallocatedContainerElements = 65536 ∧ payload.elements.all = .ok [1] ∧
    initial.items = [7] ∧ array.items = [] ∧
    ¬ GivesAll payload.elements some
      ((Destination.collection list (some initial) : Destination limit UInt8).container controls
        payload false) ∧
    ¬ GivesAll payload.elements some
      ((Destination.array true (some array)).container controls payload false) := by
  refine ⟨⟨0x7FFFFFC7, by decide⟩, ⟨65536, 67108864, by decide, by decide⟩,
    .ofBuffer (.ofData [1] (by decide)) (by decide) 1, ⟨true, true, 0x7FFFFFC7, by decide⟩,
    ⟨[7], by decide⟩, ⟨[], by decide⟩, rfl, rfl, rfl, rfl, ?_, ?_⟩
  · rw [GivesAll.of_ok rfl]
    intro h
    cases h
  · rw [GivesAll.of_ok rfl]
    intro h
    cases h

end Bond.Cs
