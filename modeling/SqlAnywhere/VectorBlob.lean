import Mathlib.Algebra.Order.Ring.Rat

/-!
# Vectors in blobs

A blob is read as a vector by its length and, where that is odd, by its last byte, which is the type.

* `vectorParseMeta` — the type, the number of dimensions and the size of the data
* `vectorDistanceFunc` — the SQL function of a distance, on two blobs
* `sameKind`, `vectorDistanceFunc_eq_ok` — it does not fail where the two are vectors of one type,
  with as many dimensions
* `vectorSerializeWithMeta`, `serialized_parses` — a vector is read back from the blob it was
  written to
-/

namespace SqlAnywhere.VectorBlob

inductive VectorType
  | float32
  | float64
  | float1bit
  | float8
  | float16
  | floatb16
  deriving DecidableEq

def VectorType.ofByte : UInt8 → Option VectorType
  | 1 => some .float32
  | 2 => some .float64
  | 3 => some .float1bit
  | 4 => some .float8
  | 5 => some .float16
  | 6 => some .floatb16
  | _ => none

inductive VectorError
  | length (type : VectorType) (size : ℕ)
  | binaryType (byte : UInt8)
  | maxSize (dims : ℤ)
  | dataSize (found announced : ℤ)
  | types (type₁ type₂ : VectorType)
  | lengths (dims₁ dims₂ : ℤ)
  deriving DecidableEq

/-- What `vectorParseMeta` finds. -/
structure Meta where
  type : VectorType
  dims : ℤ
  dataSize : ℤ
  deriving DecidableEq

def maxVectorSz : ℤ := 65536

def vectorDataSize : VectorType → ℤ → ℤ
  | .float32, dims => dims * 4
  | .float64, dims => dims * 8
  | .float1bit, dims => (dims + 7).tdiv 8
  | .float8, dims => (dims + 3) / 4 * 4 + 4 + 4
  | .float16, dims => dims * 2
  | .floatb16, dims => dims * 2

/-- A blob of even length is a `float32` vector; the others end with their type. -/
def vectorParseMeta (blob : List UInt8) : Except VectorError Meta :=
  if blob.length % 2 = 0 then
    .ok ⟨.float32, blob.length / 4, blob.length⟩
  else
    let size := blob.length - 1
    let byte := blob.getD size 0
    -- the number of bits or bytes at the end of the data that are not used
    let trailing : ℤ := (blob.getD (size - 1) 0).toNat
    match VectorType.ofByte byte with
    | none => .error (.binaryType byte)
    | some .float32 =>
      if size % 4 ≠ 0 then .error (.length .float32 size) else .ok ⟨.float32, size / 4, size⟩
    | some .float64 =>
      if size % 8 ≠ 0 then .error (.length .float64 size) else .ok ⟨.float64, size / 8, size⟩
    | some .float1bit =>
      if size = 0 ∨ size % 2 ≠ 0 then .error (.length .float1bit size)
      else .ok ⟨.float1bit, size * 8 - trailing, (size * 8 - trailing + 7).tdiv 8⟩
    | some .float8 =>
      if size < 2 ∨ size % 2 ≠ 0 then .error (.length .float8 size)
      else .ok ⟨.float8, (size - 2 : ℤ) - 4 - 4 - trailing, (size - 2 : ℤ)⟩
    | some .float16 =>
      if size % 2 ≠ 0 then .error (.length .float16 size) else .ok ⟨.float16, size / 2, size⟩
    | some .floatb16 =>
      if size % 2 ≠ 0 then .error (.length .floatb16 size) else .ok ⟨.floatb16, size / 2, size⟩

def detectBlobVectorParameters (blob : List UInt8) : Except VectorError Meta :=
  (vectorParseMeta blob).bind fun found =>
    if found.dims > maxVectorSz then .error (.maxSize found.dims) else .ok found

/-- The distance that is computed is a parameter; it has none where it is not a number. -/
def vectorDistanceFunc (vectorDistance : VectorType → List UInt8 → List UInt8 → Option ℚ)
    (blob₁ blob₂ : List UInt8) : Except VectorError (Option ℚ) :=
  match detectBlobVectorParameters blob₁, detectBlobVectorParameters blob₂ with
  | .error e, _ => .error e
  | .ok _, .error e => .error e
  | .ok found₁, .ok found₂ =>
    if found₁.type ≠ found₂.type then .error (.types found₁.type found₂.type)
    else if found₁.dims ≠ found₂.dims then .error (.lengths found₁.dims found₂.dims)
    -- data of another size is an error of the parser that is not looked at
    else .ok (vectorDistance found₁.type blob₁ blob₂)

/-- Two blobs are vectors of one type, with as many dimensions. -/
def sameKind (blob₁ blob₂ : List UInt8) : Bool :=
  match detectBlobVectorParameters blob₁, detectBlobVectorParameters blob₂ with
  | .ok found₁, .ok found₂ =>
    found₁.type = found₂.type ∧ found₁.dims = found₂.dims ∧
      found₁.dataSize = vectorDataSize found₁.type found₁.dims ∧
      found₂.dataSize = vectorDataSize found₂.type found₂.dims
  | _, _ => false

/-- The distance of two blobs that are vectors of one kind, if they have one. -/
def distance? (vectorDistance : VectorType → List UInt8 → List UInt8 → Option ℚ)
    (blob₁ blob₂ : List UInt8) : Option ℚ :=
  if sameKind blob₁ blob₂ then (vectorDistanceFunc vectorDistance blob₁ blob₂).toOption.join else none

variable (vectorDistance : VectorType → List UInt8 → List UInt8 → Option ℚ)
  {blob₁ blob₂ : List UInt8}

/-- **When a distance is computed**: the function does not fail on blobs of one kind. -/
theorem vectorDistanceFunc_eq_ok (h : sameKind blob₁ blob₂ = true) :
    vectorDistanceFunc vectorDistance blob₁ blob₂ =
      .ok (distance? vectorDistance blob₁ blob₂) := by
  rw [distance?, if_pos h]
  unfold vectorDistanceFunc
  unfold sameKind at h
  split at h
  · next heq₁ heq₂ =>
    simp only [decide_eq_true_eq] at h
    simp [heq₁, heq₂, h.1, h.2.1, Except.toOption]
  · cases h

theorem distance?_eq_none (h : sameKind blob₁ blob₂ = false) :
    distance? vectorDistance blob₁ blob₂ = none :=
  if_neg (Bool.eq_false_iff.1 h)

/-! ### Vectors written to blobs -/

/-- `ALIGN(dims, sizeof(float))`. -/
def align (dims : ℕ) : ℕ := (dims + 3) / 4 * 4

/-- A vector in memory.  Its elements are the bytes that `serializeF32` and the like write; those of a
`float8` vector are followed by bytes that are not used and by its two parameters. -/
structure Vector where
  type : VectorType
  dims : ℕ
  data : List UInt8
  dims_le : (dims : ℤ) ≤ maxVectorSz
  size : (data.length : ℤ) = vectorDataSize type dims

/-- The data without the bytes that are not used. -/
def elements (type : VectorType) (dims : ℕ) (data : List UInt8) : List UInt8 :=
  if type = .float8 then data.take dims ++ data.drop (align dims) else data

def VectorType.toByte : VectorType → UInt8
  | .float32 => 1
  | .float64 => 2
  | .float1bit => 3
  | .float8 => 4
  | .float16 => 5
  | .floatb16 => 6

def vectorMetaSize (type : VectorType) (dims : ℕ) : ℕ :=
  match type with
  | .float32 => 0
  | .float64 | .float16 | .floatb16 => 1
  | .float1bit => (if vectorDataSize type dims % 2 = 0 then 1 else 0) + 1 + 1
  | .float8 => 1 + 1 + 1

/-- The bytes of `vectorSerializeMeta`, in a blob of `nBlobSize` bytes. -/
def vectorSerializeMeta (v : Vector) (nBlobSize : ℕ) : List UInt8 :=
  match v.type with
  | .float32 => []
  | .float64 | .float16 | .floatb16 => [v.type.toByte]
  | .float1bit =>
    List.replicate (vectorMetaSize v.type v.dims - 2) 0 ++
      [UInt8.ofNat (8 * (nBlobSize - 1) - v.dims), v.type.toByte]
  | .float8 => [0, UInt8.ofNat (align v.dims - v.dims), v.type.toByte]

/-- `vectorF8SerializeToBlob` does not write the bytes that are not used: they are what the memory
of the blob had in them. -/
def vectorSerializeToBlob (memory : ℕ → UInt8) (v : Vector) : List UInt8 :=
  if v.type = .float8 then
    v.data.take v.dims ++ (List.range (align v.dims - v.dims)).map memory ++
      v.data.drop (align v.dims)
  else v.data

def vectorSerializeWithMeta (memory : ℕ → UInt8) (v : Vector) : List UInt8 :=
  let nBlobSize := (vectorDataSize v.type v.dims).toNat + vectorMetaSize v.type v.dims
  vectorSerializeToBlob memory v ++ vectorSerializeMeta v nBlobSize

/-- The data that is read into a vector that was made with `type` and `dims`. -/
def vectorParseSqliteBlobWithType (type : VectorType) (dims : ℤ) (blob : List UInt8) :
    Except VectorError (List UInt8) :=
  (vectorParseMeta blob).bind fun found =>
    if found.dataSize ≠ vectorDataSize type dims then
      .error (.dataSize found.dataSize (vectorDataSize type dims))
    else .ok (blob.take found.dataSize.toNat)

theorem length_vectorSerializeToBlob (memory : ℕ → UInt8) (v : Vector) :
    ((vectorSerializeToBlob memory v).length : ℤ) = vectorDataSize v.type v.dims := by
  have hsize := v.size
  unfold vectorSerializeToBlob
  split_ifs with htype
  · rw [htype] at hsize ⊢
    simp only [vectorDataSize, align, List.length_append, List.length_take, List.length_map,
      List.length_range, List.length_drop] at hsize ⊢
    omega
  · exact hsize

theorem length_vectorSerializeMeta (v : Vector) (nBlobSize : ℕ) :
    (vectorSerializeMeta v nBlobSize).length = vectorMetaSize v.type v.dims := by
  unfold vectorSerializeMeta
  cases v.type <;> simp [vectorMetaSize]

theorem vectorParseMeta_serialize (memory : ℕ → UInt8) (v : Vector) :
    vectorParseMeta (vectorSerializeWithMeta memory v) =
      .ok ⟨v.type, v.dims, vectorDataSize v.type v.dims⟩ := by
  have hlength := length_vectorSerializeToBlob memory v
  unfold vectorSerializeWithMeta vectorSerializeMeta
  generalize vectorSerializeToBlob memory v = data at *
  cases htype : v.type <;> rw [htype] at hlength <;> simp only [vectorDataSize] at hlength ⊢
  case float32 =>
    rw [vectorParseMeta, if_pos (by rw [List.append_nil]; omega), List.append_nil, hlength]
    simp
  case float64 | float16 | floatb16 =>
    rw [vectorParseMeta, if_neg (by simp; omega)]
    simp [VectorType.toByte, VectorType.ofByte, hlength]
    omega
  case float8 =>
    have halign : (align v.dims - v.dims) % 256 = align v.dims - v.dims := by unfold align; omega
    rw [vectorParseMeta, if_neg (by simp; omega)]
    simp [VectorType.toByte, VectorType.ofByte, hlength]
    rw [if_neg (by omega)]
    unfold align
    congr 2
    omega
  case float1bit =>
    have htdiv : ((v.dims : ℤ) + 7).tdiv 8 = (v.dims + 7) / 8 :=
      Int.tdiv_eq_ediv_of_nonneg (by omega)
    have hmeta : 2 ≤ vectorMetaSize .float1bit v.dims ∧ vectorMetaSize .float1bit v.dims ≤ 3 ∧
        (data.length + vectorMetaSize .float1bit v.dims) % 2 = 1 := by
      rcases Int.emod_two_eq_zero_or_one (((v.dims : ℤ) + 7).tdiv 8) with h | h <;>
        simp only [vectorMetaSize, vectorDataSize, h] <;> simp <;> omega
    generalize vectorMetaSize .float1bit v.dims = size at hmeta ⊢
    rw [htdiv] at hlength ⊢
    rw [vectorParseMeta, if_neg (by simp; omega)]
    simp [VectorType.toByte, VectorType.ofByte]
    have hdims : ((data.length : ℤ) + (↑(size - 2) + 1)) * 8 -
        ↑(8 * (((v.dims + 7 : ℤ) / 8).toNat + size - 1) - v.dims) % 256 = v.dims := by omega
    rw [if_neg (by omega), hdims, htdiv]

/-- **A vector is read back from the blob it was written to**, with its type, its dimensions and the
bytes of its elements, and the blob is as long as was announced. -/
theorem serialized_parses (memory : ℕ → UInt8) (v : Vector) :
    ((vectorSerializeWithMeta memory v).length : ℤ) =
        vectorDataSize v.type v.dims + vectorMetaSize v.type v.dims ∧
      ∃ found data, detectBlobVectorParameters (vectorSerializeWithMeta memory v) = .ok found ∧
        vectorParseSqliteBlobWithType found.type found.dims (vectorSerializeWithMeta memory v) =
          .ok data ∧
        found.type = v.type ∧ found.dims = v.dims ∧
        elements v.type v.dims data = elements v.type v.dims v.data := by
  have hmeta := vectorParseMeta_serialize memory v
  have hlength := length_vectorSerializeToBlob memory v
  have hdims : ¬ (v.dims : ℤ) > maxVectorSz := not_lt.2 v.dims_le
  refine ⟨?_, ⟨v.type, v.dims, vectorDataSize v.type v.dims⟩, vectorSerializeToBlob memory v, ?_, ?_,
    rfl, rfl, ?_⟩
  · rw [vectorSerializeWithMeta, List.length_append, Nat.cast_add, hlength,
      length_vectorSerializeMeta]
  · simp [detectBlobVectorParameters, hmeta, Except.bind, hdims]
  · simp only [vectorParseSqliteBlobWithType, hmeta, Except.bind, ne_eq, not_true_eq_false, if_false]
    rw [vectorSerializeWithMeta, ← hlength, Int.toNat_natCast, List.take_left]
  · unfold elements vectorSerializeToBlob
    split_ifs with htype
    · have hsize := v.size
      rw [htype] at hsize
      simp only [vectorDataSize] at hsize
      have hdata : (v.data.take v.dims).length = v.dims := by rw [List.length_take]; omega
      have hfront : (v.data.take v.dims ++ (List.range (align v.dims - v.dims)).map memory).length =
          align v.dims := by
        simp only [List.length_append, hdata, List.length_map, List.length_range, align]
        omega
      rw [List.drop_left' hfront, List.append_assoc, List.take_left' hdata]
    · rfl

end SqlAnywhere.VectorBlob
