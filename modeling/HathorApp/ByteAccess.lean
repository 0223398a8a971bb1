import HathorApp.ByteNumeral
import HathorApp.FixedField

/-!
Integers in byte arrays: the readers of `common/read.c` and the writers of `common/write.c`. A reader and the writer
of the same width and byte order are one field of the array, so they are inverse to one another, leave the rest of the
array alone and do not disturb other fields.
-/

namespace HathorApp

open FixedField

/-! ### `common/write.c`

A write past the end of the array has no result. -/

/-- `(uint8_t)(value >> n)`. -/
def shiftedByte (value n : Nat) : UInt8 := UInt8.ofNat (value / 2 ^ n)

def writeU16Be (ptr : Bytes) (offset value : Nat) : Option Bytes :=
  CellArray.writeAll ptr offset [shiftedByte value 8, shiftedByte value 0]

def writeU32Be (ptr : Bytes) (offset value : Nat) : Option Bytes :=
  CellArray.writeAll ptr offset
    [shiftedByte value 24, shiftedByte value 16, shiftedByte value 8, shiftedByte value 0]

def writeU64Be (ptr : Bytes) (offset value : Nat) : Option Bytes :=
  CellArray.writeAll ptr offset
    [shiftedByte value 56, shiftedByte value 48, shiftedByte value 40, shiftedByte value 32,
      shiftedByte value 24, shiftedByte value 16, shiftedByte value 8, shiftedByte value 0]

def writeU16Le (ptr : Bytes) (offset value : Nat) : Option Bytes :=
  CellArray.writeAll ptr offset [shiftedByte value 0, shiftedByte value 8]

def writeU32Le (ptr : Bytes) (offset value : Nat) : Option Bytes :=
  CellArray.writeAll ptr offset
    [shiftedByte value 0, shiftedByte value 8, shiftedByte value 16, shiftedByte value 24]

def writeU64Le (ptr : Bytes) (offset value : Nat) : Option Bytes :=
  CellArray.writeAll ptr offset
    [shiftedByte value 0, shiftedByte value 8, shiftedByte value 16, shiftedByte value 24,
      shiftedByte value 32, shiftedByte value 40, shiftedByte value 48, shiftedByte value 56]

/-- A number in so many bytes, the most significant one first. -/
def beCodec (k : Nat) : Codec UInt8 Nat where
  width := k
  fits n := n < 256 ^ k
  encode := bytesBe k
  decode := byteValue
  length_encode := length_bytesBe k
  decode_encode _ h := byteValue_bytesBe h
  encode_decode l h := by rw [← h, bytesBe_byteValue]

/-- The bytes of a number, by their shifts. -/
theorem bytesBe_shifted (k n : Nat) : bytesBe k n = (List.range k).reverse.map fun i => shiftedByte n (8 * i) := by
  induction k generalizing n with
  | zero => rfl
  | succ k ih =>
      have hsplit : bytesBe (k + 1) n = bytesBe k (n / 256) ++ [shiftedByte n 0] := by
        have hlast : UInt8.ofNat (n % 256) = UInt8.ofNat n := by
          apply UInt8.toNat_inj.mp
          rw [UInt8.toNat_ofNat', UInt8.toNat_ofNat', Nat.mod_mod]
        rw [bytesBe, PositionalNumeral.lastDigits, List.map_append, List.map_singleton, hlast, shiftedByte, pow_zero,
          Nat.div_one]
        rfl
      have hshift : ∀ i, shiftedByte (n / 256) (8 * i) = shiftedByte n (8 * (i + 1)) := by
        intro i
        have hpow : 256 * 2 ^ (8 * i) = 2 ^ (8 * (i + 1)) := by
          rw [Nat.mul_add_one, Nat.add_comm, pow_add]
          rfl
        rw [shiftedByte, shiftedByte, Nat.div_div_eq_div_mul, hpow]
      rw [hsplit, ih, List.range_succ_eq_map, List.reverse_cons, List.map_append, List.map_singleton, ← List.map_reverse,
        List.map_map]
      congr 1
      exact List.map_congr_left fun i _ => hshift i

/-- The widths of the integers. -/
inductive IntWidth where
  | u16
  | u32
  | u64
  deriving DecidableEq, Repr

def IntWidth.bytes : IntWidth → Nat
  | .u16 => 2
  | .u32 => 4
  | .u64 => 8

/-- The reader of a byte order and a width. -/
def readUint : Endianness → IntWidth → Bytes → Nat → Nat
  | .be, .u16 => readU16Be
  | .be, .u32 => readU32Be
  | .be, .u64 => readU64Be
  | .le, .u16 => readU16Le
  | .le, .u32 => readU32Le
  | .le, .u64 => readU64Le

/-- The writer of a byte order and a width. -/
def writeUint : Endianness → IntWidth → Bytes → Nat → Nat → Option Bytes
  | .be, .u16 => writeU16Be
  | .be, .u32 => writeU32Be
  | .be, .u64 => writeU64Be
  | .le, .u16 => writeU16Le
  | .le, .u32 => writeU32Le
  | .le, .u64 => writeU64Le

/-- The codec of a byte order and a width. -/
def uintCodec (endianness : Endianness) (width : IntWidth) : Codec UInt8 Nat :=
  match endianness with
  | .be => beCodec width.bytes
  | .le => (beCodec width.bytes).reversed

section Access

variable {endianness endianness' : Endianness} {width width' : IntWidth} {ptr ptr' : Bytes} {offset value : Nat}

@[simp] theorem uintCodec_width : (uintCodec endianness width).width = width.bytes := by
  cases endianness <;> rfl

theorem pow_bytes (width : IntWidth) : (256 : Nat) ^ width.bytes = 2 ^ (8 * width.bytes) := by
  rw [show (256 : Nat) = 2 ^ 8 from rfl, ← pow_mul]

theorem uintCodec_fits : (uintCodec endianness width).fits value ↔ value < 2 ^ (8 * width.bytes) := by
  have hcodec : (uintCodec endianness width).fits value ↔ value < 256 ^ width.bytes := by
    cases endianness <;> exact Iff.rfl
  rw [hcodec, pow_bytes]

/-- What does not fit the width is cut off. -/
theorem uintCodec_encode_mod :
    (uintCodec endianness width).encode (value % 2 ^ (8 * width.bytes)) = (uintCodec endianness width).encode value := by
  rw [← pow_bytes]
  cases endianness with
  | be => exact bytesBe_mod _ _
  | le => exact congrArg List.reverse (bytesBe_mod _ _)

/-- The writers store. -/
theorem writeUint_eq_store : writeUint endianness width ptr offset value =
    (uintCodec endianness width).store ptr offset value := by
  have hencode : ∀ k, (beCodec k).encode value = (List.range k).reverse.map fun i => shiftedByte value (8 * i) :=
    fun k => bytesBe_shifted k value
  have hreversed : ∀ k, (beCodec k).reversed.encode value = (List.range k).map fun i => shiftedByte value (8 * i) := by
    intro k
    show ((beCodec k).encode value).reverse = _
    rw [hencode, List.map_reverse, List.reverse_reverse]
  unfold Codec.store
  cases endianness with
  | be =>
      show _ = CellArray.writeAll ptr offset ((beCodec width.bytes).encode value)
      rw [hencode]
      cases width <;> rfl
  | le =>
      show _ = CellArray.writeAll ptr offset ((beCodec width.bytes).reversed.encode value)
      rw [hreversed]
      cases width <;> rfl

/-- The readers load. -/
theorem readUint_eq_load (h : offset + width.bytes ≤ ptr.length) :
    readUint endianness width ptr offset = (uintCodec endianness width).load ptr offset := by
  cases endianness with
  | be =>
      cases width with
      | u16 => exact readU16Be_eq h
      | u32 => exact readU32Be_eq h
      | u64 => exact readU64Be_eq h
  | le =>
      cases width with
      | u16 => exact readU16Le_eq h
      | u32 => exact readU32Le_eq h
      | u64 => exact readU64Le_eq h

/-- The number whose bytes are those of another backwards. -/
def byteSwap (k n : Nat) : Nat := byteValue (bytesBe k n).reverse

def Endianness.other : Endianness → Endianness
  | .be => .le
  | .le => .be

/-- What is written is read back, and swapped by the reader of the other byte order. -/
theorem load_overwrite_swapped (h : offset + width.bytes ≤ ptr.length) :
    (uintCodec endianness.other width).load (overwrite ptr offset ((uintCodec endianness width).encode value)) offset =
      byteSwap width.bytes value := by
  have hlength := (uintCodec endianness width).length_encode value
  rw [uintCodec_width] at hlength
  have hroom : offset + ((uintCodec endianness width).encode value).length ≤ ptr.length := by
    rw [hlength]
    exact h
  have hsegment := segment_overwrite hroom
  rw [hlength] at hsegment
  have hload : ((uintCodec endianness.other width).load
      (overwrite ptr offset ((uintCodec endianness width).encode value)) offset) =
        (uintCodec endianness.other width).decode ((uintCodec endianness width).encode value) := by
    rw [Codec.load, uintCodec_width, hsegment]
  rw [hload]
  cases endianness with
  | be => rfl
  | le => rfl

/-- What a write does to the fields of an array: its own, which gets the value modulo its width, and those that do not
overlap it. -/
structure WritesField (endianness : Endianness) (width : IntWidth) (ptr : Bytes) (offset value : Nat) (ptr' : Bytes) : Prop where
  length : ptr'.length = ptr.length
  reads : readUint endianness width ptr' offset = value % 2 ^ (8 * width.bytes)
  swapped : readUint endianness.other width ptr' offset = byteSwap width.bytes (value % 2 ^ (8 * width.bytes))
  unchanged : ∀ i, i < offset ∨ offset + width.bytes ≤ i → ptr'[i]? = ptr[i]?
  again : ∀ value', writeUint endianness width ptr' offset value' = writeUint endianness width ptr offset value'
  elsewhere : ∀ endianness' width' place, place + width'.bytes ≤ ptr.length →
    place + width'.bytes ≤ offset ∨ offset + width.bytes ≤ place →
      readUint endianness' width' ptr' place = readUint endianness' width' ptr place ∧
      ∀ value', writeUint endianness' width' ptr' place value' =
        (writeUint endianness' width' ptr place value').bind fun ptr₁ => writeUint endianness width ptr₁ offset value

theorem writesField_overwrite (h : offset + width.bytes ≤ ptr.length) :
    WritesField endianness width ptr offset value (overwrite ptr offset ((uintCodec endianness width).encode value)) := by
  have hfield : offset + (uintCodec endianness width).width ≤ ptr.length := by rwa [uintCodec_width]
  have hencode := (uintCodec endianness width).length_encode value
  have hsegment : offset + ((uintCodec endianness width).encode value).length ≤ ptr.length := by rwa [hencode]
  have hlength := length_overwrite hsegment
  have hfits : value % 2 ^ (8 * width.bytes) < 2 ^ (8 * width.bytes) := Nat.mod_lt _ (Nat.two_pow_pos _)
  refine ⟨hlength, ?_, ?_, fun i hi => ?_, fun value' => ?_,
    fun endianness' width' place hplace hdisjoint => ⟨?_, fun value' => ?_⟩⟩
  · rw [readUint_eq_load (by omega), ← uintCodec_encode_mod, Codec.load_overwrite hfield (uintCodec_fits.mpr hfits)]
  · rw [readUint_eq_load (by omega), ← uintCodec_encode_mod, load_overwrite_swapped h]
  · rw [getElem?_overwrite hsegment, hencode, uintCodec_width, if_neg (by omega)]
  · rw [writeUint_eq_store, writeUint_eq_store, Codec.store_store hfield]
  · rw [readUint_eq_load (by omega), readUint_eq_load hplace, Codec.load_overwrite_of_disjoint hfield]
    rw [uintCodec_width, uintCodec_width]
    exact hdisjoint
  · have hplace' : place + (uintCodec endianness' width').width ≤ ptr.length := by rwa [uintCodec_width]
    rw [writeUint_eq_store, writeUint_eq_store, Codec.store_of_fits hplace', Option.bind_some, writeUint_eq_store,
      Codec.store_comm hfield _ hplace']
    rw [uintCodec_width, uintCodec_width]
    exact hdisjoint

/-- A writer writes its field, or there is no room for it; writing what is read changes nothing. -/
theorem writeUint_law :
    (writeUint endianness width ptr offset value = none ↔ ptr.length < offset + width.bytes) ∧
      (∀ ptr', writeUint endianness width ptr offset value = some ptr' → WritesField endianness width ptr offset value ptr') ∧
      (offset + width.bytes ≤ ptr.length →
        writeUint endianness width ptr offset (readUint endianness width ptr offset) = some ptr) := by
  have hwidth : 0 < (uintCodec endianness width).width := by
    rw [uintCodec_width]
    cases width <;> decide
  have hnone : (uintCodec endianness width).store ptr offset value = none ↔ ptr.length < offset + width.bytes :=
    uintCodec_width ▸ Codec.store_eq_none_iff hwidth
  refine ⟨?_, fun ptr' hwrite => ?_, fun h => ?_⟩
  · rw [writeUint_eq_store]
    exact hnone
  · rw [writeUint_eq_store] at hwrite
    obtain ⟨hroom, rfl⟩ := Codec.fits_of_store hwidth hwrite
    rw [uintCodec_width] at hroom
    exact writesField_overwrite hroom
  · have hfield : offset + (uintCodec endianness width).width ≤ ptr.length := by rwa [uintCodec_width]
    rw [readUint_eq_load h, writeUint_eq_store, Codec.store_load hfield]

end Access

/-- The low two bytes of a number go into the middle of four. -/
example : writeUint .be .u16 [1, 2, 3, 4] 1 0x050107 = some [1, 1, 7, 4] := by decide

end HathorApp
