import HathorApp.Types

/-! Reading integers, byte strings and derivation paths from a buffer with a cursor: `common/read.c`,
`common/buffer.c` and the path reader of `common/bip32.c`. -/

namespace HathorApp

/-- The byte at an index, as a number. -/
def byteAt (ptr : Bytes) (i : Nat) : Nat := (ptr.getD i 0).toNat

theorem byteAt_lt (ptr : Bytes) (i : Nat) : byteAt ptr i < 256 := (ptr.getD i 0).toNat_lt

theorem byteAt_append_left {a b : Bytes} {i : Nat} (h : i < a.length) :
    byteAt (a ++ b) i = byteAt a i := by
  simp only [byteAt, List.getD_eq_getElem?_getD, List.getElem?_append_left h]

/-! ### `common/read.c`

The shifted bytes occupy disjoint bits, so their bitwise or is their sum. -/

def readU16Be (ptr : Bytes) (offset : Nat) : Nat :=
  byteAt ptr (offset + 0) * 2 ^ 8 + byteAt ptr (offset + 1)

def readU32Be (ptr : Bytes) (offset : Nat) : Nat :=
  byteAt ptr (offset + 0) * 2 ^ 24 + byteAt ptr (offset + 1) * 2 ^ 16 +
    byteAt ptr (offset + 2) * 2 ^ 8 + byteAt ptr (offset + 3)

def readU64Be (ptr : Bytes) (offset : Nat) : Nat :=
  byteAt ptr (offset + 0) * 2 ^ 56 + byteAt ptr (offset + 1) * 2 ^ 48 +
    byteAt ptr (offset + 2) * 2 ^ 40 + byteAt ptr (offset + 3) * 2 ^ 32 +
    byteAt ptr (offset + 4) * 2 ^ 24 + byteAt ptr (offset + 5) * 2 ^ 16 +
    byteAt ptr (offset + 6) * 2 ^ 8 + byteAt ptr (offset + 7)

def readU16Le (ptr : Bytes) (offset : Nat) : Nat :=
  byteAt ptr (offset + 0) + byteAt ptr (offset + 1) * 2 ^ 8

def readU32Le (ptr : Bytes) (offset : Nat) : Nat :=
  byteAt ptr (offset + 0) + byteAt ptr (offset + 1) * 2 ^ 8 +
    byteAt ptr (offset + 2) * 2 ^ 16 + byteAt ptr (offset + 3) * 2 ^ 24

def readU64Le (ptr : Bytes) (offset : Nat) : Nat :=
  byteAt ptr (offset + 0) + byteAt ptr (offset + 1) * 2 ^ 8 +
    byteAt ptr (offset + 2) * 2 ^ 16 + byteAt ptr (offset + 3) * 2 ^ 24 +
    byteAt ptr (offset + 4) * 2 ^ 32 + byteAt ptr (offset + 5) * 2 ^ 40 +
    byteAt ptr (offset + 6) * 2 ^ 48 + byteAt ptr (offset + 7) * 2 ^ 56

/-! ### `common/bip32.c` -/

/-- The levels stored after the length byte. The source tests `offset > in_len` before each level,
which the length test of `bip32PathRead` excludes. -/
def bip32LevelsRead (input : Bytes) (length : Nat) : Bip32Path :=
  (List.range length).map fun i => readU32Be input (1 + 4 * i)

/-- Reads a path into `out`. The levels are stored before they are validated, so a path refused for
one of its levels is left in `out`. -/
def bip32PathRead (input : Bytes) (inLen : Nat) (out : Bip32Path) : Bool × Bip32Path :=
  if inLen < 1 ∨ byteAt input 0 > maxBip32Path ∨ byteAt input 0 * 4 + 1 > inLen then (false, out)
  else
    let path := bip32LevelsRead input (byteAt input 0)
    if path.length > 4 ∧ path.getD 4 0 > maxDerivationIndex then (false, path)
    else if path.length > 3 ∧ path.getD 3 0 > 1 then (false, path)
    else (true, path)

/-- An accepted path is the levels behind the length byte, all of them there. -/
theorem bip32PathRead_levels {input : Bytes} {inLen : Nat} {out path : Bip32Path}
    (h : bip32PathRead input inLen out = (true, path)) :
    path = bip32LevelsRead input (byteAt input 0) ∧ byteAt input 0 ≤ maxBip32Path ∧ 1 + 4 * byteAt input 0 ≤ inLen := by
  unfold bip32PathRead at h
  split at h
  · cases h
  · rename_i hlen
    refine ⟨?_, by omega, by omega⟩
    dsimp only at h
    split at h
    · cases h
    · split at h
      · cases h
      · cases h
        rfl

/-- It has as many levels as the length byte says. -/
theorem bip32PathRead_length {input : Bytes} {inLen : Nat} {out path : Bip32Path}
    (h : bip32PathRead input inLen out = (true, path)) :
    path.length = byteAt input 0 ∧ byteAt input 0 ≤ maxBip32Path ∧ 1 + 4 * byteAt input 0 ≤ inLen := by
  obtain ⟨hpath, hdepth, hroom⟩ := bip32PathRead_levels h
  refine ⟨?_, hdepth, hroom⟩
  rw [hpath, bip32LevelsRead, List.length_map, List.length_range]

/-! ### `common/buffer.c`

The functions return the value of the C function, what it stores through its out parameter and the
buffer after it. The offset never passes the size, where the unsigned difference of the source is the
natural one. -/

/-- `buffer_t`. -/
structure Buffer where
  ptr : Bytes
  size : Nat
  offset : Nat
  deriving DecidableEq, Repr

inductive Endianness where
  | be
  | le
  deriving DecidableEq, Repr

def bufferCanRead (buffer : Buffer) (n : Nat) : Bool := decide (buffer.size - buffer.offset ≥ n)

def bufferSeekSet (buffer : Buffer) (offset : Nat) : Bool × Buffer :=
  if offset > buffer.size then (false, buffer) else (true, { buffer with offset := offset })

/-- The first test is the overflow of a 32-bit `size_t`. -/
def bufferSeekCur (buffer : Buffer) (offset : Nat) : Bool × Buffer :=
  if 2 ^ 32 ≤ buffer.offset + offset ∨ buffer.offset + offset > buffer.size then (false, buffer)
  else (true, { buffer with offset := buffer.offset + offset })

def bufferSeekEnd (buffer : Buffer) (offset : Nat) : Bool × Buffer :=
  if offset > buffer.size then (false, buffer) else (true, { buffer with offset := buffer.size - offset })

def bufferReadU8 (buffer : Buffer) : Bool × Nat × Buffer :=
  if !bufferCanRead buffer 1 then (false, 0, buffer)
  else (true, byteAt buffer.ptr buffer.offset, (bufferSeekCur buffer 1).2)

def bufferReadU16 (buffer : Buffer) (endianness : Endianness) : Bool × Nat × Buffer :=
  if !bufferCanRead buffer 2 then (false, 0, buffer)
  else (true, if endianness = .be then readU16Be buffer.ptr buffer.offset
    else readU16Le buffer.ptr buffer.offset, (bufferSeekCur buffer 2).2)

def bufferReadU32 (buffer : Buffer) (endianness : Endianness) : Bool × Nat × Buffer :=
  if !bufferCanRead buffer 4 then (false, 0, buffer)
  else (true, if endianness = .be then readU32Be buffer.ptr buffer.offset
    else readU32Le buffer.ptr buffer.offset, (bufferSeekCur buffer 4).2)

def bufferReadU64 (buffer : Buffer) (endianness : Endianness) : Bool × Nat × Buffer :=
  if !bufferCanRead buffer 8 then (false, 0, buffer)
  else (true, if endianness = .be then readU64Be buffer.ptr buffer.offset
    else readU64Le buffer.ptr buffer.offset, (bufferSeekCur buffer 8).2)

def bufferReadBip32Path (buffer : Buffer) (out : Bip32Path) : Bool × Bip32Path × Buffer :=
  match bip32PathRead (buffer.ptr.drop buffer.offset) (buffer.size - buffer.offset) out with
  | (false, path) => (false, path, buffer)
  | (true, path) => (true, path, (bufferSeekCur buffer (1 + 4 * path.length)).2)

/-- The bytes copied are the first `len` of `out`; a refusal writes nothing. -/
def bufferReadBytes (buffer : Buffer) (outLen len : Nat) : Option (Bytes × Buffer) :=
  if len > buffer.size - buffer.offset ∨ len > outLen then none
  else some ((buffer.ptr.drop buffer.offset).take len, (bufferSeekCur buffer len).2)

/-- Copies what is left without moving the cursor. -/
def bufferCopy (buffer : Buffer) (outLen : Nat) : Option Bytes :=
  if buffer.size - buffer.offset > outLen then none
  else some ((buffer.ptr.drop buffer.offset).take (buffer.size - buffer.offset))

/-- Copies what is left and seeks by the room there is for it. -/
def bufferMove (buffer : Buffer) (outLen : Nat) : Option (Bytes × Buffer) :=
  match bufferCopy buffer outLen with
  | none => none
  | some out => some (out, (bufferSeekCur buffer outLen).2)

/-- The buffer the dispatcher makes of the data of a command. -/
def Buffer.ofData (data : Bytes) : Buffer := ⟨data, data.length, 0⟩

/-- A buffer over all of some data with the cursor at an offset. -/
def Buffer.at (data : Bytes) (offset : Nat) : Buffer := ⟨data, data.length, offset⟩

theorem Buffer.ofData_eq (data : Bytes) : Buffer.ofData data = Buffer.at data 0 := rfl

theorem bufferSeekCur_at {data : Bytes} {offset n : Nat} (hn : offset + n < 2 ^ 32)
    (hle : offset + n ≤ data.length) :
    bufferSeekCur (.at data offset) n = (true, .at data (offset + n)) := by
  have hno : ¬(2 ^ 32 ≤ offset + n ∨ offset + n > data.length) := by omega
  rw [bufferSeekCur, Buffer.at, if_neg hno, Buffer.at]

/-- A read of some bytes at an offset: nothing when they are not all there, and the cursor behind them. -/
theorem bufferRead_at {α : Type} {data : Bytes} {offset n : Nat} (hpos : 0 < n) (hn : offset + n < 2 ^ 32)
    (none value : α) :
    (if !bufferCanRead (.at data offset) n then (false, none, Buffer.at data offset)
      else (true, value, (bufferSeekCur (.at data offset) n).2)) =
      if data.length < offset + n then (false, none, .at data offset) else (true, value, .at data (offset + n)) := by
  by_cases h : data.length < offset + n
  · have hno : ¬n ≤ data.length - offset := by omega
    rw [if_pos h, if_pos]
    simp [bufferCanRead, Buffer.at, hno]
  · have hyes : n ≤ data.length - offset := by omega
    rw [if_neg h, if_neg, bufferSeekCur_at hn (by omega)]
    simp [bufferCanRead, Buffer.at, hyes]

theorem bufferReadU8_at {data : Bytes} {offset : Nat} (hn : offset + 1 < 2 ^ 32) :
    bufferReadU8 (.at data offset) =
      if data.length < offset + 1 then (false, 0, .at data offset)
      else (true, byteAt data offset, .at data (offset + 1)) :=
  bufferRead_at (by decide) hn _ _

theorem bufferReadU16_at {data : Bytes} {offset : Nat} (hn : offset + 2 < 2 ^ 32) :
    bufferReadU16 (.at data offset) .be =
      if data.length < offset + 2 then (false, 0, .at data offset)
      else (true, readU16Be data offset, .at data (offset + 2)) :=
  bufferRead_at (by decide) hn _ _

theorem bufferReadU32_at {data : Bytes} {offset : Nat} (hn : offset + 4 < 2 ^ 32) :
    bufferReadU32 (.at data offset) .be =
      if data.length < offset + 4 then (false, 0, .at data offset)
      else (true, readU32Be data offset, .at data (offset + 4)) :=
  bufferRead_at (by decide) hn _ _

theorem bufferReadU64_at {data : Bytes} {offset : Nat} (hn : offset + 8 < 2 ^ 32) :
    bufferReadU64 (.at data offset) .be =
      if data.length < offset + 8 then (false, 0, .at data offset)
      else (true, readU64Be data offset, .at data (offset + 8)) :=
  bufferRead_at (by decide) hn _ _

end HathorApp
