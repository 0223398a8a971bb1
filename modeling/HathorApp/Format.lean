import HathorApp.CellArray
import HathorApp.PositionalNumeral
import HathorApp.Types
import Mathlib.Data.List.TakeWhile

/-!
The text the screens show: `common/format.c`, `common/base58.c` and `bip32_path_format` of
`common/bip32.c`. A text is the bytes of a C string. A function that writes its buffer from the first
cell on returns the cells it wrote, the terminating NUL included. Where every write matters, the array of
the caller is written in place, and `none` is a write outside it.
-/

namespace HathorApp

/-- The bytes of a character array up to its first NUL. -/
def cString (cells : Bytes) : Bytes := cells.takeWhile (· ≠ 0)

theorem cString_append_nul (text rest : Bytes) : cString (text ++ 0 :: rest) = cString text := by
  unfold cString
  induction text with
  | nil => rfl
  | cons c text ih =>
      simp only [List.cons_append, List.takeWhile_cons]
      rw [ih]

theorem zero_not_mem_cString (cells : Bytes) : 0 ∉ cString cells := by
  intro hmem
  simpa using List.mem_takeWhile_imp hmem

/-- A text without a NUL is the whole string. -/
theorem cString_eq_self {text : Bytes} (h : 0 ∉ text) : cString text = text := by
  apply List.takeWhile_eq_self_iff.mpr
  intro c hc
  apply decide_eq_true
  rintro rfl
  exact h hc

/-- The character of a decimal digit. -/
def digitChar (d : Nat) : UInt8 := UInt8.ofNat (d + 48)

/-! ### `common/format.c` -/

/-- The digit loop of `format_u64`: digits are appended in reverse and the capacity is tested after
each. `fuel` is a bound on the number of digits. -/
def formatU64Loop (outLen : Nat) : Nat → Bytes → Nat → Bool × Bytes
  | 0, out, _ => (false, out)
  | fuel + 1, out, n =>
    if n > 9 then
      let out' := out ++ [digitChar (n % 10)]
      if out'.length + 1 > outLen then (false, out') else formatU64Loop outLen fuel out' (n / 10)
    else (true, out ++ [digitChar n])

/-- `format_u64`: the cells written to `out`, in order once the digits are reversed. -/
def formatU64 (outLen : Nat) (n : Nat) : Bool × Bytes :=
  if outLen = 0 then (false, [])
  else
    match formatU64Loop (outLen - 1) 21 [] n with
    | (false, out) => (false, out)
    | (true, out) => (true, out.reverse ++ [0])

/-- The digit loop of `format_u64` in place, from cell `i` on: whether it came to the last digit, with the
array, the index and the number it leaves. A loop still running after `fuel` steps has no result. -/
def formatU64Digits (outLen : Nat) : Nat → Bytes → Nat → Nat → Option (Bool × Bytes × Nat × Nat)
  | 0, _, _, _ => none
  | fuel + 1, out, i, n =>
    if n > 9 then
      match CellArray.write out i (digitChar (n % 10)) with
      | none => none
      | some out =>
        if i + 1 + 1 > outLen then some (false, out, i + 1, n / 10)
        else formatU64Digits outLen fuel out (i + 1) (n / 10)
    else some (true, out, i, n)

/-- `format_u64` in place: what it returns and the array it leaves. -/
def formatU64InPlace (out : Bytes) (outLen n : Nat) : Option (Bool × Bytes) :=
  if outLen = 0 then some (false, out)
  else
    match formatU64Digits (outLen - 1) 21 out 0 n with
    | none => none
    | some (false, out, _, _) => some (false, out)
    | some (true, out, i, n) => do
      let out ← CellArray.write out i (digitChar n)
      let out ← CellArray.write out (i + 1) 0
      let out ← CellArray.swapInwards out 0 i
      return (true, out)

/-- `strncpy`: at most `n` characters, and NULs up to `n` behind a shorter string. -/
def strncpy (dst : Bytes) (i : Nat) (src : Bytes) (n : Nat) : Option Bytes :=
  CellArray.writeAll dst i (src.take n ++ List.replicate (n - src.length) 0)

/-- `format_fpu64` in place: what it returns and the array it leaves. -/
def formatFpu64 (dst : Bytes) (dstLen value decimals : Nat) : Option (Bool × Bytes) :=
  match formatU64InPlace (List.replicate 21 0) 21 value with
  | none => none
  | some (false, _) => some (false, dst)
  | some (true, cells) =>
    let buffer := cString cells
    let digits := buffer.length
    if digits ≤ decimals then
      if dstLen ≤ 2 + decimals - digits then some (false, dst)
      else do
        let dst ← CellArray.writeAll dst 0 (48 :: 46 :: List.replicate (decimals - digits) 48)
        let dst ← strncpy dst (2 + (decimals - digits)) buffer (dstLen - (2 + decimals - digits))
        return (true, dst)
    else if dstLen ≤ digits + 1 + decimals then some (false, dst)
    else do
      let shift := digits - decimals
      let dst ← CellArray.writeAll dst 0 (buffer.take shift)
      let dst ← CellArray.write dst shift 46
      let dst ← strncpy dst (shift + 1) (buffer.drop shift) decimals
      return (true, dst)

/-- The comma loop of `format_value`. -/
def formatValueLoop : Bytes → Nat → Bytes
  | [], _ => []
  | p :: rest, c =>
    let next := formatValueLoop rest ((c + 1) % 3)
    if c = 1 then p :: 44 :: next else p :: next

/-- The digit table of `itoa`: `z` to `a`, `9` to `0`, `1` to `9`, `a` to `z`, and the NUL of the string literal. -/
def itoaTable : Bytes :=
  ((List.range 26).map fun i => UInt8.ofNat (122 - i)) ++
    ((List.range 10).map fun i => UInt8.ofNat (57 - i)) ++
    ((List.range 9).map fun i => UInt8.ofNat (49 + i)) ++
    ((List.range 26).map fun i => UInt8.ofNat (97 + i)) ++ [0]

/-- The division loop of `itoa`: the digits from the last on and the last value before zero. `none`
is a division by zero, an index outside the digit table, or a loop still running after `fuel` steps. -/
def itoaLoop (base : Int) : Nat → Int → Option (Bytes × Int)
  | 0, _ => none
  | fuel + 1, tmpValue =>
    if base = 0 then none
    else
      let value := tmpValue.tdiv base
      let i := 35 + (tmpValue - value * base)
      if i < 0 ∨ 72 ≤ i then none
      else
        let digit := itoaTable.getD i.toNat 0
        if value = 0 then some ([digit], tmpValue)
        else
          match itoaLoop base fuel value with
          | none => none
          | some (rest, last) => some (digit :: rest, last)

/-- `itoa`. The base test of the source only stores an empty string, which the loop overwrites. -/
def itoa (value base : Int) : Option Bytes :=
  match itoaLoop base 33 value with
  | none => none
  | some (digits, last) => some ((if last < 0 then digits ++ [45] else digits).reverse)

/-- The text `format_value` ends with: the last comma is overwritten by the end of the string, where the
decimal point goes. -/
def formatValue (value : Nat) : Bytes :=
  let buf := cString (formatU64 35 (value / 100)).2
  let out := (formatValueLoop buf (2 - buf.length % 3)).dropLast ++ [46]
  let out := if value % 100 < 10 then out ++ [48] else out
  out ++ (itoa (value % 100 : Nat) 10).getD []

/-! The writes of `format_value` into the array of its caller, one after the other. `none` is a write
outside the array. -/

/-- The comma loop, with the cursor after it. -/
def formatValueIntoLoop : Bytes → Nat → Bytes → Nat → Option (Bytes × Nat)
  | [], _, cells, out => some (cells, out)
  | p :: rest, c, cells, out =>
    match CellArray.write cells out p with
    | none => none
    | some cells =>
      if c = 1 then
        match CellArray.write cells (out + 1) 44 with
        | none => none
        | some cells => formatValueIntoLoop rest ((c + 1) % 3) cells (out + 2)
      else formatValueIntoLoop rest ((c + 1) % 3) cells (out + 1)

/-- `itoa` into an array: the digits from the last on and a NUL, then the digits reversed in place. -/
def itoaInto (cells : Bytes) (i : Nat) (value base : Int) : Option Bytes :=
  match itoaLoop base 33 value with
  | none => none
  | some (digits, last) => do
    let digits := if last < 0 then digits ++ [45] else digits
    let cells ← CellArray.writeAll cells i (digits ++ [0])
    CellArray.writeAll cells i digits.reverse

/-- The division loop of `itoa` in place, from cell `ptr` on: the array, the cell after the last digit and the
last value before zero. -/
def itoaDigits (base : Int) : Nat → Bytes → Nat → Int → Option (Bytes × Nat × Int)
  | 0, _, _, _ => none
  | fuel + 1, cells, ptr, tmpValue =>
    if base = 0 then none
    else
      let value := tmpValue.tdiv base
      let i := 35 + (tmpValue - value * base)
      if i < 0 ∨ 72 ≤ i then none
      else
        match CellArray.write cells ptr (itoaTable.getD i.toNat 0) with
        | none => none
        | some cells =>
          if value = 0 then some (cells, ptr + 1, tmpValue) else itoaDigits base fuel cells (ptr + 1) value

/-- `itoa` in place: the array it leaves after at most `fuel` divisions. A base that is not valid only has an
empty string stored first. -/
def itoaInPlace (fuel : Nat) (result : Bytes) (value base : Int) : Option Bytes := do
  let cells ← (if base < 2 ∨ 36 < base then CellArray.write result 0 0 else some result)
  let (cells, ptr, tmpValue) ← itoaDigits base fuel cells 0 value
  let cells ← (if tmpValue < 0 then CellArray.write cells ptr 45 else some cells)
  let ptr := if tmpValue < 0 then ptr + 1 else ptr
  let cells ← CellArray.write cells ptr 0
  CellArray.swapInwards cells 0 (ptr - 1)

/-- `format_value` into an array from cell `out` on. -/
def formatValueInto (cells : Bytes) (out value : Nat) : Option Bytes := do
  let buf := cString (formatU64 35 (value / 100)).2
  let (cells, out) ← formatValueIntoLoop buf (2 - buf.length % 3) cells out
  let out := out - 1
  let cells ← CellArray.write cells out 0
  let c := out + (cString (cells.drop out)).length
  let cells ← CellArray.write cells c 46
  if value % 100 < 10 then do
    let cells ← CellArray.write cells (c + 1) 48
    itoaInto cells (c + 2) (value % 100 : Nat) 10
  else itoaInto cells (c + 1) (value % 100 : Nat) 10

/-- `format_hex` into a buffer large enough: two upper case digits a byte. -/
def formatHex (input : Bytes) : Bytes :=
  let hex (n : Nat) : UInt8 := UInt8.ofNat (if n < 10 then n + 48 else n + 55)
  input.flatMap fun b => [hex (b.toNat / 16), hex (b.toNat % 16)]

/-! ### `common/base58.c` -/

/-- `BASE58_ALPHABET`. -/
def base58Alphabet : Bytes :=
  [49, 50, 51, 52, 53, 54, 55, 56, 57, 65, 66, 67, 68, 69, 70, 71, 72, 74, 75, 76, 77, 78, 80, 81, 82,
    83, 84, 85, 86, 87, 88, 89, 90, 97, 98, 99, 100, 101, 102, 103, 104, 105, 106, 107, 109, 110, 111,
    112, 113, 114, 115, 116, 117, 118, 119, 120, 121, 122]

/-- `MAX_ENC_INPUT_SIZE`. -/
def maxEncInputSize : Nat := 120

/-- The carry loop of `base58_encode` from cell `j` down. It stops at the first cell not above
`stop_at - 1` that leaves no carry, and returns the buffer with that cell; `none` stands for the
`SIZE_MAX` that `j` wraps to below the first cell. The difference is unsigned, so for `stop_at = 0`,
as for `SIZE_MAX`, no cell is above it. -/
def base58CarryLoop (stopAt : Option Nat) : Nat → Nat → List Nat → List Nat × Option Nat
  | j, carry, buffer =>
    let carry := carry + 256 * buffer.getD j 0
    let buffer := buffer.set j (carry % 58)
    let carry := carry / 58
    let stops : Bool := match stopAt with
      | none => true
      | some 0 => true
      | some (s + 1) => decide (j ≤ s)
    if stops ∧ carry = 0 then (buffer, some j)
    else
      match j with
      | 0 => (buffer, none)
      | j + 1 => base58CarryLoop stopAt j carry buffer

/-- The outer loop of `base58_encode` over the bytes after the leading zeros. -/
def base58EncodeLoop (outputSize : Nat) : Bytes → Option Nat → List Nat → List Nat
  | [], _, buffer => buffer
  | b :: rest, stopAt, buffer =>
    let (buffer, j) := base58CarryLoop stopAt (outputSize - 1) b.toNat buffer
    base58EncodeLoop outputSize rest j buffer

/-- `base58_encode`: the text written to `out`, `none` for the return value -1. -/
def base58Encode (input : Bytes) (outLen : Nat) : Option Bytes :=
  if input.length > maxEncInputSize then none
  else
    let zeroCount := (input.takeWhile (· = 0)).length
    let outputSize := (input.length - zeroCount) * 138 / 100 + 1
    let buffer := base58EncodeLoop outputSize (input.drop zeroCount) (some (outputSize - 1))
      (List.replicate outputSize 0)
    let digits := buffer.dropWhile (· = 0)
    if outLen < zeroCount + digits.length then none
    else some (List.replicate zeroCount (base58Alphabet.getD 0 0) ++
      digits.map fun d => base58Alphabet.getD d 0)

/-- `MAX_DEC_INPUT_SIZE`. -/
def maxDecInputSize : Nat := 164

/-- `BASE58_TABLE`: 0xFF for a character that is not in the alphabet. -/
def base58Table : List Nat :=
  [0xFF, 0xFF, 0xFF, 0xFF, 0xFF, 0xFF, 0xFF, 0xFF, 0xFF, 0xFF, 0xFF, 0xFF,
    0xFF, 0xFF, 0xFF, 0xFF, 0xFF, 0xFF, 0xFF, 0xFF, 0xFF, 0xFF, 0xFF, 0xFF,
    0xFF, 0xFF, 0xFF, 0xFF, 0xFF, 0xFF, 0xFF, 0xFF, 0xFF, 0xFF, 0xFF, 0xFF,
    0xFF, 0xFF, 0xFF, 0xFF, 0xFF, 0xFF, 0xFF, 0xFF, 0xFF, 0xFF, 0xFF, 0xFF,
    0xFF, 0x00, 0x01, 0x02, 0x03, 0x04, 0x05, 0x06, 0x07, 0x08, 0xFF, 0xFF,
    0xFF, 0xFF, 0xFF, 0xFF, 0xFF, 0x09, 0x0A, 0x0B, 0x0C, 0x0D, 0x0E, 0x0F,
    0x10, 0xFF, 0x11, 0x12, 0x13, 0x14, 0x15, 0xFF, 0x16, 0x17, 0x18, 0x19,
    0x1A, 0x1B, 0x1C, 0x1D, 0x1E, 0x1F, 0x20, 0xFF, 0xFF, 0xFF, 0xFF, 0xFF,
    0xFF, 0x21, 0x22, 0x23, 0x24, 0x25, 0x26, 0x27, 0x28, 0x29, 0x2A, 0x2B,
    0xFF, 0x2C, 0x2D, 0x2E, 0x2F, 0x30, 0x31, 0x32, 0x33, 0x34, 0x35, 0x36,
    0x37, 0x38, 0x39, 0xFF, 0xFF, 0xFF, 0xFF, 0xFF]

/-- The digits of the characters, `none` if one is not in the alphabet. -/
def base58Digits : Bytes → Option (List Nat)
  | [] => some []
  | c :: rest =>
    if c.toNat ≥ base58Table.length then none
    else if base58Table.getD c.toNat 0 = 0xFF then none
    else (base58Digits rest).map (base58Table.getD c.toNat 0 :: ·)

/-- The inner loop of `base58_decode`: the quotients of the cells from `start_at` on and the last remainder. -/
def base58DivLoop : Nat → List Nat → List Nat × Nat
  | remainder, [] => ([], remainder)
  | remainder, digit256 :: rest =>
    let tmpDiv := remainder * 58 + digit256
    let (quotients, last) := base58DivLoop (tmpDiv % 256) rest
    (tmpDiv / 256 % 256 :: quotients, last)

/-- The outer loop of `base58_decode` over `tmp` and `buffer`. `none` is a write before the first cell of
`buffer`, or a loop still running after `fuel` steps. -/
def base58DecodeLoop : Nat → List Nat → Nat → List Nat → Nat → Option (List Nat × Nat)
  | 0, _, _, _, _ => none
  | fuel + 1, tmp, startAt, buffer, j =>
    if startAt < tmp.length then
      let (quotients, remainder) := base58DivLoop 0 (tmp.drop startAt)
      let tmp := tmp.take startAt ++ quotients
      let startAt := if tmp.getD startAt 0 = 0 then startAt + 1 else startAt
      if j = 0 then none else base58DecodeLoop fuel tmp startAt (buffer.set (j - 1) remainder) (j - 1)
    else some (buffer, j)

/-- `base58_decode`: the bytes written to `out`, `none` for the return value -1. -/
def base58Decode (input : Bytes) (outLen : Nat) : Option Bytes :=
  if input.length > maxDecInputSize ∨ input.length < 2 then none
  else
    match base58Digits input with
    | none => none
    | some tmp =>
      let zeroCount := (tmp.takeWhile (· = 0)).length
      match base58DecodeLoop (input.length + 1) tmp zeroCount (List.replicate maxDecInputSize 0) input.length with
      | none => none
      | some (buffer, j) =>
        let j := j + (((buffer.take input.length).drop j).takeWhile (· = 0)).length
        let length := input.length - (j - zeroCount)
        if outLen < length then none
        else some (((buffer.drop (j - zeroCount)).take length).map UInt8.ofNat)

/-! ### `bip32_path_format` of `common/bip32.c` -/

/-- The conversion `%d` of a natural number. -/
def decimalText (n : Nat) : Bytes := (PositionalNumeral.numeral 10 n).map digitChar

/-- `snprintf` of a text at a cell: it is cut to the size given and always ends with a NUL. -/
def snprintf (out : Bytes) (offset size : Nat) (text : Bytes) : Option Bytes :=
  if size = 0 then some out else CellArray.writeAll out offset (text.take (size - 1) ++ [0])

/-- One text appended at the offset: the array and the offset after it, or the array of a refusal. -/
def bip32Append (out : Bytes) (outLen offset : Nat) (text : Bytes) : Option (Bytes × Option Nat) := do
  let out ← snprintf out offset (outLen - offset) text
  let written := (cString (out.drop offset)).length
  if written = 0 ∨ written ≥ outLen - offset then return (List.replicate outLen 0, none)
  else return (out, some (offset + written))

/-- The texts appended for a level: its number, an apostrophe if it is hardened, and a separator if it is not
the last. -/
def bip32LevelTexts (level : Nat) (last : Bool) : List Bytes :=
  decimalText (level &&& 0x7FFFFFFF) ::
    ((if level &&& 0x80000000 ≠ 0 then [[39]] else []) ++ if last then [] else [[47]])

/-- Texts appended one after the other, up to the first that is refused. -/
def bip32AppendAll (outLen : Nat) : List Bytes → Bytes → Nat → Option (Bytes × Option Nat)
  | [], out, offset => some (out, some offset)
  | text :: rest, out, offset =>
    match bip32Append out outLen offset text with
    | none => none
    | some (out, none) => some (out, none)
    | some (out, some offset) => bip32AppendAll outLen rest out offset

/-- The loop of `bip32_path_format` over the levels. -/
def bip32FormatLoop (outLen : Nat) : Bip32Path → Bytes → Nat → Option (Bool × Bytes)
  | [], out, _ => some (true, out)
  | level :: rest, out, offset =>
    match bip32AppendAll outLen (bip32LevelTexts level rest.isEmpty) out offset with
    | none => none
    | some (out, none) => some (false, out)
    | some (out, some offset) => bip32FormatLoop outLen rest out offset

/-- `bip32_path_format` in place: what it returns and the array it leaves. -/
def bip32PathFormat (path : Bip32Path) (out : Bytes) (outLen : Nat) : Option (Bool × Bytes) :=
  if path.length = 0 ∨ path.length > maxBip32Path then some (false, out)
  else bip32FormatLoop outLen path out 0

end HathorApp
