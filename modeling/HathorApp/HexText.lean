import HathorApp.CellArray
import HathorApp.Requests

/-!
Bytes as hexadecimal text. `format_hex` tests the capacity once, before its loop, and writes two characters a byte.
No byte is lost in the text, so that the uid on the screen of a token names the token whose signature is asked for.
-/

namespace HathorApp

open CellArray StreamDecoder TraceRun

/-- The table `hex` of `format_hex`. -/
def hexTable : Bytes := [48, 49, 50, 51, 52, 53, 54, 55, 56, 57, 65, 66, 67, 68, 69, 70]

/-- The loop of `format_hex`, two cells a byte. -/
def formatHexLoop : Bytes → Bytes → Nat → Option (Bytes × Nat)
  | [], out, written => some (out, written)
  | b :: rest, out, written => do
    let highNibble := (b.toNat &&& 0xF0) >>> 4
    let lowNibble := b.toNat &&& 0x0F
    let out ← write out written (hexTable.getD highNibble 0)
    let out ← write out (written + 1) (hexTable.getD lowNibble 0)
    formatHexLoop rest out (written + 2)

/-- `format_hex` in place: what it returns and the array it leaves. -/
def formatHexInPlace (input out : Bytes) (outLen : Nat) : Option (Int × Bytes) :=
  if outLen < 2 * input.length + 1 then some (-1, out)
  else do
    let (out, written) ← formatHexLoop input out 0
    let out ← write out written 0
    return (written + 1, out)

/-- The byte that two upper case digits denote. -/
def readHexDigit (c : UInt8) : Nat := if c.toNat < 58 then c.toNat - 48 else c.toNat - 55

/-- The bytes that a hexadecimal text denotes. -/
def readHex : Bytes → Bytes
  | high :: low :: rest => UInt8.ofNat (16 * readHexDigit high + readHexDigit low) :: readHex rest
  | _ => []

/-- The two characters of a byte, as the table has them. -/
theorem hexTable_nibbles : ∀ n < 256, formatHex [UInt8.ofNat n] =
    [hexTable.getD ((n &&& 0xF0) >>> 4) 0, hexTable.getD (n &&& 0x0F) 0] := by
  decide +kernel

theorem readHexDigit_nibbles : ∀ n < 256,
    16 * readHexDigit (hexTable.getD ((n &&& 0xF0) >>> 4) 0) + readHexDigit (hexTable.getD (n &&& 0x0F) 0) = n := by
  decide +kernel

theorem formatHex_cons (b : UInt8) (rest : Bytes) : formatHex (b :: rest) =
    hexTable.getD ((b.toNat &&& 0xF0) >>> 4) 0 :: hexTable.getD (b.toNat &&& 0x0F) 0 :: formatHex rest := by
  have hbyte := hexTable_nibbles b.toNat b.toNat_lt
  rw [UInt8.ofNat_toNat] at hbyte
  calc
    formatHex (b :: rest) = formatHex [b] ++ formatHex rest := @List.flatMap_append _ _ [b] rest _
    _ = _ := by rw [hbyte, List.cons_append, List.singleton_append]

theorem length_formatHex (input : Bytes) : (formatHex input).length = 2 * input.length := by
  induction input with
  | nil => rfl
  | cons b rest ih =>
      rw [formatHex_cons, List.length_cons, List.length_cons, List.length_cons, ih]
      omega

/-- No byte is lost in the text. -/
theorem readHex_formatHex (input : Bytes) : readHex (formatHex input) = input := by
  induction input with
  | nil => rfl
  | cons b rest ih =>
      rw [formatHex_cons, readHex, ih, readHexDigit_nibbles b.toNat b.toNat_lt, UInt8.ofNat_toNat]

/-- The loop writes the characters behind what is there. -/
theorem formatHexLoop_eq {input done rest : Bytes} (hroom : 2 * input.length ≤ rest.length) :
    formatHexLoop input (done ++ rest) done.length =
      some (done ++ formatHex input ++ rest.drop (2 * input.length), done.length + 2 * input.length) := by
  induction input generalizing done rest with
  | nil => simp [formatHexLoop, formatHex]
  | cons b input ih =>
      rw [List.length_cons] at hroom
      obtain ⟨x, y, rest, rfl⟩ : ∃ x y rest', rest = x :: y :: rest' := by
        cases rest with
        | nil => simp at hroom
        | cons x rest =>
            cases rest with
            | nil =>
                simp only [List.length_cons, List.length_nil] at hroom
                omega
            | cons y rest => exact ⟨x, y, rest, rfl⟩
      rw [List.length_cons, List.length_cons] at hroom
      generalize hhigh : hexTable.getD ((b.toNat &&& 0xF0) >>> 4) 0 = high
      generalize hlow : hexTable.getD (b.toNat &&& 0x0F) 0 = low
      have hwrites : formatHexLoop (b :: input) (done ++ x :: y :: rest) done.length =
          formatHexLoop input (done ++ [high, low] ++ rest) (done ++ [high, low]).length := by
        have hbehind : (done ++ [high]).length = done.length + 1 := List.length_append
        have htwo : (done ++ [high, low]).length = done.length + 2 := List.length_append
        rw [formatHexLoop, hhigh, hlow, write_behind, Option.bind_eq_bind, Option.bind_some, List.append_cons, ← hbehind,
          write_behind, Option.bind_some, htwo, List.append_assoc, List.append_assoc]
        rfl
      have hlength : (done ++ [high, low]).length = done.length + 2 := List.length_append
      rw [hwrites, ih (by omega), formatHex_cons, hhigh, hlow, hlength, List.length_cons, Nat.mul_succ, List.drop_succ_cons,
        List.drop_succ_cons, Nat.add_assoc, Nat.add_comm 2]
      simp

/-- What `format_hex` does for every array: the characters and a NUL with the number of cells written, or -1 and
nothing. -/
theorem formatHexInPlace_eq (input out : Bytes) : formatHexInPlace input out out.length =
    if 2 * input.length + 1 ≤ out.length then
      some (((2 * input.length + 1 : Nat) : Int), formatHex input ++ 0 :: out.drop (2 * input.length + 1))
    else some (-1, out) := by
  unfold formatHexInPlace
  by_cases hfits : 2 * input.length + 1 ≤ out.length
  · have hloop := @formatHexLoop_eq input [] out (by omega)
    have hlast : 2 * input.length < out.length := hfits
    rw [List.nil_append, List.nil_append, List.length_nil, Nat.zero_add] at hloop
    rw [if_neg (by omega), if_pos hfits, hloop, Option.bind_eq_bind, Option.bind_some]
    dsimp only
    have hnul : write (formatHex input ++ out.drop (2 * input.length)) (2 * input.length) 0 =
        some (formatHex input ++ 0 :: out.drop (2 * input.length + 1)) := by
      rw [List.drop_eq_getElem_cons hlast]
      conv_lhs => arg 2; rw [← length_formatHex]
      exact write_behind 0 _
    rw [hnul]
    rfl
  · rw [if_pos (by omega), if_neg hfits]

section Screen

variable {pf : Platform} {h : History Device Event Obs} {d : Device}

/-- While the screen of a token is up, the array `g_token_uid` is filled with the text of the uid of the token that was
sent, whatever was in it before, and it is the text of no other uid. -/
theorem token_screen_uid (run : Run (waitingSystem pf) h d) (hflow : d.flow = .signTokenData) :
    ∃ token, Pending pf h (.tokenSignature token) ∧
      (∀ cells : Bytes, cells.length = 65 → formatHexInPlace token.uid cells 65 = some (65, d.gTokenUid ++ [0])) ∧
      ∀ uid, formatHex uid = d.gTokenUid → uid = token.uid := by
  obtain ⟨request, hpending, hholds⟩ := run_pending run (by rw [hflow]; rfl) (by rw [hflow]; exact id)
  cases request with
  | tokenSignature token =>
      obtain ⟨_, _, _, _, huid⟩ := hholds
      have hlength : token.uid.length = tokenUidLen := by
        obtain ⟨_, _, _, _, _, _, _, cmd, _, _, hrequests, _⟩ := hpending
        cases hrequests with
        | tokenSignature _ parse => exact (parseToken_wellFormed (Nat.le_refl _) parse).uid
      refine ⟨token, hpending, fun cells hcells => ?_, fun uid htext => ?_⟩
      · have hrun := formatHexInPlace_eq token.uid cells
        rw [hcells, hlength, if_pos (by decide), List.drop_eq_nil_of_le (by rw [hcells]; decide)] at hrun
        rw [huid]
        exact hrun
      · rw [← readHex_formatHex uid, htext, huid, readHex_formatHex]
  | xpub => exact absurd (hholds.1.symm.trans hflow) (by decide)
  | address => exact absurd (hholds.1.symm.trans hflow) (by decide)
  | resetTokenSignatures => exact absurd (Eq.trans (Eq.symm hholds) hflow) (by decide)

end Screen

end HathorApp
