import HathorApp.TokenBinding

/-!
The grammar of token data, against `parse_token`. The parser takes the fields of the grammar, but its
test of the text ends at the first NUL of a field, as the strings on the screen do: what follows a NUL
is signed and not shown.
-/

namespace HathorApp

open ProgramLogic

section Fields

variable (l : Bytes)

def tokenSymbolLenAt : Nat := byteAt l 33

def tokenSymbolAt : Bytes := (l.drop 34).take (tokenSymbolLenAt l)

def tokenNameLenAt : Nat := byteAt l (34 + tokenSymbolLenAt l)

def tokenNameAt : Bytes := (l.drop (35 + tokenSymbolLenAt l)).take (tokenNameLenAt l)

/-- Version, uid, two length bytes, symbol and name. -/
def tokenDataLen : Nat := 35 + tokenSymbolLenAt l + tokenNameLenAt l

/-- The bytes begin with the fields of a token, of lengths within the limits. -/
structure IsTokenData : Prop where
  symbolLen : tokenSymbolLenAt l ≤ maxTokenSymbolLen
  nameLen : tokenNameLenAt l ≤ maxTokenNameLen
  complete : tokenDataLen l ≤ l.length

/-- The token the fields say. -/
def tokenAt : Token where
  uid := (l.drop 1).take tokenUidLen
  symbolLen := tokenSymbolLenAt l
  symbol := tokenSymbolAt l
  nameLen := tokenNameLenAt l
  name := tokenNameAt l
  version := byteAt l 0

/-- The documented grammar: a token whose text is printable. -/
structure TokenGrammar : Prop where
  fields : IsTokenData l
  printable : ∀ c ∈ tokenSymbolAt l ++ tokenNameAt l, 0x20 ≤ c ∧ c ≤ 0x7F

end Fields

section Reads

variable {data : Bytes} {offset : Nat}

theorem byteAt_drop (i : Nat) : byteAt (data.drop offset) i = byteAt data (offset + i) := by
  unfold byteAt
  rw [List.getD_eq_getElem?_getD, List.getD_eq_getElem?_getD, List.getElem?_drop]

theorem bufferReadBytes_at {outLen n : Nat} (hsize : data.length < 2 ^ 32) (hoffset : offset ≤ data.length) :
    bufferReadBytes (.at data offset) outLen n =
      if data.length < offset + n ∨ outLen < n then none
      else some ((data.drop offset).take n, .at data (offset + n)) := by
  by_cases h : data.length < offset + n ∨ outLen < n
  · have hshort : n > data.length - offset ∨ n > outLen := by omega
    rw [if_pos h]
    exact if_pos hshort
  · have hfits : ¬(n > data.length - offset ∨ n > outLen) := by omega
    have hread : bufferReadBytes (.at data offset) outLen n =
        some ((data.drop offset).take n, (bufferSeekCur (.at data offset) n).2) := if_neg hfits
    rw [if_neg h, hread, bufferSeekCur_at (by omega) (by omega)]

theorem bufferReadU8_within (hsize : data.length < 2 ^ 32) :
    bufferReadU8 (.at data offset) =
      if data.length < offset + 1 then (false, 0, .at data offset)
      else (true, byteAt data offset, .at data (offset + 1)) := by
  by_cases h : offset + 1 < 2 ^ 32
  · exact bufferReadU8_at h
  · have hno : ¬1 ≤ data.length - offset := by omega
    rw [if_pos (by omega)]
    simp [bufferReadU8, bufferCanRead, Buffer.at, hno]

/-- `parse_token` takes the fields of a token and nothing else. -/
theorem parseToken_at (hsize : data.length < 2 ^ 32) (hoffset : offset ≤ data.length) (token : Token) :
    (IsTokenData (data.drop offset) → parseToken (.at data offset) token =
      (isPrintable (tokenSymbolAt (data.drop offset)) && isPrintable (tokenNameAt (data.drop offset)),
        tokenAt (data.drop offset), .at data (offset + tokenDataLen (data.drop offset)))) ∧
    (¬IsTokenData (data.drop offset) → (parseToken (.at data offset) token).1 = false) := by
  have hlen : (data.drop offset).length = data.length - offset := List.length_drop
  have hn : tokenSymbolLenAt (data.drop offset) = byteAt data (offset + 33) := byteAt_drop 33
  have hk : tokenNameLenAt (data.drop offset) = byteAt data (offset + (34 + byteAt data (offset + 33))) := by
    unfold tokenNameLenAt
    rw [hn, byteAt_drop]
  have hnot : ¬(byteAt data (offset + 33) ≤ maxTokenSymbolLen ∧
      byteAt data (offset + (34 + byteAt data (offset + 33))) ≤ maxTokenNameLen ∧
      offset + (35 + byteAt data (offset + 33) + byteAt data (offset + (34 + byteAt data (offset + 33)))) ≤ data.length) →
      ¬IsTokenData (data.drop offset) := by
    intro hno hfields
    apply hno
    have hcomplete := hfields.complete
    unfold tokenDataLen at hcomplete
    rw [hn, hk, hlen] at hcomplete
    exact ⟨hn ▸ hfields.symbolLen, hk ▸ hfields.nameLen, by omega⟩
  have huid : tokenUidLen = 32 := rfl
  -- a read that fails leaves no token
  have hfail : ∀ {t : Token} {rest : Buffer}, ¬IsTokenData (data.drop offset) →
      (IsTokenData (data.drop offset) → ((false, t, rest) : Bool × Token × Buffer) =
        (isPrintable (tokenSymbolAt (data.drop offset)) && isPrintable (tokenNameAt (data.drop offset)),
          tokenAt (data.drop offset), .at data (offset + tokenDataLen (data.drop offset)))) ∧
      (¬IsTokenData (data.drop offset) → ((false, t, rest) : Bool × Token × Buffer).1 = false) :=
    fun hno => ⟨fun h => absurd h hno, fun _ => rfl⟩
  unfold parseToken
  rw [bufferReadU8_within hsize]
  by_cases h1 : data.length < offset + 1
  · rw [if_pos h1]
    exact hfail (hnot (by omega))
  rw [if_neg h1]
  dsimp only
  rw [bufferReadBytes_at hsize (by omega)]
  by_cases h2 : data.length < offset + 1 + tokenUidLen ∨ tokenUidLen < tokenUidLen
  · rw [if_pos h2]
    exact hfail (hnot (by omega))
  rw [if_neg h2]
  dsimp only
  rw [bufferReadU8_within hsize]
  by_cases h3 : data.length < offset + 1 + tokenUidLen + 1
  · rw [if_pos h3]
    exact hfail (hnot (by omega))
  rw [if_neg h3, show offset + 1 + tokenUidLen = offset + 33 by omega]
  dsimp only
  rw [bufferReadBytes_at hsize (by omega)]
  by_cases h4 : data.length < offset + 33 + 1 + byteAt data (offset + 33) ∨ maxTokenSymbolLen < byteAt data (offset + 33)
  · rw [if_pos h4]
    exact hfail (hnot (by omega))
  rw [if_neg h4]
  dsimp only
  rw [bufferReadU8_within hsize]
  by_cases h5 : data.length < offset + 33 + 1 + byteAt data (offset + 33) + 1
  · rw [if_pos h5]
    exact hfail (hnot (by omega))
  rw [if_neg h5, show offset + 33 + 1 + byteAt data (offset + 33) = offset + (34 + byteAt data (offset + 33)) by omega]
  dsimp only
  rw [bufferReadBytes_at hsize (by omega)]
  by_cases h6 : data.length < offset + (34 + byteAt data (offset + 33)) + 1 +
      byteAt data (offset + (34 + byteAt data (offset + 33))) ∨
      maxTokenNameLen < byteAt data (offset + (34 + byteAt data (offset + 33)))
  · rw [if_pos h6]
    exact hfail (hnot (by omega))
  rw [if_neg h6]
  dsimp only
  have hfields : IsTokenData (data.drop offset) := by
    refine ⟨by omega, by omega, ?_⟩
    unfold tokenDataLen
    omega
  refine ⟨fun _ => ?_, fun hno => absurd hfields hno⟩
  unfold tokenAt tokenSymbolAt tokenNameAt tokenDataLen
  rw [hn, hk, List.drop_drop, List.drop_drop, List.drop_drop,
    show byteAt (data.drop offset) 0 = byteAt data offset from byteAt_drop 0,
    show offset + 33 + 1 = offset + 34 by omega,
    show offset + (34 + byteAt data (offset + 33)) + 1 = offset + (35 + byteAt data (offset + 33)) by omega,
    Nat.add_assoc offset]

theorem parseToken_fst (hsize : data.length < 2 ^ 32) (hoffset : offset ≤ data.length) (token : Token) :
    (parseToken (.at data offset) token).1 = true ↔ IsTokenData (data.drop offset) ∧
      isPrintable (tokenSymbolAt (data.drop offset)) = true ∧ isPrintable (tokenNameAt (data.drop offset)) = true := by
  by_cases hfields : IsTokenData (data.drop offset)
  · rw [(parseToken_at hsize hoffset token).1 hfields, Bool.and_eq_true]
    exact (and_iff_right hfields).symm
  · rw [(parseToken_at hsize hoffset token).2 hfields]
    exact ⟨(fun h => nomatch h), fun h => absurd h.1 hfields⟩

end Reads

/-- `is_printable` looks at the text up to the first NUL. -/
theorem isPrintable_iff (text : Bytes) : isPrintable text = true ↔ ∀ c ∈ cString text, 0x20 ≤ c ∧ c ≤ 0x7F := by
  induction text with
  | nil => exact ⟨fun _ _ h => absurd h List.not_mem_nil, fun _ => rfl⟩
  | cons c text ih =>
      unfold isPrintable
      by_cases hnul : c = 0
      · have hnone : cString (c :: text) = [] := by
          rw [hnul]
          rfl
        rw [if_pos hnul, hnone]
        exact ⟨fun _ _ h => absurd h List.not_mem_nil, fun _ => rfl⟩
      · have hcons : cString (c :: text) = c :: cString text :=
          List.takeWhile_cons_of_pos (by simpa using hnul)
        have hrange : ¬(c < 0x20 ∨ c ≥ 0x80) ↔ 0x20 ≤ c ∧ c ≤ 0x7F := by
          rw [not_or, UInt8.not_lt, ge_iff_le, UInt8.not_le, UInt8.lt_iff_toNat_lt, UInt8.le_iff_toNat_le (b := 0x7F)]
          exact and_congr_right fun _ => Nat.lt_succ_iff
        rw [if_neg hnul, hcons, List.forall_mem_cons, ← ih]
        by_cases hbad : c < 0x20 ∨ c ≥ 0x80
        · rw [if_pos hbad]
          exact ⟨(fun h => nomatch h), fun h => absurd hbad (hrange.mpr h.1)⟩
        · rw [if_neg hbad, and_iff_right (hrange.mp hbad)]

/-- What SIGN_TOKEN_DATA shows of a token it accepts. -/
theorem handlerSignTokenData_shows {cdata rest : Buffer} {token : Token}
    (hparse : parseToken cdata zeroToken = (true, token, rest)) (hwf : token.WellFormed) (d : Device) :
    wp (handlerSignTokenData cdata)
      (fun v d' w => v = 0 ∧ d' = { d with
          gContext := { zeroGlobalCtx with token := token }
          gTokenSymbol := cString token.symbol
          gTokenName := cString token.name
          gTokenUid := formatHex token.uid
          gValidateCallback := some .uiActionSignTokenData
          flow := .signTokenData } ∧ w = [.display d'.screen])
      (fun _ _ _ => False) False d := by
  have hlens : ¬(token.symbolLen > maxTokenSymbolLen ∨ token.nameLen > maxTokenNameLen) :=
    not_or.mpr ⟨Nat.not_lt.mpr hwf.symbolLen, Nat.not_lt.mpr hwf.nameLen⟩
  have hsymbol : token.symbol.take token.symbolLen = token.symbol := by rw [← hwf.symbol, List.take_length]
  have hname : token.name.take token.nameLen = token.name := by rw [← hwf.name, List.take_length]
  unfold handlerSignTokenData uiDisplaySignTokenData
  rw [hparse]
  simp only [wp_bind, wp_modify, if_true, wp_get, hlens, if_false, wp_askUser, wp_pure, hsymbol, hname]
  exact ⟨trivial, rfl, rfl⟩

/-- The parser and the screen go by the grammar at this place of some data: what is accepted is a token
with printable text, the cursor is moved behind it, and all of its text is shown. -/
structure GoesByGrammar (data : Bytes) (offset : Nat) : Prop where
  accepts : (parseToken (.at data offset) zeroToken).1 = true ↔ TokenGrammar (data.drop offset)
  consumes : ∀ token rest, parseToken (.at data offset) zeroToken = (true, token, rest) →
    rest = .at data (offset + (35 + token.symbolLen + token.nameLen))
  shows : ∀ token rest, parseToken (.at data offset) zeroToken = (true, token, rest) →
    ∀ d v d' w, handlerSignTokenData (.at data offset) d = .ret v d' w →
      d'.gTokenSymbol.length = token.symbolLen ∧ d'.gTokenName.length = token.nameLen

/-- A token whose text passes the test of the parser and has a NUL in it. -/
def HidesText (l : Bytes) : Prop :=
  IsTokenData l ∧ isPrintable (tokenSymbolAt l) = true ∧ isPrintable (tokenNameAt l) = true ∧
    0 ∈ tokenSymbolAt l ++ tokenNameAt l

/-- A text that passes the test and has no NUL is printable. -/
theorem printable_of_isPrintable {symbol name : Bytes} (hsymbol : isPrintable symbol = true)
    (hname : isPrintable name = true) (hnul : 0 ∉ symbol ++ name) : ∀ c ∈ symbol ++ name, 0x20 ≤ c ∧ c ≤ 0x7F := by
  rw [List.mem_append, not_or] at hnul
  rw [isPrintable_iff, cString_eq_self hnul.1] at hsymbol
  rw [isPrintable_iff, cString_eq_self hnul.2] at hname
  exact List.forall_mem_append.mpr ⟨hsymbol, hname⟩

theorem isPrintable_of_printable {text : Bytes} (h : ∀ c ∈ text, 0x20 ≤ c ∧ c ≤ 0x7F) : isPrintable text = true := by
  apply (isPrintable_iff text).mpr
  intro c hc
  exact h c ((List.takeWhile_sublist _).mem hc)

theorem zero_not_mem_of_printable {text : Bytes} (h : ∀ c ∈ text, 0x20 ≤ c ∧ c ≤ 0x7F) : 0 ∉ text := by
  intro hmem
  exact absurd (h 0 hmem).1 (by decide)

/-- The parser and the screen go by the grammar unless the text of a token has a NUL behind which
nothing is tested and nothing shown. -/
theorem goesByGrammar_iff {data : Bytes} {offset : Nat} (hsize : data.length < 2 ^ 32)
    (hoffset : offset ≤ data.length) : GoesByGrammar data offset ↔ ¬HidesText (data.drop offset) := by
  have haccepts := parseToken_fst hsize hoffset zeroToken
  constructor
  · rintro hgoes ⟨hfields, hsymbol, hname, hnul⟩
    have hgrammar := hgoes.accepts.mp (haccepts.mpr ⟨hfields, hsymbol, hname⟩)
    exact zero_not_mem_of_printable hgrammar.printable hnul
  · intro hhides
    have hparsed : ∀ token rest, parseToken (.at data offset) zeroToken = (true, token, rest) →
        TokenGrammar (data.drop offset) ∧ token = tokenAt (data.drop offset) ∧
          rest = .at data (offset + tokenDataLen (data.drop offset)) := by
      intro token rest hparse
      have haccepted : (parseToken (.at data offset) zeroToken).1 = true := by rw [hparse]
      obtain ⟨hfields, hsymbol, hname⟩ := haccepts.mp haccepted
      have hparse' := (parseToken_at hsize hoffset zeroToken).1 hfields
      rw [hparse, Prod.mk.injEq, Prod.mk.injEq] at hparse'
      refine ⟨⟨hfields, printable_of_isPrintable hsymbol hname fun hnul => ?_⟩, hparse'.2⟩
      exact hhides ⟨hfields, hsymbol, hname, hnul⟩
    refine ⟨⟨fun h => ?_, fun h => ?_⟩, ?_, ?_⟩
    · obtain ⟨hgrammar, _⟩ := hparsed _ _ (Prod.ext h rfl)
      exact hgrammar
    · have hprintable := List.forall_mem_append.mp h.printable
      exact haccepts.mpr ⟨h.fields, isPrintable_of_printable hprintable.1, isPrintable_of_printable hprintable.2⟩
    · intro token rest hparse
      obtain ⟨_, rfl, rfl⟩ := hparsed token rest hparse
      rfl
    · intro token rest hparse d v d' w hret
      obtain ⟨hgrammar, htoken, _⟩ := hparsed token rest hparse
      have hwf := parseToken_wellFormed (Nat.le_refl data.length) hparse
      have hshows := handlerSignTokenData_shows hparse hwf d
      rw [wp_of_ret hret] at hshows
      have hnul := zero_not_mem_of_printable hgrammar.printable
      rw [List.mem_append, not_or] at hnul
      have hsymbol : token.symbol = tokenSymbolAt (data.drop offset) := congrArg Token.symbol htoken
      have hname : token.name = tokenNameAt (data.drop offset) := congrArg Token.name htoken
      rw [hshows.2.1]
      dsimp only
      rw [hsymbol, hname, cString_eq_self hnul.1, cString_eq_self hnul.2, ← hsymbol, ← hname]
      exact ⟨hwf.symbol, hwf.name⟩

/-- `AB` named `C`. -/
theorem goesByGrammar_iff_name :
    GoesByGrammar (tokenData [65, 66] [67]) 0 ↔ ¬HidesText ((tokenData [65, 66] [67]).drop 0) :=
  goesByGrammar_iff (by decide) (by decide)

/-- A symbol of an `A`, a NUL and a control character is accepted, and an `A` is shown. -/
theorem hidden_text_accepted :
    (parseToken (.at (tokenData [65, 0, 7] [67]) 0) zeroToken).1 = true ∧
      ¬TokenGrammar (tokenData [65, 0, 7] [67]) ∧ ¬GoesByGrammar (tokenData [65, 0, 7] [67]) 0 := by
  have haccepted : (parseToken (.at (tokenData [65, 0, 7] [67]) 0) zeroToken).1 = true := by decide
  have hgrammar : ¬TokenGrammar (tokenData [65, 0, 7] [67]) := by
    intro h
    exact absurd (h.printable 7 (by decide)).1 (by decide)
  exact ⟨haccepted, hgrammar, fun h => hgrammar (h.accepts.mp haccepted)⟩

end HathorApp
