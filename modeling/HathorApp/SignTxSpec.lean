import HathorApp.CommandSpec

/-!
What a SIGN_TX command does. The first data command starts a session: it reads the change list and the
header, and hashes everything from the header on. Every data command appends its chunk to the decode
buffer, decodes, and then rejects the transaction, asks for more data or shows the first output. A sign
command computes the digest when it is not in place yet, and signs it.
-/

namespace HathorApp

open ProgramLogic StreamDecoder

theorem bufferReadBip32Path_at {data : Bytes} {offset : Nat} {out path : Bip32Path} {rest : Buffer}
    (hsmall : data.length < 2 ^ 31) (hoffset : offset ≤ data.length)
    (h : bufferReadBip32Path (.at data offset) out = (true, path, rest)) :
    rest = .at data (offset + (1 + 4 * path.length)) ∧ offset + (1 + 4 * path.length) ≤ data.length := by
  unfold bufferReadBip32Path at h
  split at h
  · cases h
  · rename_i path' hread
    simp only [Prod.mk.injEq, true_and] at h
    obtain ⟨rfl, rfl⟩ := h
    obtain ⟨hcount, _, hroom⟩ := bip32PathRead_length hread
    simp only [Buffer.at] at hcount hroom
    rw [bufferSeekCur_at (by omega) (by omega)]
    exact ⟨rfl, by omega⟩

/-- What the path reader accepts: at most five levels, the fourth a change level of 0 or 1, the fifth an
index within bounds. -/
structure Bip32Path.WellFormed (path : Bip32Path) : Prop where
  depth : path.length ≤ maxBip32Path
  change : 3 < path.length → path.getD 3 0 ≤ 1
  index : 4 < path.length → path.getD 4 0 ≤ maxDerivationIndex

theorem wellFormed_nil : Bip32Path.WellFormed [] := ⟨Nat.zero_le _, nofun, nofun⟩

theorem bip32PathRead_wellFormed {input : Bytes} {inLen : Nat} {out path : Bip32Path}
    (h : bip32PathRead input inLen out = (true, path)) : path.WellFormed := by
  unfold bip32PathRead at h
  split at h
  · cases h
  · rename_i hlen
    dsimp only at h
    split at h
    · cases h
    · rename_i hindex
      split at h
      · cases h
      · rename_i hchange
        cases h
        rw [not_or, not_or] at hlen
        refine ⟨?_, fun h => ?_, fun h => ?_⟩
        · rw [bip32LevelsRead, List.length_map, List.length_range]
          omega
        · exact Nat.not_lt.mp fun hgt => hchange ⟨h, hgt⟩
        · exact Nat.not_lt.mp fun hgt => hindex ⟨h, hgt⟩

theorem bufferReadBip32Path_wellFormed {buffer rest : Buffer} {out path : Bip32Path}
    (h : bufferReadBip32Path buffer out = (true, path, rest)) : path.WellFormed := by
  unfold bufferReadBip32Path at h
  split at h
  · cases h
  · rename_i path' hread
    cases h
    exact bip32PathRead_wellFormed hread

/-- The entries of a change list below an index have paths that were accepted. -/
def PathsBelow (changeInfo : List ChangeOutputInfo) (n : Nat) : Prop :=
  ∀ k < n, (changeInfo.getD k ⟨0, []⟩).path.WellFormed

theorem PathsBelow.set {changeInfo : List ChangeOutputInfo} {n : Nat} (h : PathsBelow changeInfo n)
    {info : ChangeOutputInfo} (hinfo : info.path.WellFormed) : PathsBelow (changeInfo.set n info) (n + 1) := by
  intro k hk
  rw [List.getD_eq_getElem?_getD, List.getElem?_set]
  split
  · split
    · exact hinfo
    · exact wellFormed_nil
  · rw [← List.getD_eq_getElem?_getD]
    exact h k (by omega)

theorem PathsBelow.mem {changeInfo : List ChangeOutputInfo} {n : Nat} (h : PathsBelow changeInfo n)
    {info : ChangeOutputInfo} (hinfo : info ∈ changeInfo.take n) : info.path.WellFormed := by
  obtain ⟨k, hk, hget⟩ := List.mem_iff_getElem.mp hinfo
  rw [List.length_take] at hk
  rw [List.getElem_take] at hget
  have hentry := h k (by omega)
  rwa [List.getD_eq_getElem _ _ (by omega), hget] at hentry

/-- The context with another change list. -/
def Device.withChanges (d : Device) (changeLen : Nat) (changeInfo : List ChangeOutputInfo) : Device :=
  d.withTx { d.tx with changeLen := changeLen, changeInfo := changeInfo }

/-- The device differs in its change list at most, which still fills its array. -/
def ChangesRead (d d' : Device) : Prop :=
  ∃ changeLen changeInfo, changeInfo.length = d.tx.changeInfo.length ∧ d' = d.withChanges changeLen changeInfo

theorem ChangesRead.refl (d : Device) : ChangesRead d d := ⟨d.tx.changeLen, d.tx.changeInfo, rfl, rfl⟩

theorem ChangesRead.trans {d d₁ d₂ : Device} (h : ChangesRead d d₁) (h' : ChangesRead d₁ d₂) :
    ChangesRead d d₂ := by
  obtain ⟨_, changeInfo, hlen, rfl⟩ := h
  obtain ⟨changeLen', changeInfo', hlen', rfl⟩ := h'
  exact ⟨changeLen', changeInfo', hlen'.trans hlen, rfl⟩

/-- A cursor into the data of the command. -/
def CursorInto (data : Bytes) (cdata : Buffer) : Prop := ∃ offset, offset ≤ data.length ∧ cdata = .at data offset

section ReadChunk

variable {data : Bytes} (hsmall : data.length < 2 ^ 31)
include hsmall

theorem bufferReadU8_cursor {offset : Nat} (hoffset : offset ≤ data.length) :
    (data.length < offset + 1 ∧ bufferReadU8 (.at data offset) = (false, 0, .at data offset)) ∨
      (offset + 1 ≤ data.length ∧
        bufferReadU8 (.at data offset) = (true, byteAt data offset, .at data (offset + 1))) := by
  rw [bufferReadU8_at (by omega)]
  by_cases h : data.length < offset + 1
  · exact Or.inl ⟨h, if_pos h⟩
  · exact Or.inr ⟨by omega, if_neg h⟩

theorem readChangeEntries_spec (n i : Nat) {offset : Nat} (hoffset : offset ≤ data.length) (d : Device)
    (hpaths : PathsBelow d.tx.changeInfo i) :
    wp (readChangeEntries n i (.at data offset))
      (fun cdata d' w => w = [] ∧ CursorInto data cdata ∧ ChangesRead d d' ∧ d'.tx.changeLen = d.tx.changeLen ∧
        PathsBelow d'.tx.changeInfo (i + n))
      (fun _ d' w => w = [] ∧ ChangesRead d d') False d := by
  induction n generalizing i offset d with
  | zero => exact ⟨rfl, ⟨offset, hoffset, rfl⟩, .refl d, rfl, hpaths⟩
  | succ n ih =>
      unfold readChangeEntries
      obtain ⟨_, hread⟩ | ⟨hoffset', hread⟩ := bufferReadU8_cursor hsmall hoffset
      · simp only [hread, wp_bind, wp_get, wp_modify, Bool.not_false, if_true, wp_throw]
        exact ⟨rfl, _, _, by rw [List.length_set], rfl⟩
      · obtain ⟨⟨read, path, rest⟩, hpath⟩ : ∃ r, bufferReadBip32Path (.at data (offset + 1))
            (d.tx.changeInfo.getD i ⟨0, []⟩).path = r := ⟨_, rfl⟩
        simp only [hread, hpath, wp_bind, wp_get, wp_modify, Bool.not_true, Bool.false_eq_true, if_false]
        cases read with
        | false =>
            rw [if_pos (by rfl), wp_throw]
            exact ⟨rfl, _, _, by rw [Device.tx_withTx, List.length_set, List.length_set], rfl⟩
        | true =>
            obtain ⟨rfl, hoffset''⟩ := bufferReadBip32Path_at hsmall hoffset' hpath
            rw [if_neg (by simp)]
            have hentry : ∀ index, PathsBelow ((d.tx.changeInfo.set i
                ⟨index, (d.tx.changeInfo.getD i ⟨0, []⟩).path⟩).set i ⟨index, path⟩) (i + 1) := by
              intro index
              rw [List.set_set]
              exact hpaths.set (bufferReadBip32Path_wellFormed hpath)
            refine wp_mono (ih (i + 1) hoffset'' _ (hentry _)) ?_ ?_ id
            · rintro cdata d' w ⟨rfl, hcursor, hchanges, hlen, hpaths'⟩
              refine ⟨rfl, hcursor, .trans ⟨_, _, by rw [Device.tx_withTx, List.length_set, List.length_set],
                rfl⟩ hchanges, hlen, ?_⟩
              rwa [show i + (n + 1) = i + 1 + n by omega]
            · rintro e d' w ⟨rfl, hchanges⟩
              exact ⟨rfl, .trans ⟨_, _, by rw [Device.tx_withTx, List.length_set, List.length_set], rfl⟩
                hchanges⟩

/-- What is left of reading a change list: the entries in use have paths that were accepted. -/
def ChangesAccepted (d' : Device) : Prop :=
  d'.tx.changeLen ≤ txMaxTokens + 1 ∧ ∀ info ∈ d'.tx.changes, info.path.WellFormed

theorem readChangeInfoV1_spec {offset : Nat} (hoffset : offset ≤ data.length) (d : Device) :
    wp (readChangeInfoV1 (.at data offset))
      (fun cdata d' w => w = [] ∧ CursorInto data cdata ∧ ChangesRead d d' ∧ ChangesAccepted d')
      (fun _ d' w => w = [] ∧ ChangesRead d d') False d := by
  unfold readChangeInfoV1
  obtain ⟨_, hread⟩ | ⟨hoffset', hread⟩ := bufferReadU8_cursor hsmall hoffset
  · simp only [hread, wp_bind, wp_modify, Bool.not_false, if_true, wp_throw]
    exact ⟨rfl, _, _, rfl, rfl⟩
  · simp only [hread, wp_bind, wp_modify, Bool.not_true, Bool.false_eq_true, if_false]
    rw [wp_ite]
    refine ⟨fun _ => ⟨rfl, _, _, rfl, rfl⟩, fun hlen => ?_⟩
    have hcount : ChangesRead d (d.withTx { d.tx with changeLen := byteAt data offset }) := ⟨_, _, rfl, rfl⟩
    have hnone : PathsBelow d.tx.changeInfo 0 := fun _ hk => absurd hk (Nat.not_lt_zero _)
    refine wp_mono (readChangeEntries_spec hsmall _ 0 hoffset' _ hnone) ?_ ?_ id
    · rintro cdata d' w ⟨rfl, hcursor, hchanges, hsame, hpaths⟩
      refine ⟨rfl, hcursor, hcount.trans hchanges, ?_, fun info hinfo => ?_⟩
      · rw [hsame]
        exact Nat.le_of_not_lt hlen
      · rw [SignTxCtx.changes, hsame] at hinfo
        rw [Nat.zero_add] at hpaths
        exact hpaths.mem hinfo
    · rintro e d' w ⟨rfl, hchanges⟩
      exact ⟨rfl, hcount.trans hchanges⟩

theorem readChangeInfoOldProtocol_spec (changeByte : Nat) {offset : Nat} (hoffset : offset ≤ data.length)
    (d : Device) :
    wp (readChangeInfoOldProtocol changeByte (.at data offset))
      (fun cdata d' w => w = [] ∧ CursorInto data cdata ∧ ChangesRead d d' ∧ ChangesAccepted d')
      (fun _ d' w => w = [] ∧ ChangesRead d d') False d := by
  unfold readChangeInfoOldProtocol
  obtain ⟨_, hread⟩ | ⟨hoffset', hread⟩ := bufferReadU8_cursor hsmall hoffset
  · simp only [hread, wp_bind, wp_get, wp_modify, Bool.not_false, if_true, wp_throw]
    exact ⟨rfl, _, _, by rw [Device.tx_withTx, List.length_set], rfl⟩
  · simp only [hread, wp_bind, wp_get, wp_modify, Bool.not_true, Bool.false_eq_true, if_false]
    rw [wp_ite]
    refine ⟨fun _ => ⟨rfl, _, _, by rw [Device.tx_withTx, List.length_set], rfl⟩, fun hdepth => ?_⟩
    rw [wp_ite]
    refine ⟨fun _ => ⟨rfl, _, _, by rw [Device.tx_withTx, List.length_set], rfl⟩, fun hshort => ?_⟩
    have hfits : offset + 1 + 4 * (changeByte &&& 0x0F) ≤ data.length := by
      simp only [Buffer.at] at hshort
      omega
    simp only [wp_bind, wp_modify, wp_ite, wp_throw, wp_pure]
    generalize hpath : bufferReadBip32Path _ _ = r
    obtain ⟨read, path, rest⟩ := r
    have hread' : ChangesRead d (d.withChanges 1 ((d.tx.changeInfo.set 0 ⟨byteAt data offset,
        (d.tx.changeInfo.getD 0 ⟨0, []⟩).path⟩).set 0 ⟨byteAt data offset, path⟩)) :=
      ⟨1, _, by rw [List.length_set, List.length_set], rfl⟩
    refine ⟨fun _ => ⟨rfl, hread'⟩, fun haccepted => ⟨rfl, ⟨_, hfits, ?_⟩, hread', Nat.le_add_left 1 txMaxTokens,
      fun info hinfo => ?_⟩⟩
    · rw [bufferSeekCur_at (by omega) hfits]
    · have hread : read = true := by simpa using haccepted
      rw [hread] at hpath
      have hpaths : PathsBelow ((d.tx.changeInfo.set 0 ⟨byteAt data offset,
          (d.tx.changeInfo.getD 0 ⟨0, []⟩).path⟩).set 0 ⟨byteAt data offset, path⟩) 1 := by
        rw [List.set_set]
        have hnone : PathsBelow d.tx.changeInfo 0 := fun k hk => absurd hk (Nat.not_lt_zero k)
        exact hnone.set (bufferReadBip32Path_wellFormed hpath)
      exact hpaths.mem hinfo

theorem readChangeInfo_spec {offset : Nat} (hoffset : offset ≤ data.length) (d : Device) :
    wp (readChangeInfo (.at data offset))
      (fun cdata d' w => w = [] ∧ CursorInto data cdata ∧ ChangesRead d d' ∧ ChangesAccepted d')
      (fun _ d' w => w = [] ∧ ChangesRead d d') False d := by
  unfold readChangeInfo
  obtain ⟨_, hread⟩ | ⟨hoffset', hread⟩ := bufferReadU8_cursor hsmall hoffset
  · simp only [hread, Bool.not_false, if_true, wp_throw]
    exact ⟨trivial, .refl d⟩
  · simp only [hread, Bool.not_true, Bool.false_eq_true, if_false]
    rw [wp_ite]
    refine ⟨fun _ => ?_, fun _ => ?_⟩
    · simp only [wp_bind, wp_modify, wp_pure]
      exact ⟨rfl, ⟨_, hoffset', rfl⟩, ⟨_, _, rfl, rfl⟩, Nat.zero_le _, fun _ hinfo => absurd hinfo List.not_mem_nil⟩
    · rw [wp_ite]
      refine ⟨fun _ => readChangeInfoOldProtocol_spec hsmall _ hoffset' d, fun _ => ?_⟩
      rw [wp_ite]
      exact ⟨fun _ => readChangeInfoV1_spec hsmall hoffset' d, fun _ => ⟨rfl, .refl d⟩⟩

theorem readTxData_spec {offset : Nat} (hoffset : offset ≤ data.length) (d : Device) :
    wp (readTxData (.at data offset))
      (fun cdata d' w => w = [] ∧ offset + 5 ≤ data.length ∧ cdata = .at data (offset + 5) ∧
        d' = d.withTx { d.tx with
          txVersion := readU16Be data offset
          remainingTokens := byteAt data (offset + 2)
          remainingInputs := byteAt data (offset + 3)
          outputsLen := byteAt data (offset + 4) })
      (fun _ d' w => w = [] ∧ ∃ txVersion remainingTokens remainingInputs outputsLen,
        data.length < offset + 5 ∧ (outputsLen = d.tx.outputsLen ∨ outputsLen = 0) ∧
        d' = d.withTx { d.tx with
          txVersion := txVersion
          remainingTokens := remainingTokens
          remainingInputs := remainingInputs
          outputsLen := outputsLen }) False d := by
  unfold readTxData
  rw [bufferReadU16_at (by omega)]
  by_cases h2 : data.length < offset + 2
  · rw [if_pos h2]
    exact ⟨rfl, _, _, _, _, by omega, Or.inl rfl, rfl⟩
  · rw [if_neg h2]
    simp only [wp_bind, wp_modify, Bool.not_true, Bool.false_eq_true, if_false]
    obtain ⟨hshort, hread⟩ | ⟨h3, hread⟩ := bufferReadU8_cursor hsmall (show offset + 2 ≤ data.length by omega)
    · simp only [hread, Bool.not_false, if_true, wp_throw]
      exact ⟨rfl, _, _, _, _, by omega, Or.inl rfl, rfl⟩
    · simp only [hread, wp_bind, wp_modify, Bool.not_true, Bool.false_eq_true, if_false]
      obtain ⟨hshort, hread⟩ | ⟨h4, hread⟩ := bufferReadU8_cursor hsmall h3
      · simp only [hread, Bool.not_false, if_true, wp_throw]
        exact ⟨rfl, _, _, _, _, by omega, Or.inl rfl, rfl⟩
      · simp only [hread, wp_bind, wp_modify, Bool.not_true, Bool.false_eq_true, if_false]
        obtain ⟨hshort, hread⟩ | ⟨h5, hread⟩ := bufferReadU8_cursor hsmall h4
        · simp only [hread, Bool.not_false, if_true, wp_throw]
          exact ⟨rfl, _, _, _, _, by omega, Or.inr rfl, rfl⟩
        · simp only [hread, Bool.not_true, Bool.false_eq_true, if_false, wp_pure]
          exact ⟨rfl, h5, trivial, rfl⟩

end ReadChunk

/-- The context of a session that has read its change list and its header, and has yet to decode. -/
def startedTx (changeLen : Nat) (changeInfo : List ChangeOutputInfo) (m : Bytes) : SignTxCtx :=
  { zeroSignTxCtx with
    changeLen := changeLen
    changeInfo := changeInfo
    sha256 := some m
    txVersion := readU16Be m 0
    remainingTokens := byteAt m 2
    remainingInputs := byteAt m 3
    outputsLen := byteAt m 4
    buffer := m.drop 5 }

/-- The context of a session whose first chunk ended before its header did. -/
def SignTxCtx.HeaderUnread (tx : SignTxCtx) : Prop :=
  ∃ sha256 changeLen changeInfo txVersion remainingTokens remainingInputs,
    changeInfo.length = 1 + txMaxTokens ∧ sha256.length < 5 ∧
    tx = { zeroSignTxCtx with
      sha256 := some sha256
      changeLen := changeLen
      changeInfo := changeInfo
      txVersion := txVersion
      remainingTokens := remainingTokens
      remainingInputs := remainingInputs }

/-- The context with a chunk hashed. -/
def SignTxCtx.hashed (tx : SignTxCtx) (m : Bytes) : SignTxCtx := { tx with sha256 := some m }

section TakeChunk

variable (o : Outcome)

theorem sighashAllHash_at (data : Bytes) (offset : Nat) {R : Unit → Device → List Obs → Prop}
    {T : Nat → Device → List Obs → Prop} {F : Prop} {d : Device} :
    wp (sighashAllHash o (.at data offset)) R T F d ↔
      match cxHashNoThrow o d.tx.sha256 (data.drop offset) with
      | none => T o.hashError d []
      | some m => R () (d.withTx (d.tx.hashed m)) [] := by
  have htake : (data.drop offset).take (data.length - offset) = data.drop offset := by
    rw [← List.length_drop, List.take_length]
  unfold sighashAllHash
  rw [wp_bind, wp_get, Buffer.at]
  dsimp only
  rw [htake]
  cases cxHashNoThrow o d.tx.sha256 (data.drop offset) <;> rfl

theorem cxHashNoThrow_some {o : Outcome} {ctx : Option Bytes} {data m : Bytes}
    (h : cxHashNoThrow o ctx data = some m) : ∃ m₀, ctx = some m₀ ∧ m = m₀ ++ data := by
  cases ctx with
  | none => cases h
  | some m₀ =>
      rw [cxHashNoThrow, Option.ite_none_right_eq_some, Option.some.injEq] at h
      exact ⟨m₀, rfl, h.2.symm⟩

/-- The first chunk of a session. What is hashed begins with the header. -/
theorem takeChunk_first_spec {data : Bytes} (hdata : data.length ≤ decodeBufferLen) (d : Device)
    (hstate : d.state ≠ .recvData) :
    wp (takeChunk o (Buffer.ofData data) 0)
      (fun _ d' w => w = [] ∧ ∃ changeLen changeInfo offset, changeLen ≤ txMaxTokens + 1 ∧
        (∀ info ∈ changeInfo.take changeLen, info.path.WellFormed) ∧
        changeInfo.length = 1 + txMaxTokens ∧ offset + 5 ≤ data.length ∧
        d' = (initSignTxCtx d).withTx (startedTx changeLen changeInfo (data.drop offset)))
      (fun _ d' w => w = [] ∧ ∃ tx : SignTxCtx, tx.HeaderUnread ∧ d' = (initSignTxCtx d).withTx tx) False d := by
  have hlimit : decodeBufferLen = 300 := rfl
  have hsmall : data.length < 2 ^ 31 := by omega
  unfold takeChunk
  rw [if_pos rfl, wp_bind, wp_get, if_neg hstate, wp_bind, wp_modify, wp_bind]
  refine wp_mono (readChangeInfo_spec hsmall (Nat.zero_le _) (initSignTxCtx d)) ?_ ?_ id
  · rintro cdata d₁ w ⟨rfl, ⟨offset, hoffset, rfl⟩, ⟨changeLen, changeInfo, hlen, rfl⟩, hcount, hpaths⟩
    rw [wp_bind, sighashAllHash_at]
    have hctx : ((initSignTxCtx d).withChanges changeLen changeInfo).tx.sha256 = some [] := rfl
    rw [hctx]
    cases hhash : cxHashNoThrow o (some []) (data.drop offset) with
    | none => exact ⟨rfl, _, ⟨[], changeLen, changeInfo, _, _, _, hlen, Nat.succ_pos 4, rfl⟩, rfl⟩
    | some m =>
        obtain ⟨m₀, hm₀, rfl⟩ := cxHashNoThrow_some hhash
        cases hm₀
        dsimp only
        rw [wp_bind]
        refine wp_mono (readTxData_spec hsmall hoffset _) ?_ ?_ id
        · rintro cdata d₂ w ⟨rfl, hheader, rfl, rfl⟩
          rw [wp_onTx, wp_copyToDecodeBuffer, if_neg]
          · refine ⟨rfl, changeLen, changeInfo, offset, hcount, hpaths, hlen, hheader, ?_⟩
            have hbyte : ∀ i, byteAt (data.drop offset) i = byteAt data (offset + i) := by
              intro i
              simp only [byteAt, List.getD_eq_getElem?_getD, List.getElem?_drop]
            simp only [startedTx, readU16Be, hbyte, List.drop_drop, Nat.zero_add]
            rfl
          · show ¬data.length - (offset + 5) > decodeBufferLen - 0
            omega
        · rintro e d₂ w ⟨rfl, _, _, _, outputsLen, hshort, hnone, rfl⟩
          have hfew : (data.drop offset).length < 5 := by
            rw [List.length_drop]
            omega
          have hzero : outputsLen = 0 := by
            obtain rfl | rfl := hnone <;> rfl
          subst hzero
          exact ⟨rfl, _, ⟨_, changeLen, changeInfo, _, _, _, hlen, hfew, rfl⟩, rfl⟩
  · rintro e d₁ w ⟨rfl, changeLen, changeInfo, hlen, rfl⟩
    exact ⟨rfl, _, ⟨[], changeLen, changeInfo, _, _, _, hlen, Nat.succ_pos 4, rfl⟩, rfl⟩

/-- A later chunk: it is hashed and appended to the decode buffer. -/
theorem takeChunk_later {data : Bytes} {chunk : Nat} (hchunk : 0 < chunk) (d : Device)
    {R : Unit → Device → List Obs → Prop} {T : Nat → Device → List Obs → Prop} {F : Prop} :
    wp (takeChunk o (Buffer.ofData data) chunk) R T F d ↔
      match cxHashNoThrow o d.tx.sha256 data with
      | none => T o.hashError d []
      | some m =>
        if data.length > decodeBufferLen - d.tx.buffer.length then
          T swWrongDataLength (d.withTx (d.tx.hashed m)) []
        else R () (d.withTx ((d.tx.hashed m).received data)) [] := by
  unfold takeChunk
  rw [if_neg (by omega), wp_bind, Buffer.ofData_eq, sighashAllHash_at, List.drop_zero]
  cases cxHashNoThrow o d.tx.sha256 data with
  | none => rfl
  | some m =>
      dsimp only
      rw [wp_onTx, wp_copyToDecodeBuffer]
      rfl

theorem takeChunk_later_ret {data m : Bytes} {chunk : Nat} (hchunk : 0 < chunk) (d : Device)
    (hhash : cxHashNoThrow o d.tx.sha256 data = some m) (hfits : data.length ≤ decodeBufferLen - d.tx.buffer.length) :
    takeChunk o (Buffer.ofData data) chunk d = .ret () (d.withTx ((d.tx.hashed m).received data)) [] := by
  have hwp : wp (takeChunk o (Buffer.ofData data) chunk)
      (fun _ d' w => d' = d.withTx ((d.tx.hashed m).received data) ∧ w = []) (fun _ _ _ => False) False d := by
    rw [takeChunk_later o hchunk, hhash]
    dsimp only
    rw [if_neg (Nat.not_lt.mpr hfits)]
    exact ⟨rfl, rfl⟩
  obtain ⟨_, _, _, hret, rfl, rfl⟩ := exists_ret_of_wp hwp
  exact hret

end TakeChunk

section DecodeChunk

variable (pf : Platform) (o : Outcome)

/-- What the decoder makes of the decode buffer, with the key checks and the registry of the device. -/
def Device.verdict (d : Device) (s : TxState) : Verdict TxState UInt8 :=
  decodeVerdict (verifyChange pf o) d.gTokenSymbols d.tx s

/-- What happens once a chunk is on the decode buffer. -/
inductive DecodeEffect (s : TxState) (d : Device) : Bool → Device → List Obs → Prop where
  | rejected {w : List Obs} (silent : Silent w) (verdict : d.verdict pf o s = .rejected) :
      DecodeEffect s d true d.refused (w ++ [.response [] swInvalidTx, .display .menuMain])
  /-- A change key cannot be derived: the command fails without a reply. -/
  | broken {tx : SignTxCtx} {w : List Obs} (silent : Silent w)
      (refuses : Refuses (verifyChange pf o) d.gTokenSymbols d.tx s swInternalError) :
      DecodeEffect s d false (d.withTx tx) w
  /-- No output is complete yet: more data is requested. -/
  | awaits {s' : TxState} {tail : Bytes} {w : List Obs} (silent : Silent w)
      (verdict : d.verdict pf o s = .rest s' tail) (saved : decodedOutputs w = s'.outputs.drop d.tx.currentOutput)
      (none : (d.tx.took s' tail).bufferOutputLen = 0) :
      DecodeEffect s d true { d.withTx (d.tx.took s' tail) with gIoState := .ready } (w ++ [.response [] swOk])
  | displays {s' : TxState} {tail : Bytes} {w w' : List Obs} {tx : SignTxCtx} {d' : Device} (silent : Silent w)
      (verdict : d.verdict pf o s = .rest s' tail) (saved : decodedOutputs w = s'.outputs.drop d.tx.currentOutput)
      (some : (d.tx.took s' tail).bufferOutputLen ≠ 0) (skips : SkipsTo (d.tx.took s' tail) tx)
      (inside : tx = d.tx.took s' tail ∨ (d.tx.took s' tail).Open) (ends : DisplayEnds pf (d.withTx tx) d' w') :
      DecodeEffect s d true d' (w ++ w')

/-- The accesses outside an array that decoding and displaying a chunk can come to. -/
def DecodeOverruns (s : TxState) (d : Device) : Prop :=
  TableOverflows (verifyChange pf o) d.gTokenSymbols d.tx s ∨
    ∃ s' tail, d.verdict pf o s = .rest s' tail ∧ (1 + txMaxTokens < d.tx.changeLen ∨
      ∃ tx, ComesTo (d.withTx (d.tx.took s' tail)) tx ∧ DisplayOverruns (d.withTx tx))

theorem decodeChunk_spec {s : TxState} {d : Device} (hrep : d.tx.Represents s)
    (hroom : 32 * d.tx.bufferOutputLen + d.tx.buffer.length ≤ decodeBufferLen) :
    wp (decodeChunk pf o) (fun b d' w => DecodeEffect pf o s d b d' w) (fun _ _ _ => False)
      (DecodeOverruns pf o s d) d := by
  unfold decodeChunk
  rw [wp_bind, wp_get, wp_bind, wp_onTx]
  refine wp_mono (decodeElements_spec (verifyChange pf o) d.gTokenSymbols hrep hroom) ?_ (fun _ _ _ h => h) Or.inl
  rintro result tx' w ⟨hsilent, hresult⟩
  obtain ⟨rfl, s', tail, hverdict, rfl, hsaved⟩ | ⟨rfl, hrejected⟩ | ⟨rfl, hrefuses⟩ := hresult
  · rw [if_neg (by decide), if_pos rfl, wp_bind, wp_get, wp_ite]
    refine ⟨fun hsome => ?_, fun hnone => ?_⟩
    · rw [wp_bind]
      refine wp_mono (uiDisplayTxOutputs_spec pf o _) ?_ (fun _ _ _ h => h) ?_
      · rintro ret d' w' ⟨rfl, tx, hskips, hinside, hends⟩
        rw [wp_pure]
        simp only [List.nil_append, List.append_nil]
        exact .displays hsilent hverdict hsaved hsome hskips hinside hends
      · exact fun hover => Or.inr ⟨s', tail, hverdict, hover⟩
    · rw [wp_bind, wp_ioSendSw, wp_pure]
      exact .awaits hsilent hverdict hsaved (not_not.mp hnone)
  · rw [if_pos rfl, wp_bind, wp_bzeroAndReply, wp_pure]
    exact .rejected hsilent hrejected
  · rw [if_neg (by decide), if_neg (by decide), wp_pure, List.append_nil]
    exact .broken hsilent hrefuses

end DecodeChunk

/-- How a handler ends. -/
inductive Ending where
  | ret (value : Int)
  | thrown (code : Nat)

/-- The state of the stream at the end of a header. -/
def SignTxCtx.startState (tx : SignTxCtx) : TxState := ⟨[], tx.remainingTokens, tx.remainingInputs, []⟩

section Data

variable (pf : Platform) (o : Outcome) (data : Bytes) (chunk : Nat)

/-- What a data command does. The state of the stream is that of the session under way. -/
inductive DataEffect (s : TxState) (d : Device) : Ending → Device → List Obs → Prop where
  /-- The command does not fit the state of the session. -/
  | dropped (misfit : d.state = .approved ∨ 0 < chunk ∧ d.state ≠ .recvData) :
      DataEffect s d (.ret (replyResult d)) d.refused [.display .menuMain, .response [] swBadState]
  /-- A first chunk arrives in the middle of a session. -/
  | busy (first : chunk = 0) (state : d.state = .recvData) :
      DataEffect s d (.thrown swBadState) d.bzeroContext []
  | headerUnread {e : Nat} {tx : SignTxCtx} (first : chunk = 0) (state : d.state ≠ .recvData)
      (unread : tx.HeaderUnread) : DataEffect s d (.thrown e) ((initSignTxCtx d).withTx tx) []
  | started {changeLen offset : Nat} {changeInfo : List ChangeOutputInfo} {accepted : Bool} {d' : Device}
      {w : List Obs} (first : chunk = 0) (state : d.state ≠ .recvData) (inArray : changeLen ≤ txMaxTokens + 1)
      (paths : ∀ info ∈ changeInfo.take changeLen, info.path.WellFormed)
      (slots : changeInfo.length = 1 + txMaxTokens) (header : offset + 5 ≤ data.length)
      (taken : takeChunk o (Buffer.ofData data) chunk d =
        .ret () ((initSignTxCtx d).withTx (startedTx changeLen changeInfo (data.drop offset))) [])
      (effect : DecodeEffect pf o (startedTx changeLen changeInfo (data.drop offset)).startState
        ((initSignTxCtx d).withTx (startedTx changeLen changeInfo (data.drop offset))) accepted d' w) :
      DataEffect s d (.ret (if accepted then 0 else -1)) d' w
  | notHashed (later : 0 < chunk) (state : d.state = .recvData) :
      DataEffect s d (.thrown o.hashError) d []
  | notCopied {m : Bytes} (later : 0 < chunk) (state : d.state = .recvData)
      (long : data.length > decodeBufferLen - d.tx.buffer.length) :
      DataEffect s d (.thrown swWrongDataLength) (d.withTx (d.tx.hashed m)) []
  | continued {m : Bytes} {accepted : Bool} {d' : Device} {w : List Obs} (later : 0 < chunk)
      (state : d.state = .recvData) (ctx : d.tx.sha256 = some m)
      (taken : takeChunk o (Buffer.ofData data) chunk d =
        .ret () (d.withTx ((d.tx.hashed (m ++ data)).received data)) [])
      (effect : DecodeEffect pf o s (d.withTx ((d.tx.hashed (m ++ data)).received data)) accepted d' w) :
      DataEffect s d (.ret (if accepted then 0 else -1)) d' w

/-- The accesses outside an array a data command can come to, once its chunk is taken. -/
inductive DataOverruns (s : TxState) (d : Device) : Prop where
  | started {changeLen offset : Nat} {changeInfo : List ChangeOutputInfo} (first : chunk = 0)
      (inArray : changeLen ≤ txMaxTokens + 1) (slots : changeInfo.length = 1 + txMaxTokens)
      (taken : takeChunk o (Buffer.ofData data) chunk d =
        .ret () ((initSignTxCtx d).withTx (startedTx changeLen changeInfo (data.drop offset))) [])
      (overruns : DecodeOverruns pf o (startedTx changeLen changeInfo (data.drop offset)).startState
        ((initSignTxCtx d).withTx (startedTx changeLen changeInfo (data.drop offset)))) : DataOverruns s d
  | continued {m : Bytes} (later : 0 < chunk) (state : d.state = .recvData)
      (taken : takeChunk o (Buffer.ofData data) chunk d =
        .ret () (d.withTx ((d.tx.hashed (m ++ data)).received data)) [])
      (overruns : DecodeOverruns pf o s (d.withTx ((d.tx.hashed (m ++ data)).received data))) : DataOverruns s d

/-- `handler_sign_tx` makes a value of its own of what a part of it returns. -/
theorem wp_accepted (p : App Bool) {R : Int → Device → List Obs → Prop} {T : Nat → Device → List Obs → Prop}
    {F : Prop} {d : Device} :
    wp (do if !(← p) then return -1 else return 0 : App Int) R T F d ↔ wp p (fun b => R (if b then 0 else -1)) T F d := by
  rw [wp_bind]
  constructor
  · intro h
    refine wp_mono h (fun b d' w hb => ?_) (fun _ _ _ h => h) id
    cases b <;> simpa using hb
  · intro h
    refine wp_mono h (fun b d' w hb => ?_) (fun _ _ _ h => h) id
    cases b <;> simpa using hb

/-- A data command with data that fit a command. -/
theorem handlerSignTx_data_spec {s : TxState} {d : Device} (hdata : data ≠ []) (hlen : data.length ≤ decodeBufferLen)
    (hrep : d.tx.Represents s) :
    wp (handlerSignTx pf o (Buffer.ofData data) .data chunk)
      (fun v d' w => DataEffect pf o data chunk s (d.withTx d.tx.resetCall) (.ret v) d' w)
      (fun e d' w => DataEffect pf o data chunk s (d.withTx d.tx.resetCall) (.thrown e) d' w)
      (DataOverruns pf o data chunk s (d.withTx d.tx.resetCall)) d := by
  have hlimit : decodeBufferLen = 300 := rfl
  have hpositive : 0 < data.length := List.length_pos_iff.mpr hdata
  unfold handlerSignTx
  rw [wp_bind, wp_modify, wp_bind, wp_get]
  have hrep' : (d.withTx d.tx.resetCall).tx.Represents s :=
    ⟨hrep.tokens, hrep.remainingTokens, hrep.remainingInputs, hrep.currentOutput⟩
  have hreset : (d.withTx d.tx.resetCall).tx.bufferOutputLen = 0 := rfl
  generalize d.withTx d.tx.resetCall = d at hrep' hreset
  dsimp only
  rw [wp_ite]
  refine ⟨fun happroved => ?_, fun _ => ?_⟩
  · rw [wp_bzeroMenuReply]
    exact .dropped (Or.inl happroved)
  rw [wp_ite]
  refine ⟨fun hmisfit => ?_, fun hfits => ?_⟩
  · rw [wp_bzeroMenuReply]
    exact .dropped (Or.inr hmisfit)
  rw [wp_accepted, receiveData, wp_bind]
  simp only [List.nil_append]
  obtain rfl | hlater := Nat.eq_zero_or_pos chunk
  · by_cases hstate : d.state = .recvData
    · unfold takeChunk
      rw [if_pos rfl, wp_bind, wp_get, if_pos hstate]
      exact .busy rfl hstate
    · refine wp_mono (wp_self (takeChunk_first_spec o hlen d hstate)) ?_ ?_ False.elim
      · rintro _ d₁ w ⟨htaken, rfl, changeLen, changeInfo, offset, hcount, hpaths, hslots, hheader, rfl⟩
        refine wp_mono (decodeChunk_spec pf o (s := (startedTx changeLen changeInfo (data.drop offset)).startState)
          ⟨rfl, rfl, rfl, rfl⟩ ?_) ?_ (fun _ _ _ h => h.elim) ?_
        · show 32 * 0 + ((data.drop offset).drop 5).length ≤ decodeBufferLen
          simp only [List.length_drop]
          omega
        · exact fun b d' w heffect => .started rfl hstate hcount hpaths hslots hheader htaken heffect
        · exact fun hover => .started rfl hcount hslots htaken hover
      · rintro e d' w ⟨_, rfl, tx, hunread, rfl⟩
        exact .headerUnread rfl hstate hunread
  · have hstate : d.state = .recvData := by
      by_contra h
      exact hfits ⟨hlater, h⟩
    rw [takeChunk_later o hlater]
    cases hhash : cxHashNoThrow o d.tx.sha256 data with
    | none => exact .notHashed hlater hstate
    | some m =>
        obtain ⟨m₀, hctx, rfl⟩ := cxHashNoThrow_some hhash
        dsimp only
        by_cases hlong : data.length > decodeBufferLen - d.tx.buffer.length
        · rw [if_pos hlong]
          exact .notCopied hlater hstate hlong
        · rw [if_neg hlong]
          have htaken := takeChunk_later_ret o hlater d hhash (Nat.not_lt.mp hlong)
          refine wp_mono (decodeChunk_spec (s := s) pf o ?_ ?_) ?_ (fun _ _ _ h => h.elim) ?_
          · exact ⟨hrep'.tokens, hrep'.remainingTokens, hrep'.remainingInputs, hrep'.currentOutput⟩
          · show 32 * d.tx.bufferOutputLen + (d.tx.buffer ++ data).length ≤ decodeBufferLen
            rw [hreset, List.length_append]
            omega
          · exact fun b d' w heffect => .continued hlater hstate hctx htaken heffect
          · exact fun hover => .continued hlater hstate htaken hover

end Data

section Sign

variable (pf : Platform) (o : Outcome)

/-- The digest of a session is computed when its first byte is zero, which is how the code tells that it
has not been computed yet. -/
inductive DigestStep (tx : SignTxCtx) : SignTxCtx → Bool → Prop where
  | kept (inPlace : tx.sighashAll.getD 0 0 ≠ 0) : DigestStep tx tx true
  | unhashed (absent : tx.sighashAll.getD 0 0 = 0) (fails : cxHashNoThrow o tx.sha256 [] = none) :
      DigestStep tx tx false
  /-- The second hash fails: the first one stays in place of the digest. -/
  | half {m : Bytes} (absent : tx.sighashAll.getD 0 0 = 0) (ctx : tx.sha256 = some m)
      (fails : o.ok (.hash (pf.sha256 m)) = false) :
      DigestStep tx { tx with sighashAll := pf.sha256 m, sha256 := some [] } false
  | full {m : Bytes} (absent : tx.sighashAll.getD 0 0 = 0) (ctx : tx.sha256 = some m) :
      DigestStep tx { tx with sighashAll := pf.sha256 (pf.sha256 m), sha256 := some (pf.sha256 m) } true

/-- The device with a path read into its context. -/
def Device.withPath (d : Device) (path : Bip32Path) : Device :=
  { d with gContext := { d.gContext with bip32Path := path } }

/-- What the part of `sign_tx_with_key` joined by `CX_CHECK` does. -/
inductive Sighash (d : Device) : Option Bytes → Device → List Obs → Prop where
  | keyless (key : derivePrivateKey pf o d.gContext.bip32Path = none) :
      Sighash d none d [.derive d.gContext.bip32Path]
  | undigested {key : Bytes × Bytes} {tx : SignTxCtx} (key : derivePrivateKey pf o d.gContext.bip32Path = some key)
      (step : DigestStep pf o d.tx tx false) : Sighash d none (d.withTx tx) [.derive d.gContext.bip32Path]
  | unsigned {key : Bytes × Bytes} {tx : SignTxCtx} (derived : derivePrivateKey pf o d.gContext.bip32Path = some key)
      (step : DigestStep pf o d.tx tx true) (fails : o.ok (.ecdsaSign key.1 tx.sighashAll) = false) :
      Sighash d none (d.withTx tx) [.derive d.gContext.bip32Path, .ecdsa tx.sighashAll]
  | signed {key : Bytes × Bytes} {tx : SignTxCtx} (derived : derivePrivateKey pf o d.gContext.bip32Path = some key)
      (step : DigestStep pf o d.tx tx true) :
      Sighash d (some (pf.ecdsaSign key.1 tx.sighashAll)) (d.withTx tx)
        [.derive d.gContext.bip32Path, .ecdsa tx.sighashAll]

theorem signSighash_spec (d : Device) :
    wp (signSighash pf o) (Sighash pf o d) (fun _ _ _ => False) False d := by
  unfold signSighash
  rw [wp_bind, wp_get, wp_bind, wp_emit]
  cases hderive : derivePrivateKey pf o d.gContext.bip32Path with
  | none => exact .keyless hderive
  | some key =>
      have hsign : ∀ {tx}, DigestStep pf o d.tx tx true →
          wp (do
            let d ← Prog.get
            Prog.emit (.ecdsa d.tx.sighashAll)
            if o.ok (.ecdsaSign key.1 d.tx.sighashAll) then return some (pf.ecdsaSign key.1 d.tx.sighashAll)
            else return none)
            (fun r d' w => Sighash pf o d r d' (.derive d.gContext.bip32Path :: w)) (fun _ _ _ => False) False
            (d.withTx tx) := by
        intro tx hstep
        rw [wp_bind, wp_get, wp_bind, wp_emit, wp_ite]
        exact ⟨fun _ => .signed hderive hstep,
          fun hfails => .unsigned hderive hstep (Bool.eq_false_iff.mpr hfails)⟩
      dsimp only
      rw [wp_bind, wp_ite]
      refine ⟨fun habsent => ?_, fun hinPlace => ?_⟩
      · cases hhash : cxHashNoThrow o d.tx.sha256 [] with
        | none =>
            refine Sighash.undigested hderive (.unhashed habsent hhash)
        | some m =>
            obtain ⟨m₀, hctx, rfl⟩ := cxHashNoThrow_some hhash
            rw [List.append_nil] at hhash ⊢
            dsimp only
            rw [wp_bind, wp_modify]
            cases hhash' : cxHashNoThrow o (some []) (pf.sha256 m₀) with
            | none =>
                refine Sighash.undigested hderive (.half habsent hctx ?_)
                rw [cxHashNoThrow, List.nil_append] at hhash'
                simpa using hhash'
            | some m =>
                obtain ⟨m₁, hm₁, rfl⟩ := cxHashNoThrow_some hhash'
                cases hm₁
                exact hsign (.full habsent hctx)
      · exact hsign (.kept hinPlace)

/-- What a sign command does. -/
inductive SignEffect (data : Bytes) (d : Device) : Int → Device → List Obs → Prop where
  | unapproved (state : d.state ≠ .approved) :
      SignEffect data d (replyResult d) { d with gIoState := .ready } [.response [] swBadState]
  | unread {path : Bip32Path} {rest : Buffer} (state : d.state = .approved)
      (read : bufferReadBip32Path (Buffer.ofData data) d.gContext.bip32Path = (false, path, rest)) :
      SignEffect data d (replyResult d) { d.withPath path with gIoState := .ready }
        [.response [] swWrongDataLength]
  /-- The reply has been prepared when the command fails. -/
  | pathless {rest : Buffer} (state : d.state = .approved)
      (read : bufferReadBip32Path (Buffer.ofData data) d.gContext.bip32Path = (true, [], rest)) :
      SignEffect data d (-1) { d.withPath [] with gIoState := .ready } [.response [] swSignatureFail]
  | failed {path : Bip32Path} {rest : Buffer} {d' : Device} {w : List Obs} (state : d.state = .approved)
      (read : bufferReadBip32Path (Buffer.ofData data) d.gContext.bip32Path = (true, path, rest))
      (nonempty : path ≠ []) (sighash : Sighash pf o (d.withPath path) none d' w) :
      SignEffect data d (-1) { d' with gIoState := .ready } (w ++ [.response [] swInternalError])
  | signed {path : Bip32Path} {rest : Buffer} {signature : Bytes} {d' : Device} {w : List Obs}
      (state : d.state = .approved)
      (read : bufferReadBip32Path (Buffer.ofData data) d.gContext.bip32Path = (true, path, rest))
      (nonempty : path ≠ []) (sighash : Sighash pf o (d.withPath path) (some signature) d' w) :
      SignEffect data d (replyResult d') { d' with gIoState := .ready } (w ++ [replyOf signature swOk])

section Frame

variable {pf o} {data : Bytes} {d d' : Device} {v : Int} {w : List Obs}

theorem Sighash.frame {r : Option Bytes} (h : Sighash pf o d r d' w) : ∃ tx, d' = d.withTx tx := by
  cases h with
  | keyless => exact ⟨d.tx, rfl⟩
  | undigested => exact ⟨_, rfl⟩
  | unsigned => exact ⟨_, rfl⟩
  | signed => exact ⟨_, rfl⟩

/-- A sign command changes nothing of a session but its context and its path. -/
theorem SignEffect.frame (h : SignEffect pf o data d v d' w) :
    ∃ path tx, d' = { (d.withPath path).withTx tx with gIoState := .ready } ∧
      (d.state ≠ .approved → tx = d.tx) := by
  cases h with
  | unapproved => exact ⟨d.gContext.bip32Path, d.tx, rfl, fun _ => rfl⟩
  | @unread path => exact ⟨path, d.tx, rfl, fun _ => rfl⟩
  | pathless => exact ⟨[], d.tx, rfl, fun _ => rfl⟩
  | @failed path _ _ _ state _ _ sighash =>
      obtain ⟨tx, rfl⟩ := sighash.frame
      exact ⟨path, tx, rfl, fun h => absurd state h⟩
  | @signed path _ _ _ _ state _ _ sighash =>
      obtain ⟨tx, rfl⟩ := sighash.frame
      exact ⟨path, tx, rfl, fun h => absurd state h⟩

end Frame

theorem replyResult_cases (d : Device) : replyResult d = 0 ∨ replyResult d = -1 := by
  unfold replyResult
  split
  · exact Or.inr rfl
  · exact Or.inl rfl

theorem handlerSignTx_sign_spec (data : Bytes) (chunk : Nat) (d : Device) :
    wp (handlerSignTx pf o (Buffer.ofData data) .sign chunk) (SignEffect pf o data (d.withTx d.tx.resetCall))
      (fun _ _ _ => False) False d := by
  unfold handlerSignTx
  rw [wp_bind, wp_modify, wp_bind, wp_get]
  generalize d.withTx d.tx.resetCall = d
  dsimp only
  rw [wp_ite]
  refine ⟨fun hstate => ?_, fun hstate => ?_⟩
  · rw [wp_ioSendSw]
    exact .unapproved hstate
  rw [not_not] at hstate
  unfold readContextPath
  obtain ⟨⟨read, path, rest⟩, hread⟩ :
    ∃ r, bufferReadBip32Path (Buffer.ofData data) d.gContext.bip32Path = r := ⟨_, rfl⟩
  simp only [wp_bind, wp_get, wp_modify, wp_pure, hread]
  cases read with
  | false =>
      simp only [Bool.not_false, if_true, wp_ioSendSw]
      exact .unread hstate hread
  | true =>
      simp only [Bool.not_true, Bool.false_eq_true, if_false]
      rw [wp_accepted]
      unfold signTxWithKey
      rw [wp_bind, wp_get, wp_ite]
      refine ⟨fun hempty => ?_, fun hpath => ?_⟩
      · have hnil : path = [] := List.length_eq_zero_iff.mp hempty
        subst hnil
        rw [wp_bind, wp_ioSendSw, wp_pure]
        have hret : (if decide (replyResult (d.withPath []) > 0) then (0 : Int) else -1) = -1 := by
          obtain h | h := replyResult_cases (d.withPath []) <;> rw [h] <;> rfl
        show SignEffect pf o data d (if decide (replyResult (d.withPath []) > 0) then 0 else -1) _ _
        rw [hret]
        exact .pathless hstate hread
      · have hnonempty : path ≠ [] := fun h => hpath (List.length_eq_zero_iff.mpr h)
        rw [wp_bind]
        refine wp_mono (signSighash_spec pf o (d.withPath path)) ?_ (fun _ _ _ h => h) id
        intro r d' w hsighash
        cases r with
        | none =>
            dsimp only
            rw [wp_bind, wp_ioSendSw, wp_pure]
            have hret : (if decide (replyResult d' > 0) then (0 : Int) else -1) = -1 := by
              obtain h | h := replyResult_cases d' <;> rw [h] <;> rfl
            rw [hret]
            simp only [List.nil_append, List.append_nil]
            exact .failed hstate hread hnonempty hsighash
        | some signature =>
            dsimp only
            rw [wp_bind, wp_ioSendResponse, wp_pure]
            have hret : (if decide (replyResult d' ≥ 0) then (0 : Int) else -1) = replyResult d' := by
              obtain h | h := replyResult_cases d' <;> rw [h] <;> rfl
            rw [hret]
            simp only [List.nil_append, List.append_nil]
            exact .signed hstate hread hnonempty hsighash

end Sign

end HathorApp
