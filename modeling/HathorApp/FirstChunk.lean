import HathorApp.SignTxSpec

/-!
The first chunk of a session, as a grammar. It begins with a change list, in one of three forms told apart by
the first byte, and the header follows. The grammar says where the list ends; the readers, which store what
they read as they go, come to the header exactly when it does.
-/

namespace HathorApp

open ProgramLogic StreamDecoder

/-- Where the path at an offset ends, when it is one that the path reader accepts. -/
def pathEnd (data : Bytes) (offset : Nat) : Option Nat :=
  match bip32PathRead (data.drop offset) (data.length - offset) [] with
  | (true, path) => some (offset + (1 + 4 * path.length))
  | (false, _) => none

/-- Where some entries end, each an output index and a path. -/
def changeEntriesEnd (data : Bytes) : Nat → Nat → Option Nat
  | 0, offset => some offset
  | n + 1, offset =>
    if data.length < offset + 1 then none else (pathEnd data (offset + 1)).bind (changeEntriesEnd data n)

/-- The path of the one entry of the old protocol, put behind its length. -/
def oldEntryPath (data : Bytes) (depth : Nat) : Bytes :=
  let levels := (data.drop 2).take (4 * depth)
  UInt8.ofNat depth :: (levels ++ List.replicate (4 * maxBip32Path - levels.length) 0)

/-- Where the one entry of the old protocol ends: the output index and, without its length, the path. -/
def oldEntryEnd (data : Bytes) (depth : Nat) : Option Nat :=
  if data.length < 2 ∨ depth > maxBip32Path ∨ data.length - 2 < 4 * depth then none
  else if (bip32PathRead (oldEntryPath data depth) (1 + 4 * maxBip32Path) []).1 then some (2 + 4 * depth)
  else none

/-- Where a counted list ends. -/
def countedListEnd (data : Bytes) : Option Nat :=
  if data.length < 2 ∨ byteAt data 1 > txMaxTokens + 1 then none else changeEntriesEnd data (byteAt data 1) 2

/-- Where the change list ends: there is none, the one entry of the old protocol, or a counted list. -/
def changeListEnd (data : Bytes) : Option Nat :=
  if data.length < 1 then none
  else if byteAt data 0 = 0 then some 1
  else if byteAt data 0 &&& 0x80 ≠ 0 then oldEntryEnd data (byteAt data 0 &&& 0x0F)
  else if byteAt data 0 = 1 then countedListEnd data
  else none

/-- The data open a session: a change list, a whole header behind it, and bytes the SDK hashes. -/
def OpensSession (o : Outcome) (data : Bytes) : Prop :=
  ∃ offset, changeListEnd data = some offset ∧ offset + 5 ≤ data.length ∧
    cxHashNoThrow o (some []) (data.drop offset) ≠ none

instance (o : Outcome) (data : Bytes) : Decidable (OpensSession o data) :=
  match hend : changeListEnd data with
  | none => isFalse fun ⟨_, hsome, _⟩ => nomatch hend.symm.trans hsome
  | some offset =>
    decidable_of_iff (offset + 5 ≤ data.length ∧ cxHashNoThrow o (some []) (data.drop offset) ≠ none)
      ⟨fun h => ⟨offset, hend, h⟩, fun ⟨_, hsome, h⟩ => by
        cases hend.symm.trans hsome
        exact h⟩

/-- Whether a path is accepted, and which one it is, does not depend on the path stored before. -/
theorem bip32PathRead_out (input : Bytes) (inLen : Nat) (out : Bip32Path) :
    (bip32PathRead input inLen out).1 = (bip32PathRead input inLen []).1 ∧
      ((bip32PathRead input inLen out).1 = true →
        (bip32PathRead input inLen out).2 = (bip32PathRead input inLen []).2) := by
  unfold bip32PathRead
  dsimp only
  split
  · exact ⟨rfl, nofun⟩
  · exact ⟨rfl, fun _ => rfl⟩

theorem bufferReadBip32Path_read (buffer : Buffer) (out : Bip32Path) :
    (bufferReadBip32Path buffer out).1 =
      (bip32PathRead (buffer.ptr.drop buffer.offset) (buffer.size - buffer.offset) []).1 := by
  have hsame := (bip32PathRead_out (buffer.ptr.drop buffer.offset) (buffer.size - buffer.offset) out).1
  rw [← hsame]
  unfold bufferReadBip32Path
  split
  · rename_i hread
    rw [hread]
  · rename_i hread
    rw [hread]

section Readers

variable {data : Bytes} (hsmall : data.length < 2 ^ 31)
include hsmall

/-- The path reader and the grammar agree on the path at an offset. -/
theorem bufferReadBip32Path_pathEnd {offset : Nat} (hoffset : offset ≤ data.length) {out path : Bip32Path}
    {read : Bool} {rest : Buffer} (h : bufferReadBip32Path (.at data offset) out = (read, path, rest)) :
    if read then ∃ k, pathEnd data offset = some k ∧ k ≤ data.length ∧ rest = .at data k
    else pathEnd data offset = none := by
  have hread : read = (bip32PathRead (data.drop offset) (data.length - offset) []).1 := by
    have hfirst := bufferReadBip32Path_read (.at data offset) out
    rw [h] at hfirst
    exact hfirst
  obtain ⟨accepted, path', hpath'⟩ : ∃ accepted path', bip32PathRead (data.drop offset) (data.length - offset) [] =
      (accepted, path') := ⟨_, _, rfl⟩
  rw [hpath'] at hread
  subst hread
  unfold pathEnd
  rw [hpath']
  cases read with
  | false => exact (if_neg (by decide)).mpr rfl
  | true =>
      rw [if_pos rfl]
      obtain ⟨hrest, hle⟩ := bufferReadBip32Path_at hsmall hoffset h
      have hsame : path = path' := by
        have hout := (bip32PathRead_out (data.drop offset) (data.length - offset) out).2
        unfold bufferReadBip32Path at h
        split at h
        · cases h
        · rename_i hread
          simp only [Prod.mk.injEq, true_and] at h
          obtain ⟨rfl, _⟩ := h
          rw [Buffer.at] at hread
          dsimp only at hread
          rw [hread, hpath'] at hout
          exact hout rfl
      subst hsame
      exact ⟨_, rfl, hle, hrest⟩

theorem readChangeEntries_end (n i : Nat) {offset : Nat} (hoffset : offset ≤ data.length) (d : Device) :
    wp (readChangeEntries n i (.at data offset))
      (fun cdata _ _ => ∃ k, changeEntriesEnd data n offset = some k ∧ k ≤ data.length ∧ cdata = .at data k)
      (fun _ _ _ => changeEntriesEnd data n offset = none) False d := by
  induction n generalizing i offset d with
  | zero => exact ⟨offset, rfl, hoffset, rfl⟩
  | succ n ih =>
      unfold readChangeEntries changeEntriesEnd
      obtain ⟨hshort, hread⟩ | ⟨hoffset', hread⟩ := bufferReadU8_cursor hsmall hoffset
      · simp only [hread, wp_bind, wp_get, wp_modify, Bool.not_false, if_true, wp_throw]
        exact if_pos hshort
      · obtain ⟨⟨read, path, rest⟩, hpath⟩ : ∃ r, bufferReadBip32Path (.at data (offset + 1))
            (d.tx.changeInfo.getD i ⟨0, []⟩).path = r := ⟨_, rfl⟩
        have hend := bufferReadBip32Path_pathEnd hsmall hoffset' hpath
        rw [if_neg (Nat.not_lt.mpr hoffset')]
        simp only [hread, hpath, wp_bind, wp_get, wp_modify, Bool.not_true, Bool.false_eq_true, if_false]
        cases read with
        | false =>
            rw [if_neg (by decide)] at hend
            rw [if_pos (by rfl), wp_throw, hend]
            rfl
        | true =>
            rw [if_pos rfl] at hend
            obtain ⟨k, hk, hle, rfl⟩ := hend
            rw [if_neg (by simp), hk, Option.bind_some]
            exact ih (i + 1) hle _

theorem readChangeInfoV1_end (hoffset : 1 ≤ data.length) (d : Device) :
    wp (readChangeInfoV1 (.at data 1))
      (fun cdata _ _ => ∃ k, countedListEnd data = some k ∧ k ≤ data.length ∧ cdata = .at data k)
      (fun _ _ _ => countedListEnd data = none) False d := by
  unfold readChangeInfoV1 countedListEnd
  obtain ⟨hshort, hread⟩ | ⟨hoffset', hread⟩ := bufferReadU8_cursor hsmall hoffset
  · simp only [hread, wp_bind, wp_modify, Bool.not_false, if_true, wp_throw]
    exact if_pos (Or.inl hshort)
  · simp only [hread, wp_bind, wp_modify, Bool.not_true, Bool.false_eq_true, if_false]
    rw [wp_ite]
    refine ⟨fun hmany => if_pos (Or.inr hmany), fun hfew => ?_⟩
    have hcounted : ¬(data.length < 2 ∨ byteAt data 1 > txMaxTokens + 1) := by
      rintro (hshort | hmany)
      · omega
      · exact hfew hmany
    rw [if_neg hcounted]
    exact readChangeEntries_end hsmall _ 0 hoffset' _

theorem readChangeInfoOldProtocol_end (changeByte : Nat) (hoffset : 1 ≤ data.length) (d : Device) :
    wp (readChangeInfoOldProtocol changeByte (.at data 1))
      (fun cdata _ _ => ∃ k, oldEntryEnd data (changeByte &&& 0x0F) = some k ∧ k ≤ data.length ∧ cdata = .at data k)
      (fun _ _ _ => oldEntryEnd data (changeByte &&& 0x0F) = none) False d := by
  unfold readChangeInfoOldProtocol oldEntryEnd
  obtain ⟨hshort, hread⟩ | ⟨hoffset', hread⟩ := bufferReadU8_cursor hsmall hoffset
  · simp only [hread, wp_bind, wp_get, wp_modify, Bool.not_false, if_true, wp_throw]
    exact if_pos (Or.inl hshort)
  · simp only [hread, wp_bind, wp_get, wp_modify, Bool.not_true, Bool.false_eq_true, if_false]
    rw [wp_ite]
    refine ⟨fun hdeep => if_pos (Or.inr (Or.inl hdeep)), fun hdepth => ?_⟩
    rw [wp_ite]
    refine ⟨fun hcut => if_pos (Or.inr (Or.inr hcut)), fun hwhole => ?_⟩
    have hfits : 1 + 1 + 4 * (changeByte &&& 0x0F) ≤ data.length := by
      simp only [Buffer.at] at hwhole
      omega
    have hentry : ¬(data.length < 2 ∨ changeByte &&& 0x0F > maxBip32Path ∨ data.length - 2 < 4 * (changeByte &&& 0x0F)) := by
      rintro (hshort | hdeep | hcut)
      · omega
      · exact hdepth hdeep
      · omega
    rw [if_neg hentry]
    have hpath : ∀ out, (!(bufferReadBip32Path
          ⟨oldEntryPath data (changeByte &&& 0x0F), 1 + 4 * maxBip32Path, 0⟩ out).1) =
        !(bip32PathRead (oldEntryPath data (changeByte &&& 0x0F)) (1 + 4 * maxBip32Path) []).1 := by
      intro out
      rw [bufferReadBip32Path_read]
      rfl
    simp only [wp_bind, wp_modify, wp_ite, wp_throw, wp_pure]
    rw [bufferSeekCur_at (by omega) hfits]
    refine ⟨fun hrefused => ?_, fun haccepted => ?_⟩
    · have hread := (hpath _).symm.trans hrefused
      apply if_neg
      simpa using hread
    · have hread := fun h => haccepted ((hpath _).trans h)
      rw [if_pos (by simpa using hread)]
      exact ⟨_, rfl, hfits, rfl⟩

theorem readChangeInfo_end (d : Device) :
    wp (readChangeInfo (Buffer.ofData data))
      (fun cdata _ _ => ∃ k, changeListEnd data = some k ∧ k ≤ data.length ∧ cdata = .at data k)
      (fun _ _ _ => changeListEnd data = none) False d := by
  unfold readChangeInfo changeListEnd
  rw [Buffer.ofData_eq]
  obtain ⟨hshort, hread⟩ | ⟨hoffset, hread⟩ := bufferReadU8_cursor hsmall (Nat.zero_le _)
  · simp only [hread, Bool.not_false, if_true, wp_throw]
    exact if_pos hshort
  · rw [if_neg (Nat.not_lt.mpr hoffset)]
    simp only [hread, Bool.not_true, Bool.false_eq_true, if_false]
    rw [wp_ite]
    refine ⟨fun hnone => ?_, fun hsome => ?_⟩
    · rw [if_pos hnone]
      exact ⟨1, rfl, hoffset, rfl⟩
    rw [if_neg hsome, wp_ite]
    refine ⟨fun hold => ?_, fun hnew => ?_⟩
    · rw [if_pos hold]
      exact readChangeInfoOldProtocol_end hsmall _ hoffset d
    rw [if_neg hnew, wp_ite]
    refine ⟨fun hcounted => ?_, fun hunknown => ?_⟩
    · rw [if_pos hcounted]
      exact readChangeInfoV1_end hsmall hoffset d
    · rw [if_neg hunknown]
      rfl

end Readers

section Take

variable (o : Outcome) {data : Bytes} (hdata : data.length ≤ decodeBufferLen)
include hdata

/-- The first chunk is taken when it opens a session, and refused with the session open otherwise. -/
theorem takeChunk_opens (d : Device) (hstate : d.state ≠ .recvData) :
    wp (takeChunk o (Buffer.ofData data) 0) (fun _ _ _ => OpensSession o data)
      (fun _ d' w => ¬OpensSession o data ∧ w = [] ∧ d'.state = .recvData) False d := by
  have hlimit : decodeBufferLen = 300 := rfl
  have hsmall : data.length < 2 ^ 31 := by omega
  have hopens : wp (takeChunk o (Buffer.ofData data) 0) (fun _ _ _ => OpensSession o data)
      (fun _ _ _ => ¬OpensSession o data) False d := by
    unfold takeChunk
    rw [if_pos rfl, wp_bind, wp_get, if_neg hstate, wp_bind, wp_modify, wp_bind]
    have hread := wp_and (readChangeInfo_end hsmall (initSignTxCtx d))
      (readChangeInfo_spec hsmall (Nat.zero_le _) (initSignTxCtx d))
    refine wp_mono hread ?_ ?_ And.left
    · rintro cdata d₁ w ⟨⟨offset, hend, hoffset, rfl⟩, rfl, _, ⟨changeLen, changeInfo, _, rfl⟩, _⟩
      have honly : ∀ offset', changeListEnd data = some offset' → offset' = offset :=
        fun _ hend' => Option.some.inj (hend'.symm.trans hend)
      have hctx : ((initSignTxCtx d).withChanges changeLen changeInfo).tx.sha256 = some [] := rfl
      rw [wp_bind, sighashAllHash_at, hctx]
      cases hhash : cxHashNoThrow o (some []) (data.drop offset) with
      | none =>
          rintro ⟨offset', hend', _, hsome⟩
          rw [honly offset' hend'] at hsome
          exact hsome hhash
      | some m =>
          dsimp only
          rw [wp_bind]
          refine wp_mono (readTxData_spec hsmall hoffset _) ?_ ?_ id
          · rintro cdata d₂ w ⟨rfl, hheader, rfl, rfl⟩
            rw [wp_onTx, wp_copyToDecodeBuffer, if_neg]
            · refine ⟨offset, hend, hheader, ?_⟩
              rw [hhash]
              exact Option.some_ne_none m
            · show ¬data.length - (offset + 5) > decodeBufferLen - 0
              omega
          · rintro e d₂ w ⟨_, _, _, _, _, hshort, _⟩ ⟨offset', hend', hheader, _⟩
            rw [honly offset' hend'] at hheader
            omega
    · rintro e d₁ w ⟨hnone, _⟩ ⟨offset, hsome, _⟩
      exact nomatch hnone.symm.trans hsome
  refine wp_mono (wp_and hopens (takeChunk_first_spec o hdata d hstate)) (fun _ _ _ h => h.1) ?_ And.left
  rintro e d' w ⟨hnot, rfl, tx, _, rfl⟩
  exact ⟨hnot, rfl, rfl⟩

/-- A chunk that opens a session is taken, and nothing but its data is in the context. -/
theorem OpensSession.taken (h : OpensSession o data) (d : Device) (hstate : d.state ≠ .recvData) :
    ∃ changeLen changeInfo offset, takeChunk o (Buffer.ofData data) 0 d =
      .ret () ((initSignTxCtx d).withTx (startedTx changeLen changeInfo (data.drop offset))) [] := by
  have hwp : wp (takeChunk o (Buffer.ofData data) 0)
      (fun _ d' w => w = [] ∧ ∃ changeLen changeInfo offset,
        d' = (initSignTxCtx d).withTx (startedTx changeLen changeInfo (data.drop offset)))
      (fun _ _ _ => False) False d := by
    refine wp_mono (wp_and (takeChunk_opens o hdata d hstate) (takeChunk_first_spec o hdata d hstate)) ?_ ?_ And.left
    · rintro _ d' w ⟨_, rfl, changeLen, changeInfo, offset, _, _, _, _, rfl⟩
      exact ⟨rfl, changeLen, changeInfo, offset, rfl⟩
    · exact fun _ _ _ hthrow => hthrow.1.1 h
  obtain ⟨_, _, _, hret, rfl, changeLen, changeInfo, offset, rfl⟩ := exists_ret_of_wp hwp
  exact ⟨changeLen, changeInfo, offset, hret⟩

end Take

end HathorApp
