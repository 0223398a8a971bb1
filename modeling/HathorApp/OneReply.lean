import HathorApp.BufferBounds
import HathorApp.CancelledSession
import HathorApp.RefusedSign
import HathorApp.Replies
import HathorApp.TokenRegistry

/-!
One reply for a command. A command is replied to once before the next one is read, or it puts up a screen and the
presses that close the last screen reply. Two kinds of failure break that: `sign_tx_with_key` replies and then makes the
handler return -1, and a change key that cannot be derived makes it return -1 without a reply. Either way `app_main`
returns.
-/

namespace HathorApp

open ProgramLogic StreamDecoder TraceRun

section Signing

variable (pf : Platform) (o : Outcome)

/-- The digest that is signed: that of the bytes hashed, or the one in place. -/
def digestOf (tx : SignTxCtx) : Bytes :=
  if tx.sighashAll.getD 0 0 = 0 then pf.sha256 (pf.sha256 (tx.sha256.getD [])) else tx.sighashAll

/-- A call of the SDK fails on the way to the signature. -/
inductive SigningFails (tx : SignTxCtx) (path : Bip32Path) : Prop where
  | key (fails : derivePrivateKey pf o path = none)
  | digest (absent : tx.sighashAll.getD 0 0 = 0)
      (fails : cxHashNoThrow o tx.sha256 [] = none ∨ o.ok (.hash (pf.sha256 (tx.sha256.getD []))) = false)
  | signature {key : Bytes × Bytes} (derived : derivePrivateKey pf o path = some key)
      (fails : o.ok (.ecdsaSign key.1 (digestOf pf tx)) = false)

/-- The sign command fails once it has prepared a reply. -/
structure FailsToSign (data : Bytes) (d : Device) : Prop where
  approved : d.state = .approved
  fails : ∃ path rest, bufferReadBip32Path (Buffer.ofData data) d.gContext.bip32Path = (true, path, rest) ∧
    (path = [] ∨ SigningFails pf o d.tx path)

variable {pf o}

/-- The cursors have no part in a signature. -/
theorem signingFails_resetCall {tx : SignTxCtx} {path : Bip32Path} :
    SigningFails pf o tx.resetCall path ↔ SigningFails pf o tx path := by
  constructor
  · intro h
    cases h with
    | key fails => exact .key fails
    | digest absent fails => exact .digest absent fails
    | signature derived fails => exact .signature derived fails
  · intro h
    cases h with
    | key fails => exact .key fails
    | digest absent fails => exact .digest absent fails
    | signature derived fails => exact .signature derived fails

variable (pf o) in
theorem signSighash_none_iff (d : Device) :
    wp (signSighash pf o) (fun r _ _ => r = none ↔ SigningFails pf o d.tx d.gContext.bip32Path)
      (fun _ _ _ => False) False d := by
  unfold signSighash
  rw [wp_bind, wp_get, wp_bind, wp_emit]
  cases hderive : derivePrivateKey pf o d.gContext.bip32Path with
  | none => exact iff_of_true rfl (.key hderive)
  | some key =>
      -- the digest is in place: what is left is to sign it
      have hsign : ∀ {d₁ : Device}, d₁.tx.sighashAll = digestOf pf d.tx →
          (d.tx.sighashAll.getD 0 0 = 0 → cxHashNoThrow o d.tx.sha256 [] ≠ none ∧
            o.ok (.hash (pf.sha256 (d.tx.sha256.getD []))) = true) →
          wp (do
            let d ← Prog.get
            Prog.emit (Obs.ecdsa d.tx.sighashAll)
            if o.ok (.ecdsaSign key.1 d.tx.sighashAll) then return some (pf.ecdsaSign key.1 d.tx.sighashAll)
            else return none)
            (fun r _ _ => r = none ↔ SigningFails pf o d.tx d.gContext.bip32Path) (fun _ _ _ => False) False d₁ := by
        intro d₁ hdigest hhashed
        rw [wp_bind, wp_get, wp_bind, wp_emit, wp_ite, hdigest]
        refine ⟨fun hok => iff_of_false nofun fun hfails => ?_, fun hfails => ?_⟩
        · cases hfails with
          | key fails => exact nomatch hderive.symm.trans fails
          | digest absent fails =>
              obtain ⟨hfirst, hsecond⟩ := hhashed absent
              rcases fails with hnone | hfalse
              · exact hfirst hnone
              · exact nomatch hsecond.symm.trans hfalse
          | signature derived fails =>
              obtain rfl := Option.some.inj (hderive.symm.trans derived)
              exact nomatch hok.symm.trans fails
        · exact iff_of_true rfl (.signature hderive (Bool.eq_false_iff.mpr hfails))
      dsimp only
      rw [wp_bind, wp_ite]
      refine ⟨fun habsent => ?_, fun hinPlace => ?_⟩
      · cases hhash : cxHashNoThrow o d.tx.sha256 [] with
        | none => exact iff_of_true rfl (.digest habsent (Or.inl hhash))
        | some m =>
            obtain ⟨m₀, hctx, rfl⟩ := cxHashNoThrow_some hhash
            rw [List.append_nil] at hhash ⊢
            dsimp only
            rw [wp_bind, wp_modify]
            cases hhash' : cxHashNoThrow o (some []) (pf.sha256 m₀) with
            | none =>
                refine iff_of_true rfl (.digest habsent (Or.inr ?_))
                rw [hctx, Option.getD_some]
                rw [cxHashNoThrow, List.nil_append] at hhash'
                simpa using hhash'
            | some m =>
                obtain ⟨m₁, hm₁, rfl⟩ := cxHashNoThrow_some hhash'
                cases hm₁
                refine hsign ?_ fun _ => ⟨?_, ?_⟩
                · rw [digestOf, if_pos habsent, hctx]
                  rfl
                · rw [hhash]
                  exact Option.some_ne_none _
                · rw [hctx, Option.getD_some]
                  rw [cxHashNoThrow, List.nil_append] at hhash'
                  by_contra hfalse
                  rw [if_neg hfalse] at hhash'
                  cases hhash'
      · refine hsign ?_ fun habsent => absurd habsent hinPlace
        rw [digestOf, if_neg hinPlace]

theorem FailsToSign.of_path {data : Bytes} {d : Device} {read : Bool} {path : Bip32Path} {rest : Buffer}
    (hread : bufferReadBip32Path (Buffer.ofData data) d.gContext.bip32Path = (read, path, rest)) (h : FailsToSign pf o data d) :
    read = true ∧ (path = [] ∨ SigningFails pf o d.tx path) := by
  obtain ⟨path', rest', hread', hfails⟩ := h.fails
  obtain ⟨rfl, rfl, rfl⟩ : read = true ∧ path = path' ∧ rest = rest' := by
    rw [hread] at hread'
    simpa using hread'
  exact ⟨rfl, hfails⟩

/-- A sign command returns a negative value when it fails to sign, and only then. -/
theorem handlerSignTx_sign_negative (data : Bytes) (chunk : Nat) {d : Device} (hio : d.gIoState ≠ .ready) :
    wp (handlerSignTx pf o (Buffer.ofData data) .sign chunk) (fun v _ _ => v < 0 ↔ FailsToSign pf o data d)
      (fun _ _ _ => False) False d := by
  have hnonneg := replyResult_nonneg hio
  have hrefused : ∀ d : Device, (if decide (replyResult d > 0) then (0 : Int) else -1) < 0 := by
    intro d
    obtain h | h := replyResult_cases d <;> rw [h] <;> decide
  unfold handlerSignTx
  rw [wp_bind, wp_modify, wp_bind, wp_get]
  dsimp only
  rw [wp_ite]
  refine ⟨fun hstate => ?_, fun hstate => ?_⟩
  · rw [wp_ioSendSw]
    exact iff_of_false (Int.not_lt.mpr hnonneg) fun h => hstate h.approved
  rw [not_not] at hstate
  unfold readContextPath
  obtain ⟨⟨read, path, rest⟩, hread⟩ :
    ∃ r, bufferReadBip32Path (Buffer.ofData data) d.gContext.bip32Path = r := ⟨_, rfl⟩
  have hread' : bufferReadBip32Path (Buffer.ofData data) (d.withTx d.tx.resetCall).gContext.bip32Path =
    (read, path, rest) := hread
  simp only [wp_bind, wp_get, wp_modify, wp_pure, hread']
  cases read with
  | false =>
      simp only [Bool.not_false, if_true, wp_ioSendSw]
      exact iff_of_false (Int.not_lt.mpr hnonneg) fun h => absurd (h.of_path hread).1 (by decide)
  | true =>
      simp only [Bool.not_true, Bool.false_eq_true, if_false]
      rw [wp_accepted]
      unfold signTxWithKey
      rw [wp_bind, wp_get, wp_ite]
      refine ⟨fun hempty => ?_, fun hpath => ?_⟩
      · rw [wp_bind, wp_ioSendSw, wp_pure]
        exact iff_of_true (hrefused _) ⟨hstate, path, rest, hread, Or.inl (List.length_eq_zero_iff.mp hempty)⟩
      · have hnonempty : path ≠ [] := fun h => hpath (List.length_eq_zero_iff.mpr h)
        rw [wp_bind]
        have hsighash := wp_and (signSighash_none_iff pf o ((d.withTx d.tx.resetCall).withPath path))
          (signSighash_spec pf o ((d.withTx d.tx.resetCall).withPath path))
        refine wp_mono hsighash ?_ (fun _ _ _ h => h.1) fun h => h.1
        rintro r d' w ⟨hnone, heffect⟩
        cases r with
        | none =>
            dsimp only
            rw [wp_bind, wp_ioSendSw, wp_pure]
            exact iff_of_true (hrefused _) ⟨hstate, path, rest, hread, Or.inr (signingFails_resetCall.mp (hnone.mp rfl))⟩
        | some signature =>
            dsimp only
            rw [wp_bind, wp_ioSendResponse, wp_pure]
            obtain ⟨tx, rfl⟩ := heffect.frame
            have hsent : decide (replyResult (((d.withTx d.tx.resetCall).withPath path).withTx tx) ≥ 0) = true :=
              decide_eq_true hnonneg
            rw [hsent]
            refine iff_of_false (by decide) fun h => ?_
            rcases (h.of_path hread).2 with hnil | hfails
            · exact hnonempty hnil
            · exact Option.some_ne_none _ (hnone.mpr (signingFails_resetCall.mpr hfails))

end Signing

section Decoder

variable {verify : ChangeOutputInfo → TxOutput → Option Bool} {registry : TokenDataCtx} {tx : SignTxCtx} {s s' : TxState}
  {l : Bytes}

theorem verifyChangeEntries_underivable {output : TxOutput} {before after : List ChangeOutputInfo} {info : ChangeOutputInfo}
    (hbefore : ChangeVerifies verify before output) (hindex : output.index = info.index)
    (hnone : verify info output = none) (tx : SignTxCtx) :
    wp (verifyChangeEntries verify output (before ++ info :: after)) (fun _ _ _ => False)
      (fun e _ _ => e = swInternalError) False tx := by
  induction before with
  | nil =>
      rw [List.nil_append]
      unfold verifyChangeEntries
      rw [if_pos hindex, wp_bind, wp_emit, hnone]
      rfl
  | cons first before ih =>
      have hrest := ih fun i hi => hbefore i (List.mem_cons_of_mem _ hi)
      rw [List.cons_append]
      unfold verifyChangeEntries
      by_cases hfirst : output.index = first.index
      · rw [if_pos hfirst, wp_bind, wp_emit, hbefore first List.mem_cons_self hfirst]
        exact hrest
      · rw [if_neg hfirst]
        exact hrest

/-- The call at which the key of a change entry is asked for. -/
theorem _decodeElements_underivable (hrep : tx.Represents s)
    (hfails : ChangeCheckFails verify tx.changes tx.outputsLen s tx.buffer) :
    wp (_decodeElements verify registry) (fun _ _ _ => False) (fun e _ _ => e = swInternalError) False tx := by
  obtain ⟨htokens, hinputs, hpending, parsed, n, hparse, hauthority, hindex, before, info, after, hsplit, hbefore,
    hinfo, hnone⟩ := hfails
  unfold _decodeElements
  have hremaining : ¬tx.remainingTokens > 0 := by
    rw [hrep.remainingTokens, htokens]
    exact Nat.lt_irrefl 0
  have hnoInputs : ¬tx.remainingInputs > 0 := by
    rw [hrep.remainingInputs, hinputs]
    exact Nat.lt_irrefl 0
  have hmore : tx.currentOutput < tx.outputsLen := by
    rw [hrep.currentOutput]
    exact hpending
  have hinTable : ¬parsed.tokenData &&& tokenDataIndexMask > tx.tokens.length := by
    rw [hrep.tokens]
    exact Nat.not_lt.mpr hindex
  rw [wp_bind, wp_get, if_neg hremaining, if_neg hnoInputs, if_pos hmore, wp_bind]
  unfold decodeOutput
  rw [hparse]
  dsimp only
  rw [if_neg (not_not.mpr hauthority), if_neg hinTable, wp_bind, wp_modify, wp_bind, hsplit, hrep.currentOutput]
  exact wp_mono (verifyChangeEntries_underivable hbefore hinfo.symm hnone _) (fun _ _ _ h => h.elim)
    (fun _ _ _ h => h) id

theorem ChangeCheckFails.nonempty {changes : List ChangeOutputInfo} {outputsLen : Nat}
    (h : ChangeCheckFails verify changes outputsLen s l) : l ≠ [] := by
  obtain ⟨_, _, _, parsed, n, hparse, _⟩ := h
  rintro rfl
  obtain ⟨_, _, hlen, _⟩ := parseOutput_ok hparse
  have hpos := outputLen_le []
  rw [List.length_nil] at hlen
  omega

/-- The decoder comes to the output, and the loop ends with the error. -/
theorem decodeLoop_underivable (fuel : Nat) {tx : SignTxCtx} {s : TxState} (hrep : tx.Represents s)
    (hroom : 32 * tx.bufferOutputLen + tx.buffer.length ≤ decodeBufferLen) (hfuel : tx.buffer.length < fuel)
    (hreaches : (txMachine verify registry tx.changes tx.outputsLen).Reaches s tx.buffer s' l)
    (hfails : ChangeCheckFails verify tx.changes tx.outputsLen s' l) :
    wp (decodeLoop verify registry fuel) (fun _ _ _ => False) (fun e _ _ => e = swInternalError) True tx := by
  induction fuel generalizing tx s with
  | zero => omega
  | succ fuel ih =>
      unfold decodeLoop
      rw [wp_bind]
      rcases hreaches.head_cases with ⟨rfl, rfl⟩ | ⟨s₁, n, hnext, hrest⟩
      · exact wp_mono (_decodeElements_underivable hrep hfails) (fun _ _ _ h => h.elim) (fun _ _ _ h => h) False.elim
      · have hnext' : nextElement verify registry tx.changes tx.outputsLen s tx.buffer = .element s₁ n := hnext
        refine wp_mono (_decodeElements_spec verify registry hrep hroom) ?_ ?_ fun _ => trivial
        · rintro b tx' w ⟨rfl, s₂, n', helement, rfl, _, _⟩
          obtain ⟨rfl, rfl⟩ : s₂ = s₁ ∧ n' = n := by
            have hsame := (nextElement_of_element helement).symm.trans hnext'
            rw [Next.element.injEq] at hsame
            exact hsame
          have hpos := helement.pos
          have hle := helement.le
          rw [wp_ite]
          refine ⟨fun _ => ?_, fun hempty => ?_⟩
          · refine wp_mono (ih (SignTxCtx.Represents.took tx s₂ _) (helement.took_room hrep hroom) ?_ hrest hfails)
              (fun _ _ _ h => h) (fun _ _ _ h => h) id
            show (tx.buffer.drop n').length < fuel
            rw [List.length_drop]
            omega
          · have hnil : tx.buffer.drop n' = [] := by
              rw [decide_eq_true_eq, not_not] at hempty
              exact List.length_eq_zero_iff.mp hempty
            rw [hnil] at hrest
            exact absurd hrest.of_nil hfails.nonempty
        · rintro e tx' w (⟨_, hmore, _⟩ | ⟨_, hfail, _⟩)
          · rw [hnext'] at hmore
            cases hmore
          · rw [hnext'] at hfail
            cases hfail

theorem decodeElements_underivable (hrep : tx.Represents s)
    (hroom : 32 * tx.bufferOutputLen + tx.buffer.length ≤ decodeBufferLen)
    (hreaches : (txMachine verify registry tx.changes tx.outputsLen).Reaches s tx.buffer s' l)
    (hfails : ChangeCheckFails verify tx.changes tx.outputsLen s' l) :
    wp (decodeElements verify registry) (fun result _ _ => result = swInternalError) (fun _ _ _ => False) True tx := by
  unfold decodeElements
  rw [wp_bind, wp_get, wp_catchAll, wp_bind]
  refine wp_mono (decodeLoop_underivable _ hrep hroom (Nat.lt_succ_self _) hreaches hfails) (fun _ _ _ h => h.elim) ?_ id
  rintro e tx' w rfl
  rfl

end Decoder

section Data

variable (pf : Platform) (o : Outcome)

/-- The decoder comes to a change output whose key cannot be derived. -/
def DecodesUnderivable (d : Device) : Prop :=
  ∃ s l, (txMachine (verifyChange pf o) d.gTokenSymbols d.tx.changes d.tx.outputsLen).Reaches d.tx.someState d.tx.buffer s l ∧
    ChangeCheckFails (verifyChange pf o) d.tx.changes d.tx.outputsLen s l

/-- So it does on the chunk of a data command. -/
def FailsToDecode (data : Bytes) (chunk : Nat) (d : Device) : Prop :=
  d.state ≠ .approved ∧ (0 < chunk → d.state = .recvData) ∧
    ∃ d₁, takeChunk o (Buffer.ofData data) chunk (d.withTx d.tx.resetCall) = .ret () d₁ [] ∧ DecodesUnderivable pf o d₁

variable {pf o} {d d' : Device} {data : Bytes} {chunk : Nat} {w : List Obs}

theorem decodeChunk_underivable (hroom : 32 * d.tx.bufferOutputLen + d.tx.buffer.length ≤ decodeBufferLen)
    (h : DecodesUnderivable pf o d) :
    wp (decodeChunk pf o) (fun b _ _ => b = false) (fun _ _ _ => False) True d := by
  obtain ⟨s, l, hreaches, hfails⟩ := h
  unfold decodeChunk
  rw [wp_bind, wp_get, wp_bind, wp_onTx]
  refine wp_mono (decodeElements_underivable d.tx.represents_someState hroom hreaches hfails) ?_ (fun _ _ _ h => h) id
  rintro result tx' w rfl
  rfl

/-- A taken chunk fits the decode buffer. -/
theorem takeChunk_room (hdata : data.length ≤ decodeBufferLen) (hbuffer : d.tx.buffer.length ≤ decodeBufferLen)
    (hempty : d.tx.bufferOutputLen = 0) (hstate : 0 < chunk → d.state = .recvData) {d₁ : Device}
    (ret : takeChunk o (Buffer.ofData data) chunk d = .ret () d₁ w) :
    32 * d₁.tx.bufferOutputLen + d₁.tx.buffer.length ≤ decodeBufferLen := by
  rcases Nat.eq_zero_or_pos chunk with rfl | hlater
  · by_cases hrecv : d.state = .recvData
    · have hthrown : wp (takeChunk o (Buffer.ofData data) 0) (fun _ _ _ => False) (fun _ _ _ => True) False d := by
        unfold takeChunk
        rw [if_pos rfl, wp_bind, wp_get, if_pos hrecv]
        trivial
      rw [wp_of_ret ret] at hthrown
      exact hthrown.elim
    · have hspec := takeChunk_first_spec o hdata d hrecv
      rw [wp_of_ret ret] at hspec
      obtain ⟨_, changeLen, changeInfo, offset, _, _, _, _, rfl⟩ := hspec
      show 32 * 0 + ((data.drop offset).drop 5).length ≤ decodeBufferLen
      simp only [List.length_drop]
      omega
  · have hspec : wp (takeChunk o (Buffer.ofData data) chunk)
        (fun _ d₁ _ => 32 * d₁.tx.bufferOutputLen + d₁.tx.buffer.length ≤ decodeBufferLen) (fun _ _ _ => True) False d := by
      rw [takeChunk_later o hlater]
      cases cxHashNoThrow o d.tx.sha256 data with
      | none => trivial
      | some m =>
          dsimp only
          split
          · trivial
          · show 32 * d.tx.bufferOutputLen + (d.tx.buffer ++ data).length ≤ decodeBufferLen
            rw [hempty, List.length_append]
            omega
    rw [wp_of_ret ret] at hspec
    exact hspec

theorem DecodeEffect.negative {s : TxState} {accepted : Bool} (h : DecodeEffect pf o s d accepted d' w)
    (hstate : s = d.tx.someState) (hv : (if accepted then (0 : Int) else -1) < 0) : DecodesUnderivable pf o d := by
  cases h with
  | rejected => cases hv
  | broken _ refuses =>
      subst hstate
      rcases refuses.2 with herr | hparse | ⟨_, s', l, hreaches, hfails⟩
      · exact absurd herr (by decide)
      · exact absurd hparse (by decide)
      · exact ⟨s', l, hreaches, hfails⟩
  | awaits => cases hv
  | displays => cases hv

/-- A data command returns a negative value when the decoder comes to a key that cannot be derived, and only then. -/
theorem handlerSignTx_data_negative (hio : d.gIoState ≠ .ready) (hnonempty : data ≠ []) (hlen : data.length ≤ decodeBufferLen)
    (hbuffer : d.tx.buffer.length ≤ decodeBufferLen) :
    wp (handlerSignTx pf o (Buffer.ofData data) .data chunk) (fun v _ _ => v < 0 ↔ FailsToDecode pf o data chunk d)
      (fun _ _ _ => ¬FailsToDecode pf o data chunk d) True d := by
  by_cases hfails : FailsToDecode pf o data chunk d
  · obtain ⟨hstate, hfits, d₁, ret, hunderivable⟩ := hfails
    have hroom : 32 * d₁.tx.bufferOutputLen + d₁.tx.buffer.length ≤ decodeBufferLen :=
      takeChunk_room (d := d.withTx d.tx.resetCall) hlen hbuffer rfl hfits ret
    have hmisfit : ¬(chunk > 0 ∧ (d.withTx d.tx.resetCall).state ≠ .recvData) := fun h => h.2 (hfits h.1)
    have hopen : ¬(d.withTx d.tx.resetCall).state = .approved := hstate
    unfold handlerSignTx
    rw [wp_bind, wp_modify, wp_bind, wp_get]
    dsimp only
    rw [if_neg hopen, if_neg hmisfit, wp_accepted, receiveData, wp_bind, wp_of_ret ret]
    refine wp_mono (decodeChunk_underivable hroom hunderivable) ?_ (fun _ _ _ h => h.elim) id
    rintro b d' w rfl
    exact iff_of_true (by decide) ⟨hstate, hfits, d₁, ret, hunderivable⟩
  by_cases happroved : d.state = .approved
  · have happroved' : (d.withTx d.tx.resetCall).state = .approved := happroved
    unfold handlerSignTx
    rw [wp_bind, wp_modify, wp_bind, wp_get]
    dsimp only
    rw [if_pos happroved', wp_bzeroMenuReply]
    exact iff_of_false (Int.not_lt.mpr (replyResult_nonneg hio)) hfails
  · have hspec := handlerSignTx_data_spec pf o data chunk hnonempty hlen d.tx.represents_someState
    refine wp_mono hspec ?_ (fun _ _ _ _ => hfails) fun _ => trivial
    intro v d' w heffect
    refine iff_of_false (fun hv => ?_) hfails
    generalize hr : Ending.ret v = r at heffect
    cases heffect with
    | dropped =>
        cases hr
        exact absurd hv (Int.not_lt.mpr (replyResult_nonneg hio))
    | busy => cases hr
    | headerUnread => cases hr
    | started first state _ _ _ _ taken effect =>
        cases hr
        subst first
        exact hfails ⟨happroved, fun h => absurd h (Nat.lt_irrefl 0), _, taken, effect.negative rfl hv⟩
    | notHashed => cases hr
    | notCopied => cases hr
    | continued later state _ taken effect =>
        cases hr
        have hrecv : d.state = .recvData := state
        refine hfails ⟨?_, fun _ => hrecv, _, taken, effect.negative rfl hv⟩
        rw [hrecv]
        decide

end Data

section Command

variable (pf : Platform) (o : Outcome)

/-- The dispatcher returns a negative value. -/
def FailsUnanswered (cmd : Command) (d : Device) : Prop :=
  cmd.Is insSignTx ∧ cmd.data ≠ [] ∧
    (cmd.p1 = 0 ∧ FailsToDecode pf o cmd.data cmd.p2 (wake d) ∨
      cmd.p1 = 1 ∧ cmd.p2 = 0 ∧ FailsToSign pf o cmd.data (wake d))

def Ending.Negative : Ending → Prop
  | .ret v => v < 0
  | .thrown _ => False

variable {pf o} {d d' : Device} {cmd : Command} {w : List Obs}

theorem apduDispatcher_negative (hfits : cmd.Fits) (hio : (wake d).gIoState ≠ .ready)
    (hbuffer : d.tx.buffer.length ≤ decodeBufferLen) :
    wp (apduDispatcher pf o cmd) (fun v _ _ => v < 0 ↔ FailsUnanswered pf o cmd d)
      (fun _ _ _ => ¬FailsUnanswered pf o cmd d) True (wake d) := by
  have hnonneg : ¬replyResult (wake d) < 0 := Int.not_lt.mpr (replyResult_nonneg hio)
  have hlen : cmd.data.length ≤ decodeBufferLen := Nat.le_trans hfits (by decide)
  by_cases hsends : cmd.SendsData
  · have hstage : cmd.p1 ≠ 1 := by
      rw [hsends.stage]
      decide
    have hbuffer' : (wake d).tx.buffer.length ≤ decodeBufferLen := by
      rw [Device.tx, wake_gContext]
      exact hbuffer
    have hiff : cmd.data ≠ [] → (FailsToDecode pf o cmd.data cmd.p2 (wake d) ↔ FailsUnanswered pf o cmd d) :=
      fun hdata => ⟨fun h => ⟨hsends.ins, hdata, Or.inl ⟨hsends.stage, h⟩⟩, fun h =>
        h.2.2.elim (fun h => h.2) fun h => absurd h.1 hstage⟩
    rw [apduDispatcher_data hsends, wp_ite]
    refine ⟨fun hnil => ?_, fun hdata => ?_⟩
    · rw [wp_ioSendSw]
      exact iff_of_false hnonneg fun h => h.2.1 hnil
    · refine wp_mono (handlerSignTx_data_negative hio hdata hlen hbuffer') ?_ ?_ id
      · exact fun _ _ _ h => h.trans (hiff hdata)
      · exact fun _ _ _ h hfails => h ((hiff hdata).mpr hfails)
  · by_cases hsign : cmd.Is insSignTx ∧ cmd.p1 = 1
    · obtain ⟨is, hstage⟩ := hsign
      have hother : cmd.p1 ≠ 0 := by
        rw [hstage]
        decide
      rw [apduDispatcher_sign is hstage, wp_ite]
      refine ⟨fun hp2 => ?_, fun hp2 => ?_⟩
      · rw [wp_ioSendSw]
        refine iff_of_false hnonneg ?_
        rintro ⟨_, _, ⟨h, _⟩ | ⟨_, h, _⟩⟩
        · exact hother h
        · exact hp2 h
      · rw [wp_ite]
        refine ⟨fun hnil => ?_, fun hdata => ?_⟩
        · rw [wp_ioSendSw]
          exact iff_of_false hnonneg fun h => h.2.1 hnil
        · refine wp_mono (handlerSignTx_sign_negative cmd.data cmd.p2 hio) ?_ (fun _ _ _ h => h.elim) fun _ => trivial
          intro v _ _ h
          refine h.trans ⟨fun h => ⟨is, hdata, Or.inr ⟨hstage, not_not.mp hp2, h⟩⟩, fun h => ?_⟩
          exact h.2.2.elim (fun h => absurd h.1 hother) fun h => h.2.2
    · have hnot : ¬FailsUnanswered pf o cmd d := by
        rintro ⟨is, _, ⟨h, _⟩ | ⟨h, _⟩⟩
        · exact hsends ⟨is, h⟩
        · exact hsign ⟨is, h⟩
      rcases apduDispatcher_answers pf o cmd with hanswers | ⟨is, _, ⟨h, _⟩ | ⟨h, _⟩⟩
      · refine wp_mono (hanswers (wake d)) ?_ (fun _ _ _ _ => hnot) id
        exact fun v _ _ h => iff_of_false (Int.not_lt.mpr (h.2 hio)) hnot
      · exact absurd ⟨is, h⟩ hsends
      · exact absurd ⟨is, h⟩ hsign

/-! Nothing but the command loop starts the application anew. -/

theorem Dispatched.stays {s : TxState} {r : Ending} (h : Dispatched pf o cmd s d r d' w) : Obs.restart ∉ w := by
  cases h with
  | aside _ effect => exact effect.seen.no_restart
  | registers _ effect => exact effect.aside.seen.no_restart
  | data _ _ effect => exact effect.registry.2
  | sign _ _ effect => exact effect.no_restart

/-- One reply was sent, or none while a screen asks, and the application goes on. -/
structure AnsweredOnce (d' : Device) (w : List Obs) : Prop where
  stays : Obs.restart ∉ w
  once : (replies w).length = if d'.flow.asks then 0 else 1

variable (pf o) in
/-- A command is answered once when no reply is owed as it arrives, unless the dispatcher returns a negative value. -/
theorem handleCommand_answered {raw : Bytes} (hparse : apduParser raw = some cmd) (hd : d.Disciplined)
    (hfree : d.gIoState ≠ .waiting) (hbuffer : d.tx.buffer.length ≤ decodeBufferLen) :
    wp (handleCommand pf o raw) (fun _ d' w => AnsweredOnce d' w ↔ ¬FailsUnanswered pf o cmd d)
      (fun _ _ _ => False) True d := by
  have hio := hd.wake_received
  have hready : (wake d).gIoState ≠ .ready := by
    rw [hio]
    decide
  have hclosed : (wake d).flow.asks = false := by
    rw [wake_flow]
    exact Bool.eq_false_iff.mpr fun hasks => hfree (hd.owed.mp hasks)
  have hfits := apduParser_fits hparse
  have hdispatched := wp_and (concluding_apduDispatcher hfits (wake d)) (wp_and (apduDispatcher_negative hfits hready hbuffer)
    (apduDispatcher_spec pf o hfits d.tx.represents_someState))
  have hends := handleCommand_ends pf hparse (R := fun r d₁ w => Concludes _ (wake d) r d₁ w ∧
    (r.Negative ↔ FailsUnanswered pf o cmd d) ∧ Obs.restart ∉ w)
    (wp_mono hdispatched (fun _ _ _ h => ⟨h.1, h.2.1, h.2.2.stays⟩)
      (fun _ _ _ h => ⟨h.1, iff_of_false id h.2.1, h.2.2.stays⟩) fun h => h.1)
  refine wp_mono hends ?_ (fun _ _ _ h => h) id
  rintro _ d' _ ⟨r, d₁, w₁, w₂, ⟨hconcludes, hnegative, hstays⟩, hrests, rfl⟩
  rw [← hnegative]
  cases hrests with
  | replied nonneg ready =>
      refine iff_of_true ⟨?_, ?_⟩ (Int.not_lt.mpr nonneg)
      · rw [List.append_nil]
        exact hstays
      · cases hconcludes with
        | replied one _ screen =>
            have hshut : d₁.flow.asks = false := screen.elim (fun h => h ▸ hclosed) id
            simp [one, hshut]
        | asks _ io => exact nomatch ready.symm.trans (io.trans hio)
        | fails negative => exact absurd negative (Int.not_lt.mpr nonneg)
  | owes nonneg received =>
      refine iff_of_true ⟨?_, ?_⟩ (Int.not_lt.mpr nonneg)
      · rw [List.append_nil]
        exact hstays
      · cases hconcludes with
        | replied _ ready => exact nomatch ready.symm.trans received
        | asks none _ screen => simp [none, screen]
        | fails negative => exact absurd negative (Int.not_lt.mpr nonneg)
  | thrown =>
      cases hconcludes with
      | throws quiet =>
          refine iff_of_true ⟨?_, ?_⟩ id
          · simp [hstays]
          · simp [quiet.none, quiet.flow, hclosed]
  | @restarts v cause =>
      have hneg : (Ending.ret v).Negative := by
        rcases cause with hneg | hwaiting
        · exact hneg
        · cases hconcludes with
          | replied _ ready => exact nomatch ready.symm.trans hwaiting
          | asks _ io => exact nomatch hwaiting.symm.trans (io.trans hio)
          | fails negative => exact negative
      refine iff_of_false (fun h => h.stays ?_) (not_not.mpr hneg)
      exact List.mem_append_right _ (List.mem_singleton_self _)

end Command

section Presses

variable {pf : Platform} {o : Outcome} {d d' : Device} {w w₀ : List Obs} {choice : Bool}

theorem runCallback_stays (callback : Callback) (choice : Bool) (d : Device) :
    wp (runCallback pf o callback choice) (fun _ _ w => Obs.restart ∉ w) (fun _ _ _ => True) True d := by
  have hdeny : wp (bzeroAndReply swDeny) (fun _ _ w => Obs.restart ∉ w) (fun _ _ _ => True) True d := by
    rw [wp_bzeroAndReply]
    simp
  by_cases htx : callback = .uiActionTxConfirm
  · subst htx
    refine (wp_ite _ _ _).mpr ⟨fun _ => ?_, fun _ => hdeny⟩
    simp only [wp_bind, wp_modify, wp_ioSendSw, wp_uxFlowInit]
    simp
  · by_cases houtput : callback = .uiConfirmOutput
    · subst houtput
      cases choice with
      | true =>
          refine wp_mono (uiConfirmOutput_spec pf o d) ?_ (fun _ _ _ h => h.elim) fun _ => trivial
          rintro _ d' w ⟨tx, _, hends⟩
          exact hends.registry.2
      | false => exact hdeny
    · refine wp_mono (aside_runCallback pf o htx houtput choice d) ?_ (fun _ _ _ _ => trivial) fun _ => trivial
      exact fun _ _ _ h => h.seen.no_restart

variable (pf o) in
theorem handlePress_stays (choice : Bool) (d : Device) :
    wp (handlePress pf o choice) (fun _ _ w => Obs.restart ∉ w) (fun _ _ _ => True) True d := by
  unfold handlePress
  rw [wp_bind, wp_get, wp_ite]
  refine ⟨fun hstep => ?_, fun _ => by simp⟩
  have hasked : d.flow.asks = true := by
    cases choice with
    | true => exact hstep
    | false => exact asks_of_rejects hstep
  split
  · trivial
  · rename_i callback _
    rw [wp_catchAll]
    refine wp_mono (wp_and (runCallback_stays callback choice d) (runCallback_ends pf o hasked callback)) ?_ ?_ fun h => h.1
    · exact fun _ _ _ h => h.1
    · exact fun _ _ _ h => h.2.elim

/-- A press leaves a command answered as it was: the reply is sent as the last screen closes. -/
theorem PressEnds.answered_iff (h : PressEnds choice d d' w) (hstays : Obs.restart ∉ w) :
    AnsweredOnce d' (w ++ w₀) ↔ AnsweredOnce d w₀ := by
  have hkept : Obs.restart ∉ w ++ w₀ ↔ Obs.restart ∉ w₀ := by simp [hstays]
  have hcount : (replies (w ++ w₀)).length = (replies w).length + (replies w₀).length := by
    rw [replies_append, List.length_append]
  have hsame : ((replies (w ++ w₀)).length = if d'.flow.asks then 0 else 1) ↔
      (replies w₀).length = if d.flow.asks then 0 else 1 := by
    cases h with
    | ignored => rw [List.nil_append]
    | replied asked one _ closed =>
        rw [hcount, one, asked, closed, if_pos rfl, if_neg (by decide)]
        omega
    | asks asked none _ screen =>
        rw [hcount, none, asked, asks_of_ofTx screen, List.length_nil, Nat.zero_add]
  exact ⟨fun h => ⟨hkept.mp h.stays, hsame.mp h.once⟩, fun h => ⟨hkept.mpr h.stays, hsame.mpr h.once⟩⟩

theorem handleQuit_answered (w₀ : List Obs) (d : Device) :
    wp handleQuit (fun _ d' w => AnsweredOnce d' (w ++ w₀) ↔ AnsweredOnce d w₀) (fun _ _ _ => False) False d := by
  unfold handleQuit
  rw [wp_bind, wp_get, wp_ite]
  refine ⟨fun hprocessing => ?_, fun _ => Iff.rfl⟩
  simp only [wp_bind, wp_modify, wp_uiMenuMain]
  have hclosed : d.flow.asks = false := by
    rw [hprocessing]
    rfl
  constructor
  · rintro ⟨hstays, honce⟩
    refine ⟨fun h => hstays (List.mem_append_right _ h), ?_⟩
    rw [hclosed]
    exact honce
  · rintro ⟨hstays, honce⟩
    refine ⟨by simp [hstays], ?_⟩
    rw [hclosed] at honce
    exact honce

end Presses

section Run

variable {pf : Platform} {h later : History Device Event Obs} {d : Device}

def Event.IsCommand (e : Event) : Prop := ∃ o raw, e = .apdu o raw

/-- What is seen in some steps. -/
def seenIn (steps : History Device Event Obs) : List Obs := steps.flatMap (·.seen)

/-- Presses after a command do not change whether it is answered once. -/
theorem answered_iff_of_presses {r : Step Device Event Obs} (run : Run (waitingSystem pf) (later ++ r :: h) d)
    (hpresses : ∀ r' ∈ later, ¬r'.event.IsCommand) :
    AnsweredOnce d (seenIn (later ++ [r])) ↔ AnsweredOnce r.post r.seen := by
  induction later generalizing d with
  | nil =>
      cases run with
      | step => rw [seenIn, List.nil_append, List.flatMap_singleton]
  | cons r' later ih =>
      obtain ⟨hlast, hpresses'⟩ := List.forall_mem_cons.mp hpresses
      cases run with
      | @step h' d₀ _ e w run admitted ret =>
          rw [← ih run hpresses']
          have hseen : seenIn (⟨d₀, e, w, d⟩ :: later ++ [r]) = w ++ seenIn (later ++ [r]) := rfl
          rw [hseen]
          cases e with
          | apdu o raw => exact absurd ⟨o, raw, rfl⟩ hlast
          | press o choice =>
              have ret' : handlePress pf o choice d₀ = .ret () d w := ret
              have hends := handlePress_ends pf o choice d₀
              have hstays := handlePress_stays pf o choice d₀
              rw [wp_of_ret ret'] at hends hstays
              exact hends.answered_iff hstays
          | quit =>
              have ret' : handleQuit d₀ = .ret () d w := ret
              have hquit := handleQuit_answered (seenIn (later ++ [r])) d₀
              rw [wp_of_ret ret'] at hquit
              exact hquit

/-- In a run of a host that waits, a command and the presses after it end with one reply, or with none while a screen asks,
exactly when the command is not one for which the dispatcher returns a negative value. -/
theorem answered_once_iff {r : Step Device Event Obs} {o : Outcome} {raw : Bytes} {cmd : Command}
    (run : Run (waitingSystem pf) (later ++ r :: h) d) (hevent : r.event = .apdu o raw) (hparse : apduParser raw = some cmd)
    (hpresses : ∀ r' ∈ later, ¬r'.event.IsCommand) :
    AnsweredOnce d (seenIn (later ++ [r])) ↔ ¬FailsUnanswered pf o cmd r.pre := by
  obtain ⟨hbefore, hadmitted, ret⟩ := run.before
  rw [answered_iff_of_presses run hpresses]
  have hfree : r.pre.gIoState ≠ .waiting := hadmitted rfl o raw hevent
  have htail : r.pre.tx.buffer.length ≤ 35 := tail_invariant.run (free_of_waiting hbefore)
  have hspec := handleCommand_answered pf o hparse (run_disciplined hbefore) hfree
    (Nat.le_trans htail (by decide))
  have ret' : handleCommand pf o raw r.pre = .ret () r.post r.seen := by
    rw [hevent] at ret
    exact ret
  rw [wp_of_ret ret'] at hspec
  exact hspec

def Event.rawBytes : Event → Bytes
  | .apdu _ raw => raw
  | _ => []

/-- A reset is asked for and approved. -/
theorem answered_once_iff_reset :
    ∃ h later r d o raw cmd, Run (waitingSystem countingPlatform) (later ++ r :: h) d ∧ r.event = .apdu o raw ∧
      apduParser raw = some cmd ∧ later.length = 1 ∧ d.flow.asks = false ∧
      (AnsweredOnce d (seenIn (later ++ [r])) ↔ ¬FailsUnanswered countingPlatform o cmd r.pre) := by
  obtain ⟨h, r, hlast, run, hP⟩ := exists_step_of_play countingPlatform true []
    [.apdu (.allOk []) [0xE0, 0x0A, 0, 0, 0]] (press true)
    (fun h r => (h.map fun r' => r'.event.rawBytes) = [[0xE0, 0x0A, 0, 0, 0]] ∧ r.post.flow.asks = false) (by decide +kernel)
  obtain ⟨hraw, hclosed⟩ := of_decide_eq_true hP
  obtain ⟨r₀, rest, rfl, hraw₀, hrest⟩ := List.map_eq_cons_iff.mp hraw
  rw [List.map_eq_nil_iff] at hrest
  subst hrest
  have hpresses : ∀ r' ∈ [r], ¬r'.event.IsCommand := by
    intro r' hr' ⟨o, raw, hevent⟩
    rw [List.mem_singleton.mp hr', hlast] at hevent
    cases hevent
  cases hevent : r₀.event with
  | apdu o raw =>
      rw [hevent] at hraw₀
      obtain rfl : raw = [0xE0, 0x0A, 0, 0, 0] := hraw₀
      exact ⟨[], [r], r₀, r.post, o, _, _, run, hevent, rfl, rfl, hclosed, answered_once_iff run hevent rfl hpresses⟩
  | press o choice =>
      rw [hevent] at hraw₀
      cases hraw₀
  | quit =>
      rw [hevent] at hraw₀
      cases hraw₀

/-- A signature is asked for with an empty path: a reply is prepared, and the application starts anew. -/
theorem unanswered_empty_path :
    ∃ h r raw cmd, Run (waitingSystem countingPlatform) ([] ++ r :: h) r.post ∧ r.event = .apdu (.allOk []) raw ∧
      apduParser raw = some cmd ∧ r.seen = [.response [] swSignatureFail, .restart] ∧
      ¬AnsweredOnce r.post (seenIn ([] ++ [r])) := by
  obtain ⟨h, r, hevent, run, hP⟩ := exists_step_of_play countingPlatform true []
    [signTxData 0 ([0, 0, 1, 0, 0, 1] ++ sampleOutput 7), press true, press true] (.apdu (.allOk []) [0xE0, 0x06, 1, 0, 1, 0])
    (fun _ r => r.seen = [.response [] swSignatureFail, .restart]) (by decide +kernel)
  have hseen := of_decide_eq_true hP
  refine ⟨h, r, _, _, run, hevent, rfl, hseen, fun hanswered => hanswered.stays ?_⟩
  simp [seenIn, hseen]

end Run

end HathorApp
