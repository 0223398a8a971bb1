import HathorApp.Replies
import HathorApp.StoredSecret
import HathorApp.TokenGrammar
import HathorApp.TokenRegistry

/-!
A token signed and verified. SIGN_TOKEN_DATA stores the token it parses, the press that approves it returns
the digest of the stored secret and the token, and from then on the token and the digest are accepted by
VERIFY_TOKEN_SIGNATURE and SEND_TOKEN_DATA, until the secret is reset. What is signed is the token that is
stored when Approve is pressed: a command that clears the context under the screen has another one signed.
-/

namespace HathorApp

open ProgramLogic TraceRun

/-- Version, uid, symbol length, symbol, name length and name. -/
def Token.serialize (token : Token) : Bytes :=
  [UInt8.ofNat token.version] ++ token.uid ++ [UInt8.ofNat token.symbolLen] ++ token.symbol ++
    [UInt8.ofNat token.nameLen] ++ token.name

section Serialize

variable {token : Token} (h : token.WellFormed) (rest : Bytes)

theorem byteAt_behind {front tail : Bytes} {i : Nat} (hi : front.length = i) (c : UInt8) :
    byteAt (front ++ c :: tail) i = c.toNat := by
  subst hi
  simp [byteAt]

theorem toNat_ofNat_lt {n : Nat} (hn : n < 256) : (UInt8.ofNat n).toNat = n := by
  rw [UInt8.toNat_ofNat', Nat.mod_eq_of_lt hn]

include h

theorem Token.WellFormed.length_serialize : token.serialize.length = 35 + token.symbolLen + token.nameLen := by
  have huid : token.uid.length = 32 := h.uid
  simp only [Token.serialize, List.length_append, List.length_singleton, huid, h.symbol, h.name]
  omega

/-- The bytes of a token, up to its symbol. -/
theorem Token.WellFormed.front_length :
    ([UInt8.ofNat token.version] ++ token.uid).length = 33 := by
  have huid : token.uid.length = 32 := h.uid
  rw [List.length_append, List.length_singleton, huid]

theorem symbolLenAt_serialize : tokenSymbolLenAt (token.serialize ++ rest) = token.symbolLen := by
  have hbytes : token.serialize ++ rest = ([UInt8.ofNat token.version] ++ token.uid) ++
      UInt8.ofNat token.symbolLen :: (token.symbol ++ [UInt8.ofNat token.nameLen] ++ token.name ++ rest) := by
    simp [Token.serialize]
  have hlen : token.symbolLen < 256 := Nat.lt_of_le_of_lt h.symbolLen (by decide)
  rw [tokenSymbolLenAt, hbytes, byteAt_behind h.front_length, toNat_ofNat_lt hlen]

theorem symbolAt_serialize : tokenSymbolAt (token.serialize ++ rest) = token.symbol := by
  have hbytes : token.serialize ++ rest =
      ([UInt8.ofNat token.version] ++ token.uid ++ [UInt8.ofNat token.symbolLen]) ++
        (token.symbol ++ ([UInt8.ofNat token.nameLen] ++ token.name ++ rest)) := by
    simp [Token.serialize]
  have hfront : ([UInt8.ofNat token.version] ++ token.uid ++ [UInt8.ofNat token.symbolLen]).length = 34 := by
    rw [List.length_append, h.front_length, List.length_singleton]
  rw [tokenSymbolAt, symbolLenAt_serialize h, hbytes, List.drop_left' hfront, List.take_left' h.symbol]

theorem nameLenAt_serialize : tokenNameLenAt (token.serialize ++ rest) = token.nameLen := by
  have hbytes : token.serialize ++ rest =
      ([UInt8.ofNat token.version] ++ token.uid ++ [UInt8.ofNat token.symbolLen] ++ token.symbol) ++
        UInt8.ofNat token.nameLen :: (token.name ++ rest) := by
    simp [Token.serialize]
  have hfront : ([UInt8.ofNat token.version] ++ token.uid ++ [UInt8.ofNat token.symbolLen] ++ token.symbol).length =
      34 + token.symbolLen := by
    rw [List.length_append, List.length_append, h.front_length, List.length_singleton, h.symbol]
  have hlen : token.nameLen < 256 := Nat.lt_of_le_of_lt h.nameLen (by decide)
  rw [tokenNameLenAt, symbolLenAt_serialize h, hbytes, byteAt_behind hfront, toNat_ofNat_lt hlen]

theorem nameAt_serialize : tokenNameAt (token.serialize ++ rest) = token.name := by
  have hbytes : token.serialize ++ rest =
      ([UInt8.ofNat token.version] ++ token.uid ++ [UInt8.ofNat token.symbolLen] ++ token.symbol ++
        [UInt8.ofNat token.nameLen]) ++ (token.name ++ rest) := by
    simp [Token.serialize]
  have hfront : ([UInt8.ofNat token.version] ++ token.uid ++ [UInt8.ofNat token.symbolLen] ++ token.symbol ++
      [UInt8.ofNat token.nameLen]).length = 35 + token.symbolLen := by
    rw [List.length_append, List.length_append, List.length_append, h.front_length, List.length_singleton,
      List.length_singleton, h.symbol]
    omega
  rw [tokenNameAt, symbolLenAt_serialize h, nameLenAt_serialize h, hbytes, List.drop_left' hfront,
    List.take_left' h.name]

theorem tokenAt_serialize : tokenAt (token.serialize ++ rest) = token := by
  have hversion : byteAt (token.serialize ++ rest) 0 = token.version := by
    have hbytes : token.serialize ++ rest = [] ++ UInt8.ofNat token.version ::
        (token.uid ++ [UInt8.ofNat token.symbolLen] ++ token.symbol ++ [UInt8.ofNat token.nameLen] ++ token.name ++
          rest) := by
      simp [Token.serialize]
    rw [hbytes, byteAt_behind List.length_nil, toNat_ofNat_lt h.version]
  have huid : ((token.serialize ++ rest).drop 1).take tokenUidLen = token.uid := by
    have hbytes : token.serialize ++ rest = [UInt8.ofNat token.version] ++ (token.uid ++
        ([UInt8.ofNat token.symbolLen] ++ token.symbol ++ [UInt8.ofNat token.nameLen] ++ token.name ++ rest)) := by
      simp [Token.serialize]
    rw [hbytes, List.drop_left' List.length_singleton, List.take_left' h.uid]
  rw [tokenAt, huid, hversion, symbolLenAt_serialize h, symbolAt_serialize h, nameLenAt_serialize h,
    nameAt_serialize h]

/-- The parser takes the token back from its bytes, whatever stands behind them. -/
theorem parseToken_serialize (hsymbol : isPrintable token.symbol = true) (hname : isPrintable token.name = true)
    (hsize : (token.serialize ++ rest).length < 2 ^ 32) :
    parseToken (Buffer.ofData (token.serialize ++ rest)) zeroToken =
      (true, token, .at (token.serialize ++ rest) token.serialize.length) := by
  have hfields : IsTokenData (token.serialize ++ rest) := by
    refine ⟨?_, ?_, ?_⟩
    · rw [symbolLenAt_serialize h]
      exact h.symbolLen
    · rw [nameLenAt_serialize h]
      exact h.nameLen
    · rw [tokenDataLen, symbolLenAt_serialize h, nameLenAt_serialize h, List.length_append, h.length_serialize]
      exact Nat.le_add_right _ _
  have hparse := (parseToken_at hsize (Nat.zero_le _) zeroToken).1
  rw [List.drop_zero] at hparse
  rw [Buffer.ofData_eq, hparse hfields, symbolAt_serialize h, nameAt_serialize h, tokenAt_serialize h, hsymbol, hname,
    tokenDataLen, symbolLenAt_serialize h, nameLenAt_serialize h, h.length_serialize, Nat.zero_add, Bool.and_true]

end Serialize

/-- The text of a token that was parsed passed the test of the parser. -/
theorem isPrintable_of_parse {data : Bytes} {token : Token} {rest : Buffer} (hsize : data.length < 2 ^ 32)
    (hparse : parseToken (Buffer.ofData data) zeroToken = (true, token, rest)) :
    isPrintable token.symbol = true ∧ isPrintable token.name = true := by
  rw [Buffer.ofData_eq] at hparse
  have haccepted : (parseToken (.at data 0) zeroToken).1 = true := by rw [hparse]
  obtain ⟨hfields, hsymbol, hname⟩ := (parseToken_fst hsize (Nat.zero_le _) zeroToken).mp haccepted
  have hresult := (parseToken_at hsize (Nat.zero_le _) zeroToken).1 hfields
  rw [hparse, Prod.mk.injEq, Prod.mk.injEq] at hresult
  rw [hresult.2.1]
  exact ⟨hsymbol, hname⟩

/-- A command can be replied to: no press has been answered in its place. -/
def Device.Listens (d : Device) : Prop := d.exchange = .asynchReply ∨ d.gIoState ≠ .ready

instance (d : Device) : Decidable d.Listens := by
  unfold Device.Listens
  infer_instance

theorem Device.Disciplined.isListening {d : Device} (hd : d.Disciplined) : d.Listens := by
  cases hexchange : d.exchange with
  | asynchReply => exact Or.inl hexchange
  | apdu =>
      refine Or.inr fun hready => ?_
      rw [hd.listens hexchange] at hready
      cases hready

theorem Device.Listens.replyResult {d : Device} (h : d.Listens) : replyResult (wake d) = 0 := by
  apply if_neg
  unfold wake
  split
  · exact fun hready => nomatch hready
  · rename_i hexchange
    exact h.resolve_left hexchange

section Commands

variable {pf : Platform} {o : Outcome} {cmd : Command}

/-- What a handler does that sends one reply and returns the result of it. -/
def RepliesWith (P : Nat → Prop) (d : Device) (v : Int) (d' : Device) (w : List Obs) : Prop :=
  v = replyResult d ∧ d'.gIoState = .ready ∧ ∃ sw, w = [.response [] sw] ∧ P sw

theorem repliesWith_ioSendSw {P : Nat → Prop} {sw : Nat} (hsw : P sw) {d d₀ : Device}
    (hio : d.gIoState = d₀.gIoState) :
    wp (ioSendSw sw) (RepliesWith P d₀) (fun _ _ _ => False) False d := by
  have hresult : replyResult d = replyResult d₀ := by rw [replyResult, replyResult, hio]
  rw [wp_ioSendSw]
  exact ⟨hresult, rfl, sw, rfl, hsw⟩

/-- A command that such a handler answers is answered with that reply. -/
theorem handle_replies {raw : Bytes} {d : Device} {P : Nat → Prop} (hparse : apduParser raw = some cmd)
    (hlistens : d.Listens)
    (hdispatch : wp (apduDispatcher pf o cmd) (RepliesWith P (wake d)) (fun _ _ _ => False) False (wake d)) :
    wp (handle pf (.apdu o raw)) (fun _ _ w => ∃ sw, w = [.response [] sw] ∧ P sw) (fun _ _ _ => False) False d := by
  show wp (handleCommand pf o raw) _ _ _ _
  unfold handleCommand
  rw [wp_bind, wp_modify, wp_catchAll, hparse]
  dsimp only
  rw [wp_bind]
  refine wp_mono hdispatch ?_ (fun _ _ _ h => h.elim) id
  rintro v d₁ w ⟨hv, hready, sw, rfl, hsw⟩
  rw [hlistens.replyResult] at hv
  rw [if_neg (by omega)]
  unfold ioRecvCommand
  rw [wp_bind, wp_get, hready]
  exact ⟨sw, rfl, hsw⟩

theorem apduDispatcher_verifyTokenSignature (is : cmd.Is insVerifyTokenSignature) (hp1 : cmd.p1 = 0)
    (hp2 : cmd.p2 = 0) :
    apduDispatcher pf o cmd = handlerVerifyTokenSignature pf o (Buffer.ofData cmd.data) := by
  unfold apduDispatcher
  simp [is.1, is.2, hp1, hp2, insVerifyTokenSignature, insSignTx, insGetVersion, insGetAddress, insGetXpub,
    insSignTokenData, insSendTokenData]

theorem handlerVerifyTokenSignature_replies (pf : Platform) (o : Outcome) (cdata : Buffer) (d : Device) :
    wp (handlerVerifyTokenSignature pf o cdata)
      (RepliesWith (fun sw => sw = swOk ↔ ∃ token, TokenAccepted pf (secretFor o d) cdata token) d)
      (fun _ _ _ => False) False d := by
  unfold handlerVerifyTokenSignature
  rw [wp_bind, wp_modify, wp_bind]
  refine wp_mono (checkTokenSignatureFromApdu_spec pf o cdata d.bzeroContext) ?_ (fun _ _ _ h => h) id
  rintro r d' w ⟨hd', rfl, hverified, _⟩
  have hio : d'.gIoState = d.gIoState := by
    rcases hd' with rfl | rfl
    · rfl
    · rfl
  have hverified : r.1 = 0 ↔ ∃ token, TokenAccepted pf (secretFor o d) cdata token := hverified
  have hrefused : ∀ {sw}, sw ≠ swOk → r.1 ≠ 0 →
      (sw = swOk ↔ ∃ token, TokenAccepted pf (secretFor o d) cdata token) :=
    fun hsw hr => iff_of_false hsw fun h => hr (hverified.mpr h)
  simp only [List.nil_append]
  rw [wp_ite]
  refine ⟨fun hok => ?_, fun hbad => ?_⟩
  · exact repliesWith_ioSendSw (iff_of_true rfl (hverified.mp hok)) hio
  · unfold replyTokenCheck
    rw [wp_ite]
    refine ⟨fun _ => ?_, fun _ => ?_⟩
    · exact repliesWith_ioSendSw (hrefused (by decide) hbad) hio
    · exact repliesWith_ioSendSw (hrefused (by decide) hbad) hio

theorem apduDispatcher_sendTokenData (sends : cmd.SendsToken) :
    apduDispatcher pf o cmd = handlerSendTokenData pf o (decide (cmd.p1 = 0)) (Buffer.ofData cmd.data) := by
  unfold apduDispatcher
  simp [sends.1.1, sends.1.2, sends.2, insSignTx, insGetVersion, insGetAddress, insGetXpub, insSignTokenData,
    insSendTokenData]

/-- A token that is accepted is answered with SW_OK when there is room for it. -/
theorem handlerSendTokenData_accepts {first : Bool} {data : Bytes} {token : Token} {d : Device}
    (hroom : (d.registryBase first).gTokenSymbols.len < txMaxTokens)
    (haccepted : TokenAccepted pf (secretFor o d) (Buffer.ofData data) token) :
    wp (handlerSendTokenData pf o first (Buffer.ofData data)) (RepliesWith (· = swOk) d) (fun _ _ _ => False) False
      d := by
  have hsecret : secretFor o (d.registryBase first) = secretFor o d := by
    cases first <;> rfl
  have hio : (d.registryBase first).gIoState = d.gIoState := by
    cases first <;> rfl
  have hstart : handlerSendTokenData pf o first (Buffer.ofData data) d =
      registerToken pf o (Buffer.ofData data) (d.registryBase first) := by
    cases first
    · rfl
    · show Res.after [] _ = _
      rw [Res.after_nil]
      rfl
  unfold wp
  rw [hstart]
  show wp (registerToken pf o (Buffer.ofData data)) _ _ _ (d.registryBase first)
  unfold registerToken
  rw [wp_bind, wp_get, wp_ite]
  refine ⟨fun hfull => absurd hroom (Nat.not_lt.mpr hfull), fun _ => ?_⟩
  rw [wp_bind]
  refine wp_mono (checkTokenSignatureFromApdu_spec pf o _ (d.registryBase first)) ?_ (fun _ _ _ h => h) False.elim
  rintro ⟨isTokenVerified, token'⟩ d₁ w ⟨hd₁, rfl, hverified, htoken⟩
  rw [hsecret] at hverified htoken
  have hok : isTokenVerified = 0 := hverified.mpr ⟨token, haccepted⟩
  have hwf := (htoken hok).wellFormed
  have hshort : ¬token'.symbolLen > maxTokenSymbolLen := Nat.not_lt.mpr hwf.symbolLen
  have hio₁ : d₁.gIoState = d.gIoState := by
    rcases hd₁ with rfl | rfl
    · exact hio
    · exact hio
  simp only [hok, if_true, wp_bind, wp_modify, hshort, if_false, List.nil_append]
  have hok' : swOk = swOk := rfl
  exact repliesWith_ioSendSw (P := (· = swOk)) hok' hio₁

/-- Approve on the screen of a token: the token signed is the one stored. -/
theorem handlePress_signTokenData {d : Device} (hcallback : d.CallbackSet) (hflow : d.flow = .signTokenData) :
    wp (handlePress pf o true)
      (fun _ d' w => d'.secret = secretFor o d ∧
        w = [.response (signToken pf (secretFor o d) d.gContext.token) swOk, .display .menuMain])
      (fun _ _ _ => False) False d := by
  have hset : d.gValidateCallback = some .uiActionSignTokenData := hcallback _ (by rw [hflow]; rfl)
  have hasks : d.flow.asks = true := by
    rw [hflow]
    rfl
  have hreply : replyOf (signToken pf (secretFor o d) d.gContext.token) swOk =
      .response (signToken pf (secretFor o d) d.gContext.token) swOk := by
    apply if_neg
    rw [signToken, pf.sha256_length]
    decide
  unfold handlePress
  rw [wp_bind, wp_get, if_pos rfl, if_pos hasks, hset]
  dsimp only
  rw [wp_catchAll]
  unfold runCallback uiActionSignTokenData helperSendTokenDataSignature
  simp only [if_true, wp_bind, wp_getSecret, wp_get, wp_ioSendResponse, wp_uiMenuMain, hreply]
  exact ⟨trivial, rfl⟩

end Commands

/-- The data are those of a token and, behind it, of its digest under a secret. -/
def CarriesDigest (pf : Platform) (secret data : Bytes) : Prop :=
  ∃ token n, parseToken (Buffer.ofData data) zeroToken = (true, token, .at data n) ∧ n + 32 ≤ data.length ∧
    (data.drop n).take 32 =
      pf.sha256 (secret ++ token.uid ++ token.symbol ++ token.name ++ [UInt8.ofNat token.version])

/-- A device on which VERIFY_TOKEN_SIGNATURE is answered with SW_OK for a token followed by its digest, and
for nothing else. -/
def VerifiesDigests (pf : Platform) (d : Device) : Prop :=
  ∀ o raw cmd, apduParser raw = some cmd → cmd.Is insVerifyTokenSignature → cmd.p1 = 0 → cmd.p2 = 0 →
    wp (handle pf (.apdu o raw)) (fun _ _ w => Answered w swOk ↔ CarriesDigest pf (secretFor o d) cmd.data)
      (fun _ _ _ => False) False d

/-- A device on which the bytes of a token followed by a signature are answered with SW_OK, by
VERIFY_TOKEN_SIGNATURE and, when there is room in the registry, by SEND_TOKEN_DATA. -/
def RoundTrips (pf : Platform) (d : Device) (token : Token) (signature : Bytes) : Prop :=
  ∀ o raw cmd, apduParser raw = some cmd → cmd.data = token.serialize ++ signature →
    (cmd.Is insVerifyTokenSignature → cmd.p1 = 0 → cmd.p2 = 0 →
      wp (handle pf (.apdu o raw)) (fun _ _ w => Answered w swOk) (fun _ _ _ => False) False d) ∧
    (cmd.SendsToken → cmd.p1 = 0 ∨ d.gTokenSymbols.len < txMaxTokens →
      wp (handle pf (.apdu o raw)) (fun _ _ w => Answered w swOk) (fun _ _ _ => False) False d)

/-- A SIGN_TOKEN_DATA command is accepted: its token is put on screen. -/
def RaisesToken (r : Step Device Event Obs) (token : Token) : Prop :=
  ∃ o raw cmd rest symbol name uid, r.event = .apdu o raw ∧ apduParser raw = some cmd ∧ cmd.Is insSignTokenData ∧
    parseToken (Buffer.ofData cmd.data) zeroToken = (true, token, rest) ∧
    Obs.display (.signTokenData symbol name uid) ∈ r.seen

/-- Approve is pressed on the screen of a token, and a signature returned: the reply is sent at once, which
`io_send_response` does where one is owed. -/
def ReturnsSignature (r : Step Device Event Obs) (signature : Bytes) : Prop :=
  (∃ o, r.event = .press o true) ∧ r.pre.flow = .signTokenData ∧ r.pre.gIoState = .waiting ∧
    Obs.response signature swOk ∈ r.seen

section Runs

variable {pf : Platform} {o : Outcome} {h : History Device Event Obs} {d : Device}

theorem tokenAccepted_iff_carriesDigest {secret data : Bytes} (hsize : data.length < 2 ^ 32) :
    (∃ token, TokenAccepted pf secret (Buffer.ofData data) token) ↔ CarriesDigest pf secret data := by
  have hread : ∀ {token rest}, parseToken (Buffer.ofData data) zeroToken = (true, token, rest) →
      ∃ n, rest = .at data n ∧ n ≤ data.length ∧ token.WellFormed := by
    intro token rest hparse
    have hwf := parseToken_wellFormed (Nat.le_refl _) hparse
    rw [Buffer.ofData_eq] at hparse
    have haccepted : (parseToken (.at data 0) zeroToken).1 = true := by rw [hparse]
    obtain ⟨hfields, _⟩ := (parseToken_fst hsize (Nat.zero_le _) zeroToken).mp haccepted
    have hresult := (parseToken_at hsize (Nat.zero_le _) zeroToken).1 hfields
    rw [hparse, Prod.mk.injEq, Prod.mk.injEq] at hresult
    have hcomplete := hfields.complete
    rw [List.drop_zero] at hcomplete
    exact ⟨_, hresult.2.2, by rwa [List.drop_zero, Nat.zero_add], hwf⟩
  constructor
  · rintro ⟨token, rest, signature, rest', hparse, hsignature, hverify⟩
    obtain ⟨n, rfl, hn, hwf⟩ := hread hparse
    rw [bufferReadBytes_at hsize hn] at hsignature
    split at hsignature
    · cases hsignature
    · rename_i hfits
      cases hsignature
      rw [verifyTokenSignature_eq_zero, signToken, hwf.message] at hverify
      exact ⟨token, n, hparse, by omega, hverify⟩
  · rintro ⟨token, n, hparse, hfits, hdigest⟩
    obtain ⟨_, _, hn, hwf⟩ := hread hparse
    refine ⟨token, .at data n, (data.drop n).take 32, .at data (n + 32), hparse, ?_, ?_⟩
    · rw [bufferReadBytes_at hsize (by omega), if_neg (by omega)]
    · rw [verifyTokenSignature_eq_zero, signToken, hwf.message]
      exact hdigest

/-- Whatever the payload, VERIFY_TOKEN_SIGNATURE goes by the digest. -/
theorem verifiesDigests (hlistens : d.Listens) : VerifiesDigests pf d := by
  intro o raw cmd hparse his hp1 hp2
  have hfits : cmd.data.length ≤ 255 := apduParser_fits hparse
  have hreplies := handlerVerifyTokenSignature_replies pf o (Buffer.ofData cmd.data) (wake d)
  rw [← apduDispatcher_verifyTokenSignature his hp1 hp2] at hreplies
  refine wp_mono (handle_replies hparse hlistens hreplies) ?_ (fun _ _ _ h => h) id
  rintro _ d' w ⟨sw, rfl, hsw⟩
  rw [answered_reply_iff, hsw, secretFor_wake]
  exact tokenAccepted_iff_carriesDigest (by omega)

/-- A token and its digest under the stored secret are accepted. -/
theorem roundTrips_of_digest {token : Token} (hwf : token.WellFormed) (hsymbol : isPrintable token.symbol = true)
    (hname : isPrintable token.name = true) (hlistens : d.Listens) {secret : Bytes}
    (hsecret : ∀ o, secretFor o d = secret) : RoundTrips pf d token (signToken pf secret token) := by
  intro o raw cmd hparse hdata
  have hfits : cmd.data.length ≤ 255 := apduParser_fits hparse
  have hlength : (signToken pf secret token).length = 32 := pf.sha256_length _
  have haccepted : TokenAccepted pf secret (Buffer.ofData cmd.data) token := by
    rw [hdata] at hfits ⊢
    refine ⟨_, signToken pf secret token,
      .at (token.serialize ++ signToken pf secret token) (token.serialize.length + 32),
      parseToken_serialize hwf _ hsymbol hname (by omega), ?_, (verifyTokenSignature_eq_zero _ _ _ _).mpr rfl⟩
    rw [bufferReadBytes_at (by omega) (by rw [List.length_append]; omega), if_neg]
    · rw [List.drop_left, ← hlength, List.take_length]
    · rw [List.length_append, hlength]
      omega
  refine ⟨fun his hp1 hp2 => ?_, fun hsends hroom => ?_⟩
  · have hreplies := handlerVerifyTokenSignature_replies pf o (Buffer.ofData cmd.data) (wake d)
    rw [← apduDispatcher_verifyTokenSignature his hp1 hp2, secretFor_wake, hsecret] at hreplies
    refine wp_mono (handle_replies hparse hlistens hreplies) ?_ (fun _ _ _ h => h) id
    rintro _ d' w ⟨sw, rfl, hsw⟩
    exact answered_reply_iff.mpr (hsw.mpr ⟨token, haccepted⟩)
  · have hroom' : ((wake d).registryBase (decide (cmd.p1 = 0))).gTokenSymbols.len < txMaxTokens := by
      by_cases hfirst : cmd.p1 = 0
      · rw [decide_eq_true hfirst]
        show 0 < txMaxTokens
        decide
      · rw [decide_eq_false hfirst]
        show (wake d).gTokenSymbols.len < txMaxTokens
        rw [wake_gTokenSymbols]
        exact hroom.resolve_left hfirst
    have haccepted' : TokenAccepted pf (secretFor o (wake d)) (Buffer.ofData cmd.data) token := by
      rwa [secretFor_wake, hsecret]
    have hreplies := handlerSendTokenData_accepts hroom' haccepted'
    rw [← apduDispatcher_sendTokenData hsends] at hreplies
    refine wp_mono (handle_replies hparse hlistens hreplies) ?_ (fun _ _ _ h => h) id
    rintro _ d' w ⟨sw, rfl, hsw⟩
    exact answered_reply_iff.mpr hsw

theorem apduDispatcher_signTokenData {cmd : Command} (is : cmd.Is insSignTokenData) :
    apduDispatcher pf o cmd =
      if cmd.p1 ≠ 0 ∨ cmd.p2 ≠ 0 then ioSendSw swWrongP1P2 else handlerSignTokenData (Buffer.ofData cmd.data) := by
  unfold apduDispatcher
  simp [is.1, is.2, insSignTx, insGetVersion, insGetAddress, insGetXpub, insSignTokenData]

/-- Once a reply is prepared none is owed. -/
theorem not_waiting_of_replied {d₁ : Device} (hready : d₁.gIoState = .ready) (v : Int) :
    wp (if v < 0 then restartApp else ioRecvCommand) (fun _ d' _ => d'.gIoState ≠ .waiting) (fun _ _ _ => False) False
      d₁ := by
  rw [wp_ite]
  refine ⟨fun _ => ?_, fun _ => ?_⟩
  · rw [wp_restartApp]
    exact fun h => nomatch h
  · unfold ioRecvCommand
    rw [wp_bind, wp_get, hready]
    exact fun h => nomatch h

/-- A SIGN_TOKEN_DATA command after which the reply is owed under the screen of a token: it has put up the
screen, of the token it has stored. -/
theorem handle_signTokenData (pf : Platform) (o : Outcome) {raw : Bytes} {cmd : Command} (hparse : apduParser raw = some cmd)
    (is : cmd.Is insSignTokenData) (d : Device) :
    wp (handle pf (.apdu o raw))
      (fun _ d' w => d'.gIoState = .waiting → ∃ token rest symbol name uid,
        parseToken (Buffer.ofData cmd.data) zeroToken = (true, token, rest) ∧
        Obs.display (.signTokenData symbol name uid) ∈ w ∧ d'.gContext.token = token)
      (fun _ _ _ => True) True d := by
  show wp (handleCommand pf o raw) _ _ _ _
  unfold handleCommand
  rw [wp_bind, wp_modify, wp_catchAll, hparse]
  dsimp only
  rw [wp_bind, apduDispatcher_signTokenData is, wp_ite]
  refine ⟨fun _ => ?_, fun _ => ?_⟩
  · rw [wp_ioSendSw]
    refine wp_mono (not_waiting_of_replied rfl _) ?_ (fun _ _ _ h => h.elim) False.elim
    exact fun _ d' w hno hwaiting => absurd hwaiting hno
  · obtain ⟨⟨parsed, token, rest⟩, htoken⟩ : ∃ r, parseToken (Buffer.ofData cmd.data) zeroToken = r := ⟨_, rfl⟩
    cases parsed with
    | false =>
        unfold handlerSignTokenData
        rw [htoken]
        simp only [wp_bind, wp_modify, Bool.false_eq_true, if_false, wp_ioSendSw]
        refine wp_mono (not_waiting_of_replied rfl _) ?_ (fun _ _ _ h => h.elim) False.elim
        exact fun _ d' w hno hwaiting => absurd hwaiting hno
    | true =>
        have hwf := parseToken_wellFormed (Nat.le_refl _) htoken
        refine wp_mono (handlerSignTokenData_shows htoken hwf (wake d)) ?_ (fun _ _ _ h => h.elim) False.elim
        rintro v d₁ w ⟨rfl, hd₁, rfl⟩
        rw [if_neg (by decide)]
        refine wp_mono (ioRecvCommand_rests (Int.le_refl 0) d₁) ?_ (fun _ _ _ h => h.elim) False.elim
        intro _ d' w hrests hwaiting
        cases hrests with
        | replied => cases hwaiting
        | restarts => cases hwaiting
        | owes =>
            subst hd₁
            exact ⟨token, rest, _, _, _, htoken, List.mem_append_right _ (List.mem_append_left _ List.mem_cons_self), rfl⟩

/-- Only SIGN_TOKEN_DATA leaves a reply owed under the screen of a token. -/
theorem handle_owes_token (pf : Platform) (o : Outcome) (raw : Bytes) (d : Device) :
    wp (handle pf (.apdu o raw))
      (fun _ d' _ => d'.flow = .signTokenData → d'.gIoState = .waiting →
        ∃ cmd, apduParser raw = some cmd ∧ cmd.Is insSignTokenData) (fun _ _ _ => False) True d := by
  refine wp_mono (handleCommand_rests pf o raw d) ?_ (fun _ _ _ h => h) id
  rintro _ d' w ⟨r, d₁, w₁, w₂, hconcludes, hrests, _⟩ hflow hwaiting
  cases hrests with
  | replied => cases hwaiting
  | thrown => cases hwaiting
  | restarts => cases hwaiting
  | owes hnonneg received =>
      cases hconcludes with
      | replied _ ready =>
          rw [ready] at received
          cases received
      | asks _ _ _ raised => exact raised hflow
      | fails negative => exact absurd hnonneg (Int.not_le.mpr negative)

/-- While a reply is owed under the screen of a token, the token of the command that put it up is stored. -/
theorem raised_token_kept {between earlier : History Device Event Obs} {sign : Step Device Event Obs} {token : Token}
    (run : Run (freeSystem pf) (between ++ sign :: earlier) d) (hraises : RaisesToken sign token)
    (hlast : ∀ r ∈ between, ∀ token', ¬RaisesToken r token') (hflow : d.flow = .signTokenData)
    (hwaiting : d.gIoState = .waiting) : d.gContext.token = token := by
  induction between generalizing d with
  | nil =>
      obtain ⟨o, raw, cmd, rest, _, _, _, hevent, hparse, his, htoken, _⟩ := hraises
      cases run with
      | @step _ d₁ _ e w _ _ ret =>
          have hevent : e = .apdu o raw := hevent
          subst hevent
          have ret' : handle pf (.apdu o raw) d₁ = .ret () d w := ret
          have hstored := handle_signTokenData pf o hparse his d₁
          rw [wp_of_ret ret'] at hstored
          obtain ⟨token', rest', _, _, _, htoken', _, hsame⟩ := hstored hwaiting
          rw [htoken] at htoken'
          cases htoken'
          exact hsame
  | cons r between ih =>
      obtain ⟨hnone, hrest⟩ := List.forall_mem_cons.mp hlast
      rw [List.cons_append] at run
      cases run with
      | @step _ d₁ _ e w run _ ret =>
          have ret' : handle pf e d₁ = .ret () d w := ret
          cases e with
          | apdu o raw =>
              -- a command that leaves such a screen would have put it up
              have howes := handle_owes_token pf o raw d₁
              rw [wp_of_ret ret'] at howes
              obtain ⟨cmd, hparse, his⟩ := howes hflow hwaiting
              have hstored := handle_signTokenData pf o hparse his d₁
              rw [wp_of_ret ret'] at hstored
              obtain ⟨token', rest, symbol, name, uid, htoken, hmem, _⟩ := hstored hwaiting
              exact absurd ⟨o, raw, cmd, rest, symbol, name, uid, rfl, hparse, his, htoken, hmem⟩ (hnone token')
          | press o choice =>
              have hends : wp (handle pf (.press o choice)) (fun _ d' w => PressEnds choice d₁ d' w) (fun _ _ _ => False)
                  True d₁ := handlePress_ends pf o choice d₁
              rw [wp_of_ret ret'] at hends
              cases hends with
              | ignored => exact ih run hrest hflow hwaiting
              | replied _ _ ready =>
                  rw [ready] at hwaiting
                  cases hwaiting
              | asks _ _ _ screen =>
                  rw [hflow] at screen
                  exact screen.elim
          | quit =>
              have hends : wp (handle pf .quit) _ _ _ d₁ := handleQuit_ends d₁
              rw [wp_of_ret ret'] at hends
              rcases hends with ⟨rfl, _⟩ | ⟨_, hmenu, _⟩
              · exact ih run hrest hflow hwaiting
              · rw [hflow] at hmenu
                cases hmenu

/-- In every run the payloads VERIFY_TOKEN_SIGNATURE accepts are those of a token and its digest, and what a
user's approval of a token has returned is accepted with the bytes of the token until the secret is reset. The
secret of the approval is the one stored since. A host that waits is always listened to; another one is at
every moment at which any command would be answered. -/
theorem token_signature_round_trip {waits : Bool} (run : Run (hostSystem pf waits) h d)
    (hlistens : waits = true ∨ d.Listens) :
    VerifiesDigests pf d ∧
      ∀ later press between sign earlier token signature, h = later ++ press :: (between ++ sign :: earlier) →
        RaisesToken sign token → (∀ r ∈ between, ∀ token', ¬RaisesToken r token') →
        ReturnsSignature press signature → press.event.outcome.MakesSecret →
        (∀ r ∈ later, ¬r.pre.Resets r.event) →
        (∀ o, secretFor o d = press.post.secret) ∧ RoundTrips pf d token signature := by
  have hlistens : d.Listens := by
    rcases hlistens with rfl | hlistens
    · exact (run_disciplined run).isListening
    · exact hlistens
  have run : Run (freeSystem pf) h d := free_of_host run
  refine ⟨verifiesDigests hlistens, ?_⟩
  rintro later press between sign earlier token signature rfl hraises hlast ⟨⟨o, hevent⟩, hflow, hwaiting, hreturned⟩
    hrng hquiet
  obtain ⟨hbefore, _, ret⟩ := run.before
  have hstored := raised_token_kept hbefore hraises hlast hflow hwaiting
  -- the press returns the digest of the secret it leaves stored
  have ret' : handle pf (.press o true) press.pre = .ret () press.post press.seen := hevent ▸ ret
  have hpress : wp (handle pf (.press o true)) (fun _ d' w => d'.secret = secretFor o press.pre ∧
      w = [.response (signToken pf (secretFor o press.pre) press.pre.gContext.token) swOk, .display .menuMain])
      (fun _ _ _ => False) False press.pre := handlePress_signTokenData (run_callbackSet hbefore) hflow
  rw [wp_of_ret ret'] at hpress
  obtain ⟨hsecret, hseen⟩ := hpress
  have hsignature : signature = signToken pf press.post.secret token := by
    rw [hseen, List.mem_cons, Obs.response.injEq] at hreturned
    rw [hsecret, ← hstored]
    exact (hreturned.resolve_right (by simp)).1
  have hrng : o.MakesSecret := by
    rw [hevent] at hrng
    exact hrng
  have hhas : press.post.HasSecret := by
    rw [Device.HasSecret, hsecret]
    exact any_secretFor hrng press.pre
  have hsame := secret_stays run hhas hquiet
  have hsecretFor : ∀ o, secretFor o d = press.post.secret := by
    intro o
    rw [← hsame]
    apply secretFor_of_hasSecret
    rwa [Device.HasSecret, hsame]
  obtain ⟨o', raw, cmd, rest, _, _, _, _, hparse, _, htoken, _⟩ := hraises
  have hfits : cmd.data.length ≤ 255 := apduParser_fits hparse
  obtain ⟨hsymbol, hname⟩ := isPrintable_of_parse (by omega) htoken
  refine ⟨hsecretFor, ?_⟩
  rw [hsignature]
  exact roundTrips_of_digest (parseToken_wellFormed (Nat.le_refl _) htoken) hsymbol hname hlistens hsecretFor

/-- The bytes of a command. -/
def Event.raw? : Event → Option Bytes
  | .apdu _ raw => some raw
  | _ => none

/-- A token is signed by a device that has no secret yet. -/
theorem token_signature_round_trip_one :
    ∃ h d signature, Run (waitingSystem countingPlatform) h d ∧ VerifiesDigests countingPlatform d ∧
      RoundTrips countingPlatform d (tokenOf [65] [66]) signature := by
  obtain ⟨h, r, hevent, run, hP⟩ := exists_step_of_play countingPlatform true []
    [.apdu (.allOk []) ([0xE0, 0x07, 0, 0, 37] ++ tokenData [65] [66])] (.press (.allOk (List.replicate 32 5)) true)
    (fun h r => h.length = 1 ∧ (∀ sign ∈ h, sign.event.raw? = some ([0xE0, 0x07, 0, 0, 37] ++ tokenData [65] [66]) ∧
        Obs.display (.signTokenData [65] [66] (formatHex (List.replicate 32 0))) ∈ sign.seen) ∧
      r.pre.flow = .signTokenData ∧ r.pre.gIoState = .waiting ∧
      Obs.response (List.replicate 31 0 ++ [2]) swOk ∈ r.seen) (by decide +kernel)
  obtain ⟨hone, hsigns, hflow, hwaiting, hreturned⟩ := of_decide_eq_true hP
  obtain ⟨sign, rfl⟩ := List.length_eq_one_iff.mp hone
  obtain ⟨hraw, hdisplay⟩ := hsigns sign (List.mem_singleton_self sign)
  have hraises : RaisesToken sign (tokenOf [65] [66]) := by
    cases hsign : sign.event with
    | apdu o raw =>
        rw [hsign] at hraw
        have hraw : raw = [0xE0, 0x07, 0, 0, 37] ++ tokenData [65] [66] := Option.some.inj hraw
        have hparse : apduParser raw = some ⟨0xE0, 0x07, 0, 0, tokenData [65] [66]⟩ := by
          rw [hraw]
          decide +kernel
        have htoken : parseToken (Buffer.ofData (tokenData [65] [66])) zeroToken =
            (true, tokenOf [65] [66], .at (tokenData [65] [66]) 37) := by decide +kernel
        exact ⟨o, raw, _, _, _, _, _, hsign, hparse, ⟨rfl, rfl⟩, htoken, hdisplay⟩
    | press => rw [hsign] at hraw; cases hraw
    | quit => rw [hsign] at hraw; cases hraw
  have hreturns : ReturnsSignature r (List.replicate 31 0 ++ [2]) := ⟨⟨_, hevent⟩, hflow, hwaiting, hreturned⟩
  have hrng : r.event.outcome.MakesSecret := by
    rw [hevent]
    decide
  obtain ⟨hverifies, hround⟩ := token_signature_round_trip run (Or.inl rfl)
  have hnone : ∀ r ∈ ([] : History Device Event Obs), ∀ token', ¬RaisesToken r token' :=
    fun _ hr => absurd hr List.not_mem_nil
  have hquiet : ∀ r ∈ ([] : History Device Event Obs), ¬r.pre.Resets r.event := fun _ hr => absurd hr List.not_mem_nil
  have hround := hround [] r [] sign [] (tokenOf [65] [66]) _ rfl hraises hnone hreturns hrng hquiet
  exact ⟨_, _, _, run, hverifies, hround.2⟩

end Runs

end HathorApp
