import HathorApp.Directory
import HathorApp.TokenRoundTrip

/-!
The token commands as a service with a directory. Data are judged by their bytes alone: a token and, behind it, its digest
under the secret. A genuine token is filed under its uid. What VERIFY_TOKEN_SIGNATURE and SEND_TOKEN_DATA reply, and which
symbol a uid is looked up to, is what the service says, whatever came before.
-/

namespace HathorApp

open ProgramLogic TraceRun

instance (l : Bytes) : Decidable (IsTokenData l) :=
  decidable_of_iff
    (tokenSymbolLenAt l ≤ maxTokenSymbolLen ∧ tokenNameLenAt l ≤ maxTokenNameLen ∧ tokenDataLen l ≤ l.length)
    ⟨fun h => ⟨h.1, h.2.1, h.2.2⟩, fun h => ⟨h.symbolLen, h.nameLen, h.complete⟩⟩

/-- What the data of a token command are worth. -/
inductive TokenVerdict where
  | malformed
  | forged
  | genuine (token : Token)

/-- The fields of a token whose text is printable, and room for a digest behind them. -/
def CarriesToken (data : Bytes) : Prop :=
  IsTokenData data ∧ isPrintable (tokenSymbolAt data) = true ∧ isPrintable (tokenNameAt data) = true ∧
    tokenDataLen data + 32 ≤ data.length

instance (data : Bytes) : Decidable (CarriesToken data) := by
  unfold CarriesToken
  infer_instance

def tokenVerdict (pf : Platform) (secret data : Bytes) : TokenVerdict :=
  if CarriesToken data then
    if (data.drop (tokenDataLen data)).take 32 = signToken pf secret (tokenAt data) then .genuine (tokenAt data)
    else .forged
  else .malformed

def TokenVerdict.word : TokenVerdict → Nat
  | .malformed => swInternalError
  | .forged => swInvalidSignature
  | .genuine _ => swOk

/-- Symbols filed under uids. -/
abbrev TokenDirectory := Directory Bytes Bytes txMaxTokens

/-- The service takes a token: the directory after it and the answer. Without room the directory is dropped. -/
def TokenDirectory.serve (pf : Platform) (secret data : Bytes) (dir : TokenDirectory) : TokenDirectory × Nat :=
  if room : dir.Full then (.empty, swWrongDataLength)
  else
    match tokenVerdict pf secret data with
    | .genuine token => (dir.file token.uid (cString token.symbol) room, swOk)
    | verdict => (dir, verdict.word)

/-- The commands that bring a token, with what the environment does for them. -/
def Event.sendsToken? : Event → Option (Outcome × Command)
  | .apdu o raw => (apduParser raw).bind fun cmd =>
      if cmd.cla = HathorApp.cla ∧ cmd.ins = insSendTokenData ∧ cmd.p2 = 0 then some (o, cmd) else none
  | _ => none

/-- The commands that have a token verified. -/
def Event.verifiesToken? : Event → Option (Outcome × Command)
  | .apdu o raw => (apduParser raw).bind fun cmd =>
      if cmd.cla = HathorApp.cla ∧ cmd.ins = insVerifyTokenSignature ∧ cmd.p1 = 0 ∧ cmd.p2 = 0 then some (o, cmd) else none
  | _ => none

/-- The first command of a series drops the directory before its token is taken. -/
def TokenDirectory.take (pf : Platform) (secret : Bytes) (cmd : Command) (dir : TokenDirectory) : TokenDirectory × Nat :=
  (if cmd.p1 = 0 then .empty else dir : TokenDirectory).serve pf secret cmd.data

/-- The directory after a run, which is dropped with every start of the application. -/
def directoryAfter (pf : Platform) : History Device Event Obs → TokenDirectory
  | [] => .empty
  | r :: h =>
    if Obs.restart ∈ r.seen then .empty
    else
      match r.event.sendsToken? with
      | some (o, cmd) => ((directoryAfter pf h).take pf (secretFor o r.pre) cmd).1
      | none => directoryAfter pf h

/-- The registry holds the entries of the directory: uids, and symbols up to their NUL. -/
def TokenDataCtx.Holds (registry : TokenDataCtx) (dir : TokenDirectory) : Prop :=
  dir.Filed registry.len fun k =>
    ((registry.tokens.getD k zeroTokenSymbol).uid, cString (registry.tokens.getD k zeroTokenSymbol).symbol)

section Registry

variable {registry : TokenDataCtx} {dir : TokenDirectory} {token : Token}

theorem holds_zero : zeroTokenDataCtx.Holds .empty := Directory.filed_empty

theorem TokenDataCtx.Holds.add (h : registry.Holds dir) (hsound : registry.Sound) (hwf : token.WellFormed) (room : ¬dir.Full) :
    (registry.add token).Holds (dir.file token.uid (cString token.symbol) room) := by
  have hroom : registry.len < txMaxTokens := Nat.lt_of_not_le fun hfull => room (h.full_iff.mpr hfull)
  have hkept : ∀ k < registry.len, (registry.add token).tokens.getD k zeroTokenSymbol =
      registry.tokens.getD k zeroTokenSymbol := fun k hk => TokenDataCtx.getD_add hwf hk
  have hstored := TokenSymbol.store_holds hwf (registry.tokens.getD registry.len zeroTokenSymbol)
  have hlast := TokenDataCtx.getD_add_last hsound hroom hwf
  have hlen : (registry.add token).len = registry.len + 1 := by rw [TokenDataCtx.add_eq hwf]
  unfold TokenDataCtx.Holds
  rw [hlen, ← hstored.uid, ← hstored.symbol, ← hlast]
  refine @Directory.Filed.file _ _ _ dir registry.len _ (fun k => (((registry.add token).tokens.getD k zeroTokenSymbol).uid,
    cString ((registry.add token).tokens.getD k zeroTokenSymbol).symbol)) h (fun k hk => ?_) room
  rw [hkept k hk]

/-- The search of `find_token_registry_index` is a lookup. -/
theorem TokenDataCtx.Holds.lookup_eq (h : registry.Holds dir) (uid : Bytes) :
    dir.lookup uid = (findTokenRegistryIndex registry uid).map fun i =>
      cString (registry.tokens.getD i zeroTokenSymbol).symbol :=
  Directory.Filed.lookup_eq h uid

end Registry

section Commands

variable {pf : Platform} {o : Outcome} {data : Bytes}

/-- The codes of `check_token_signature_from_apdu`. -/
def TokenVerdict.Coded : TokenVerdict → Nat × Token → Prop
  | .malformed, r => r.1 ≠ 0 ∧ r.1 ≠ 1
  | .forged, r => r.1 = 1
  | .genuine token, r => r = (0, token)

theorem checkTokenSignatureFromApdu_verdict (hsize : data.length < 2 ^ 32) (d : Device) :
    wp (checkTokenSignatureFromApdu pf o (Buffer.ofData data))
      (fun r d' w => (d' = d ∨ d' = { d with secret := secretFor o d }) ∧ w = [] ∧
        (tokenVerdict pf (secretFor o d) data).Coded r)
      (fun _ _ _ => False) False d := by
  obtain ⟨hfields, hno⟩ := parseToken_at hsize (Nat.zero_le _) zeroToken
  rw [List.drop_zero] at hfields hno
  unfold checkTokenSignatureFromApdu tokenVerdict
  rw [Buffer.ofData_eq]
  by_cases hdata : IsTokenData data
  case neg =>
    have hnone : ¬CarriesToken data := fun h => hdata h.1
    rw [if_neg hnone]
    have hfalse := hno hdata
    generalize parseToken (.at data 0) zeroToken = parsed at hfalse
    obtain ⟨accepted, token, rest⟩ := parsed
    obtain rfl : accepted = false := hfalse
    exact ⟨Or.inl rfl, rfl, by simp, by simp⟩
  rw [hfields hdata, Nat.zero_add]
  cases htext : isPrintable (tokenSymbolAt data) && isPrintable (tokenNameAt data) with
  | false =>
      have hnone : ¬CarriesToken data := by
        rintro ⟨_, hsymbol, hname, _⟩
        rw [hsymbol, hname] at htext
        cases htext
      rw [if_neg hnone]
      exact ⟨Or.inl rfl, rfl, by simp, by simp⟩
  | true =>
      rw [Bool.and_eq_true] at htext
      dsimp only
      rw [bufferReadBytes_at hsize hdata.complete]
      by_cases hroom : tokenDataLen data + 32 ≤ data.length
      case neg =>
        have hnone : ¬CarriesToken data := fun h => hroom h.2.2.2
        rw [if_neg hnone, if_pos (by omega)]
        exact ⟨Or.inl rfl, rfl, by simp, by simp⟩
      have hcarries : CarriesToken data := ⟨hdata, htext.1, htext.2, hroom⟩
      rw [if_pos hcarries, if_neg (by omega)]
      dsimp only
      rw [wp_bind, wp_getSecret, wp_pure]
      refine ⟨Or.inr rfl, rfl, ?_⟩
      unfold verifyTokenSignature
      by_cases hgenuine : (data.drop (tokenDataLen data)).take 32 = signToken pf (secretFor o d) (tokenAt data)
      · rw [if_pos hgenuine, if_pos hgenuine]
        rfl
      · rw [if_neg hgenuine, if_neg hgenuine]
        rfl

/-- The answer to a token that did not check. -/
theorem replyTokenCheck_verdict {verdict : TokenVerdict} {r : Nat × Token} (hcoded : verdict.Coded r) (hbad : r.1 ≠ 0) :
    replyTokenCheck r.1 = ioSendSw verdict.word := by
  unfold replyTokenCheck
  cases verdict with
  | malformed =>
      rw [if_neg hcoded.2]
      rfl
  | forged =>
      have hcode : r.1 = 1 := hcoded
      rw [if_pos hcode]
      rfl
  | genuine token => exact absurd (congrArg Prod.fst hcoded) hbad

theorem TokenVerdict.genuine_of_coded {verdict : TokenVerdict} {r : Nat × Token} (hcoded : verdict.Coded r) (hok : r.1 = 0) :
    verdict = .genuine r.2 := by
  cases verdict with
  | malformed => exact absurd hok hcoded.1
  | forged =>
      have hcode : r.1 = 1 := hcoded
      omega
  | genuine token =>
      obtain rfl : r = (0, token) := hcoded
      rfl

theorem tokenVerdict_genuine {secret : Bytes} {token : Token} (h : tokenVerdict pf secret data = .genuine token) :
    token = tokenAt data ∧ CarriesToken data := by
  unfold tokenVerdict at h
  split at h
  · rename_i hcarries
    split at h
    · cases h
      exact ⟨rfl, hcarries⟩
    · cases h
  · cases h

theorem CarriesToken.wellFormed (hsize : data.length < 2 ^ 32) (h : CarriesToken data) : (tokenAt data).WellFormed := by
  obtain ⟨hdata, hsymbol, hname, _⟩ := h
  have hparse := (parseToken_at hsize (Nat.zero_le _) zeroToken).1
  rw [List.drop_zero] at hparse
  have hparse := hparse hdata
  rw [hsymbol, hname, ← Buffer.ofData_eq] at hparse
  exact parseToken_wellFormed (Nat.le_refl _) hparse

theorem registerToken_serves {d : Device} {dir : TokenDirectory} (hsize : data.length < 2 ^ 32)
    (hsound : d.gTokenSymbols.Sound) (hheld : d.gTokenSymbols.Holds dir) :
    wp (registerToken pf o (Buffer.ofData data))
      (fun v d' w => RepliesWith (· = (dir.serve pf (secretFor o d) data).2) d v d' w ∧
        d'.gTokenSymbols.Holds (dir.serve pf (secretFor o d) data).1)
      (fun _ _ _ => False) False d := by
  unfold registerToken TokenDirectory.serve
  rw [wp_bind, wp_get, wp_ite]
  refine ⟨fun hfull => ?_, fun hroom => ?_⟩
  · rw [dif_pos (hheld.full_iff.mpr hfull), wp_bind, wp_modify, wp_ioSendSw]
    exact ⟨⟨rfl, rfl, _, rfl, rfl⟩, holds_zero⟩
  have room : ¬dir.Full := fun hfull => hroom (hheld.full_iff.mp hfull)
  rw [dif_neg room, wp_bind]
  refine wp_mono (checkTokenSignatureFromApdu_verdict hsize d) ?_ (fun _ _ _ h => h) False.elim
  rintro r d₁ w ⟨hd₁, rfl, hcoded⟩
  have hregistry : d₁.gTokenSymbols = d.gTokenSymbols := by
    rcases hd₁ with rfl | rfl
    · rfl
    · rfl
  have hio : d₁.gIoState = d.gIoState := by
    rcases hd₁ with rfl | rfl
    · rfl
    · rfl
  have hresult : replyResult d₁ = replyResult d := by rw [replyResult, replyResult, hio]
  generalize hverdict : tokenVerdict pf (secretFor o d) data = verdict at hcoded
  rw [wp_ite]
  refine ⟨fun hok => ?_, fun hbad => ?_⟩
  · have hgenuine := TokenVerdict.genuine_of_coded hcoded hok
    rw [hgenuine] at hverdict ⊢
    obtain ⟨htoken, hcarries⟩ := tokenVerdict_genuine hverdict
    have hwf : r.2.WellFormed := htoken ▸ hcarries.wellFormed hsize
    have hshort : ¬r.2.symbolLen > maxTokenSymbolLen := Nat.not_lt.mpr hwf.symbolLen
    rw [wp_bind, wp_modify, if_neg hshort, wp_ioSendSw]
    refine ⟨⟨hresult, rfl, _, rfl, rfl⟩, ?_⟩
    show (d₁.gTokenSymbols.add r.2).Holds _
    rw [hregistry]
    exact hheld.add hsound hwf room
  · rw [replyTokenCheck_verdict hcoded hbad, wp_ioSendSw]
    cases verdict with
    | malformed => exact ⟨⟨hresult, rfl, _, rfl, rfl⟩, hregistry ▸ hheld⟩
    | forged => exact ⟨⟨hresult, rfl, _, rfl, rfl⟩, hregistry ▸ hheld⟩
    | genuine token => exact absurd (congrArg Prod.fst hcoded) hbad

theorem handlerSendTokenData_serves {d : Device} {cmd : Command} {dir : TokenDirectory} (hsize : cmd.data.length < 2 ^ 32)
    (hsound : d.gTokenSymbols.Sound) (hheld : d.gTokenSymbols.Holds dir) :
    wp (handlerSendTokenData pf o (decide (cmd.p1 = 0)) (Buffer.ofData cmd.data))
      (fun v d' w => RepliesWith (· = (dir.take pf (secretFor o d) cmd).2) d v d' w ∧
        d'.gTokenSymbols.Holds (dir.take pf (secretFor o d) cmd).1)
      (fun _ _ _ => False) False d := by
  unfold handlerSendTokenData TokenDirectory.take
  by_cases hfirst : cmd.p1 = 0
  · rw [if_pos (decide_eq_true hfirst), if_pos hfirst, wp_bind, wp_modify]
    exact registerToken_serves hsize sound_zero holds_zero
  · rw [if_neg (by simpa using hfirst), if_neg hfirst]
    exact registerToken_serves hsize hsound hheld

theorem handlerVerifyTokenSignature_serves (hsize : data.length < 2 ^ 32) (d : Device) :
    wp (handlerVerifyTokenSignature pf o (Buffer.ofData data))
      (RepliesWith (· = (tokenVerdict pf (secretFor o d) data).word) d) (fun _ _ _ => False) False d := by
  unfold handlerVerifyTokenSignature
  rw [wp_bind, wp_modify, wp_bind]
  refine wp_mono (checkTokenSignatureFromApdu_verdict hsize d.bzeroContext) ?_ (fun _ _ _ h => h) id
  rintro r d₁ w ⟨hd₁, rfl, hcoded⟩
  have hio : d₁.gIoState = d.gIoState := by
    rcases hd₁ with rfl | rfl
    · rfl
    · rfl
  have hsecret : secretFor o d.bzeroContext = secretFor o d := rfl
  rw [hsecret] at hcoded
  simp only [List.nil_append]
  rw [wp_ite]
  refine ⟨fun hok => ?_, fun hbad => ?_⟩
  · rw [TokenVerdict.genuine_of_coded hcoded hok]
    exact @repliesWith_ioSendSw (· = swOk) _ rfl d₁ d hio
  · rw [replyTokenCheck_verdict hcoded hbad]
    exact @repliesWith_ioSendSw (· = _) _ rfl d₁ d hio

/-- The reply of a handler is the reply to its command, and the registry it leaves is the one after the step. -/
theorem handle_serves {raw : Bytes} {cmd : Command} {d : Device} {P : Nat → Prop} {Q : TokenDataCtx → Prop}
    (hparse : apduParser raw = some cmd) (hlistens : d.Listens)
    (hdispatch : wp (apduDispatcher pf o cmd) (fun v d' w => RepliesWith P (wake d) v d' w ∧ Q d'.gTokenSymbols)
      (fun _ _ _ => False) False (wake d)) :
    wp (handle pf (.apdu o raw)) (fun _ d' w => (∃ sw, w = [.response [] sw] ∧ P sw) ∧ Q d'.gTokenSymbols)
      (fun _ _ _ => False) False d := by
  show wp (handleCommand pf o raw) _ _ _ _
  unfold handleCommand
  rw [wp_bind, wp_modify, wp_catchAll, hparse]
  dsimp only
  rw [wp_bind]
  refine wp_mono hdispatch ?_ (fun _ _ _ h => h.elim) id
  rintro v d₁ w ⟨⟨hv, hready, sw, rfl, hsw⟩, hregistry⟩
  rw [hlistens.replyResult] at hv
  rw [if_neg (by omega)]
  unfold ioRecvCommand
  rw [wp_bind, wp_get, hready]
  exact ⟨⟨sw, rfl, hsw⟩, hregistry⟩

end Commands

section Runs

variable {pf : Platform} {h : History Device Event Obs} {d d' : Device} {e : Event} {w : List Obs}

theorem sendsToken?_eq_some {o : Outcome} {cmd : Command} (he : e.sendsToken? = some (o, cmd)) :
    ∃ raw, e = .apdu o raw ∧ apduParser raw = some cmd ∧ cmd.SendsToken := by
  cases e with
  | apdu o' raw =>
      obtain ⟨cmd', hparse, hcmd⟩ := Option.bind_eq_some_iff.mp he
      split at hcmd
      · rename_i his
        cases hcmd
        exact ⟨raw, rfl, hparse, ⟨his.1, his.2.1⟩, his.2.2⟩
      · cases hcmd
  | press => cases he
  | quit => cases he

theorem sendsToken?_eq_none (he : e.sendsToken? = none) : ¬e.SendsToken := by
  rintro ⟨o, raw, cmd, rfl, hparse, ⟨hcla, hins⟩, hp2⟩
  unfold Event.sendsToken? at he
  dsimp only at he
  rw [hparse, Option.bind_some, if_pos ⟨hcla, hins, hp2⟩] at he
  cases he

theorem verifiesToken?_eq_some {o : Outcome} {cmd : Command} (he : e.verifiesToken? = some (o, cmd)) :
    ∃ raw, e = .apdu o raw ∧ apduParser raw = some cmd ∧ cmd.Is insVerifyTokenSignature ∧ cmd.p1 = 0 ∧ cmd.p2 = 0 := by
  cases e with
  | apdu o' raw =>
      obtain ⟨cmd', hparse, hcmd⟩ := Option.bind_eq_some_iff.mp he
      split at hcmd
      · rename_i his
        cases hcmd
        exact ⟨raw, rfl, hparse, ⟨his.1, his.2.1⟩, his.2.2⟩
      · cases hcmd
  | press => cases he
  | quit => cases he

/-- A command that brings a token. -/
theorem step_sendsToken {o : Outcome} {cmd : Command} {dir : TokenDirectory} (hd : d.Disciplined)
    (hsound : d.gTokenSymbols.Sound) (hheld : d.gTokenSymbols.Holds dir) (he : e.sendsToken? = some (o, cmd))
    (ret : handle pf e d = .ret () d' w) :
    w = [.response [] (dir.take pf (secretFor o d) cmd).2] ∧
      d'.gTokenSymbols.Holds (dir.take pf (secretFor o d) cmd).1 := by
  obtain ⟨raw, rfl, hparse, hsends⟩ := sendsToken?_eq_some he
  have hfits : cmd.data.length ≤ 255 := apduParser_fits hparse
  have hserves := @handlerSendTokenData_serves pf o (wake d) cmd dir (by omega)
    (wake_gTokenSymbols d ▸ hsound) (wake_gTokenSymbols d ▸ hheld)
  rw [← apduDispatcher_sendTokenData hsends, secretFor_wake] at hserves
  have hstep := handle_serves (Q := fun registry => registry.Holds (dir.take pf (secretFor o d) cmd).1) hparse
    hd.isListening hserves
  rw [wp_of_ret ret] at hstep
  obtain ⟨⟨sw, rfl, rfl⟩, hheld'⟩ := hstep
  exact ⟨rfl, hheld'⟩

/-- A command that has a token verified. -/
theorem step_verifiesToken {o : Outcome} {cmd : Command} (hd : d.Disciplined) (he : e.verifiesToken? = some (o, cmd))
    (ret : handle pf e d = .ret () d' w) : w = [.response [] (tokenVerdict pf (secretFor o d) cmd.data).word] := by
  obtain ⟨raw, rfl, hparse, is, hp1, hp2⟩ := verifiesToken?_eq_some he
  have hfits : cmd.data.length ≤ 255 := apduParser_fits hparse
  have hserves := @handlerVerifyTokenSignature_serves pf o cmd.data (by omega) (wake d)
  rw [← apduDispatcher_verifyTokenSignature is hp1 hp2, secretFor_wake] at hserves
  have hstep := handle_replies hparse hd.isListening hserves
  rw [wp_of_ret ret] at hstep
  obtain ⟨sw, rfl, rfl⟩ := hstep
  rfl

/-- The registry holds what the service has filed. -/
theorem run_directory (run : Run (waitingSystem pf) h d) : d.gTokenSymbols.Holds (directoryAfter pf h) := by
  induction run with
  | start init =>
      obtain ⟨secret, rfl⟩ := init
      exact holds_zero
  | @step h d d₁ e w run admitted ret ih =>
      have ret' : handle pf e d = .ret () d₁ w := ret
      have hregistry := registryStep_of_run (free_of_waiting (.step run admitted ret)) List.mem_cons_self
      unfold directoryAfter
      dsimp only
      cases he : e.sendsToken? with
      | some sent =>
          obtain ⟨o, cmd⟩ := sent
          obtain ⟨hseen, hheld⟩ := step_sendsToken (run_disciplined run) (run_registryOf (free_of_waiting run)).sound ih he
            ret'
          rw [hseen, if_neg (by simp)]
          exact hheld
      | none =>
          have hother := sendsToken?_eq_none he
          cases hregistry with
          | kept quiet same =>
              have hno : Obs.restart ∉ w := fun hrestart => quiet (Or.inl hrestart)
              have same : d₁.gTokenSymbols = d.gTokenSymbols := same
              rw [if_neg hno, same]
              exact ih
          | cleared clears empty =>
              have empty : d₁.gTokenSymbols = zeroTokenDataCtx := empty
              rcases clears with hrestart | ⟨o, raw, cmd, hevent, hparse, hsends, _⟩
              · have hrestart : Obs.restart ∈ w := hrestart
                rw [if_pos hrestart, empty]
                exact holds_zero
              · exact absurd ⟨o, raw, cmd, hevent, hparse, hsends⟩ hother
          | added accepts =>
              obtain ⟨o, raw, cmd, hevent, hparse, hsends, _⟩ := accepts
              exact absurd ⟨o, raw, cmd, hevent, hparse, hsends⟩ hother

/-- A symbol stays that of its uid until the directory is dropped. -/
theorem lookup_stays {r : Step Device Event Obs} (hquiet : ¬ClearsRegistry r) {uid symbol : Bytes}
    (hlookup : (directoryAfter pf h).lookup uid = some symbol)
    (hheld : r.pre.gTokenSymbols.Holds (directoryAfter pf h)) :
    (directoryAfter pf (r :: h)).lookup uid = some symbol := by
  have hno : Obs.restart ∉ r.seen := fun hrestart => hquiet (Or.inl hrestart)
  unfold directoryAfter
  rw [if_neg hno]
  cases he : r.event.sendsToken? with
  | none => exact hlookup
  | some sent =>
      obtain ⟨o, cmd⟩ := sent
      obtain ⟨raw, hevent, hparse, hsends⟩ := sendsToken?_eq_some he
      have hroom : ¬(cmd.p1 = 0 ∨ txMaxTokens ≤ r.pre.gTokenSymbols.len) :=
        fun hclears => hquiet (Or.inr ⟨_, raw, _, hevent, hparse, hsends, hclears⟩)
      rw [not_or, ← hheld.full_iff] at hroom
      show ((directoryAfter pf h).take pf (secretFor o r.pre) cmd).1.lookup uid = some symbol
      unfold TokenDirectory.take TokenDirectory.serve
      rw [if_neg hroom.1, dif_neg hroom.2]
      split
      · exact @Directory.lookup_file_of_some _ _ _ _ _ _ _ hroom.2 _ _ hlookup
      · exact hlookup

/-- In every run of a waiting host the registry holds the directory of the service and is searched as the directory is. A
token that is sent is answered as the service answers it on the directory so far, one to be verified by what its data are
worth, and the symbol of a uid changes only when all of them are dropped. -/
theorem tokens_served (run : Run (waitingSystem pf) h d) :
    d.gTokenSymbols.Holds (directoryAfter pf h) ∧
      (∀ uid, (directoryAfter pf h).lookup uid = (findTokenRegistryIndex d.gTokenSymbols uid).map fun i =>
        cString (d.gTokenSymbols.tokens.getD i zeroTokenSymbol).symbol) ∧
      ∀ later r earlier, h = later ++ r :: earlier →
        (∀ o cmd, r.event.sendsToken? = some (o, cmd) →
          r.seen = [.response [] ((directoryAfter pf earlier).take pf (secretFor o r.pre) cmd).2]) ∧
        (∀ o cmd, r.event.verifiesToken? = some (o, cmd) →
          r.seen = [.response [] (tokenVerdict pf (secretFor o r.pre) cmd.data).word]) ∧
        (¬ClearsRegistry r → ∀ uid symbol, (directoryAfter pf earlier).lookup uid = some symbol →
          (directoryAfter pf (r :: earlier)).lookup uid = some symbol) := by
  have hheld := run_directory run
  refine ⟨hheld, hheld.lookup_eq, ?_⟩
  rintro later r earlier rfl
  obtain ⟨hbefore, _, ret⟩ := run.before
  have hd := run_disciplined hbefore
  have hheld' := run_directory hbefore
  refine ⟨fun o cmd he => ?_, fun o cmd he => ?_, fun hquiet uid symbol hlookup => ?_⟩
  · exact (step_sendsToken hd (run_registryOf (free_of_waiting hbefore)).sound hheld' he ret).1
  · exact step_verifiesToken hd he ret
  · exact lookup_stays hquiet hlookup hheld'

/-- Two tokens of one uid, a token with a bad digest between them: the symbol of the first stays in sight. -/
theorem tokens_served_twice : ∃ h d, Run (waitingSystem countingPlatform) h d ∧ h.length = 3 ∧
    d.gTokenSymbols.Holds (directoryAfter countingPlatform h) ∧ (directoryAfter countingPlatform h).entries.length = 2 ∧
    (directoryAfter countingPlatform h).lookup (List.replicate 32 0) = some [65] ∧
    ((findTokenRegistryIndex d.gTokenSymbols (List.replicate 32 0)).map fun i =>
      cString (d.gTokenSymbols.tokens.getD i zeroTokenSymbol).symbol) = some [65] := by
  obtain ⟨h, r, _, run, hP⟩ := exists_step_of_play countingPlatform true (List.replicate 32 1)
    [sendTokenData 0 (tokenData [65] [65] ++ List.replicate 31 0 ++ [2]),
      sendTokenData 1 (tokenData [67] [67] ++ List.replicate 32 0)]
    (sendTokenData 1 (tokenData [66] [66] ++ List.replicate 31 0 ++ [2]))
    (fun h r => (r :: h).length = 3 ∧ (directoryAfter countingPlatform (r :: h)).entries.length = 2 ∧
      (directoryAfter countingPlatform (r :: h)).lookup (List.replicate 32 0) = some [65]) (by decide +kernel)
  obtain ⟨hlength, hentries, hlookup⟩ := of_decide_eq_true hP
  obtain ⟨hheld, hsearch, _⟩ := tokens_served run
  exact ⟨r :: h, r.post, run, hlength, hheld, hentries, hlookup, (hsearch _).symm.trans hlookup⟩

end Runs

end HathorApp
