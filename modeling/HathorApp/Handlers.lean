import HathorApp.Display
import HathorApp.Transaction

/-! The command handlers of `handler/`. Each returns the value of the C function; a negative value
makes `app_main` return. -/

namespace HathorApp

open ProgramLogic

variable (pf : Platform) (o : Outcome)

/-- A read of a path into `G_context.bip32_path`, kept also when it is refused. -/
def readContextPath (cdata : Buffer) : App Bool := do
  let d ← Prog.get
  let (read, path, _) := bufferReadBip32Path cdata d.gContext.bip32Path
  Prog.modify fun d => { d with gContext := { d.gContext with bip32Path := path } }
  return read

/-! ### GET_VERSION, GET_ADDRESS and GET_XPUB -/

/-- `MAJOR_VERSION`, `MINOR_VERSION` and `PATCH_VERSION` of the Makefile. -/
def appVersion : Bytes := [1, 1, 2]

/-- `handler_get_version`. -/
def handlerGetVersion : App Int := ioSendResponse ([72, 84, 82] ++ appVersion) swOk

/-- The context a GET_ADDRESS or GET_XPUB command starts from. -/
def initRequest (reqType : RequestType) (d : Device) : Device :=
  { d with gContext := { zeroGlobalCtx with reqType := reqType, state := .none } }

/-- `derive_address`. -/
def deriveAddress : App Unit := do
  let d ← Prog.get
  Prog.emit (.derive d.gContext.bip32Path)
  match (derivePrivateKey pf o d.gContext.bip32Path).bind fun (key, _) => initPublicKey pf o key with
  | none => Prog.throw swInternalError
  | some w =>
    Prog.modify fun d => { d with gContext :=
      { d.gContext with pkInfo := { d.gContext.pkInfo with rawPublicKey := w } } }

/-- `handler_get_address`. -/
def handlerGetAddress (cdata : Buffer) : App Int := do
  Prog.modify (initRequest .confirmAddress)
  if ← readContextPath cdata then do
    deriveAddress pf o
    uiDisplayConfirmAddress pf o
  else ioSendSw swWrongDataLength

/-- The first half of `derive_xpub`: the key at the path and its chain code. -/
def deriveXpubKey : App Unit := do
  let d ← Prog.get
  Prog.emit (.derive d.gContext.bip32Path)
  match derivePrivateKey pf o d.gContext.bip32Path with
  | none => Prog.throw swInternalError
  | some (key, chainCode) =>
    match initPublicKey pf o key with
    | none => Prog.throw swInternalError
    | some w =>
      Prog.modify fun d => { d with gContext :=
        { d.gContext with pkInfo := { d.gContext.pkInfo with rawPublicKey := w, chainCode := chainCode } } }

/-- The second half of `derive_xpub`: the fingerprint of the parent. For an empty path the depth of
the parent wraps to 255, past the five slots of `parent_path`. -/
def deriveXpubParent : App Unit := do
  let d ← Prog.get
  if d.gContext.bip32Path.length = 0 then Prog.overrun
  else do
    let parentPath := d.gContext.bip32Path.dropLast
    Prog.emit (.derive parentPath)
    match pubkeyHashOf pf o parentPath with
    | none => Prog.throw swInternalError
    | some hash =>
      Prog.modify fun d => { d with gContext :=
        { d.gContext with pkInfo := { d.gContext.pkInfo with fingerprint := hash.take fingerprintLen } } }

/-- `handler_get_xpub`. -/
def handlerGetXpub (cdata : Buffer) : App Int := do
  Prog.modify (initRequest .confirmXpub)
  if ← readContextPath cdata then do
    deriveXpubKey pf o
    deriveXpubParent pf o
    uiDisplayXpubConfirm
  else ioSendSw swWrongDataLength

/-! ### Token commands -/

/-- `handler_sign_token_data`. -/
def handlerSignTokenData (cdata : Buffer) : App Int := do
  Prog.modify Device.bzeroContext
  let (parsed, token, _) := parseToken cdata zeroToken
  Prog.modify fun d => { d with gContext := { d.gContext with token := token } }
  if parsed then uiDisplaySignTokenData else ioSendSw swInvalidSignature

/-- `check_token_signature_from_apdu`: 0 for a valid signature, 1 for an invalid one, any other value
for a malformed command. -/
def checkTokenSignatureFromApdu (cdata : Buffer) : App (Nat × Token) := do
  match parseToken cdata zeroToken with
  | (false, token, _) => return (3, token)
  | (true, token, cdata) =>
    match bufferReadBytes cdata 32 32 with
    | none => return (4, token)
    | some (signature, _) =>
      let secret ← getSecret o
      return (verifyTokenSignature pf secret token signature, token)

/-- The answer to a token command whose signature did not check. -/
def replyTokenCheck (isTokenVerified : Nat) : App Int :=
  if isTokenVerified = 1 then ioSendSw swInvalidSignature else ioSendSw swInternalError

/-- `handler_verify_token_signature`. -/
def handlerVerifyTokenSignature (cdata : Buffer) : App Int := do
  Prog.modify Device.bzeroContext
  let (isTokenVerified, _) ← checkTokenSignatureFromApdu pf o cdata
  if isTokenVerified = 0 then ioSendSw swOk else replyTokenCheck isTokenVerified

/-- The registry entry written for a token: uid, symbol and NUL, over the old entry. -/
def TokenSymbol.store (old : TokenSymbol) (token : Token) : TokenSymbol :=
  { uid := token.uid
    symbol := token.symbol.take token.symbolLen ++ [0] ++ old.symbol.drop (token.symbolLen + 1) }

/-- The registry with a token in its next slot. The slot is counted before the length of the symbol
is tested. -/
def TokenDataCtx.add (registry : TokenDataCtx) (token : Token) : TokenDataCtx :=
  let old := registry.tokens.getD registry.len zeroTokenSymbol
  { len := registry.len + 1
    tokens := registry.tokens.set registry.len
      (if token.symbolLen > maxTokenSymbolLen then { old with uid := token.uid } else old.store token) }

/-- `handler_send_token_data` after the test of its first argument. -/
def registerToken (cdata : Buffer) : App Int := do
  let d ← Prog.get
  if d.gTokenSymbols.len ≥ txMaxTokens then do
    Prog.modify Device.bzeroTokenSymbols
    ioSendSw swWrongDataLength
  else do
    let (isTokenVerified, token) ← checkTokenSignatureFromApdu pf o cdata
    if isTokenVerified = 0 then do
      Prog.modify fun d => { d with gTokenSymbols := d.gTokenSymbols.add token }
      if token.symbolLen > maxTokenSymbolLen then ioSendSw swWrongDataLength else ioSendSw swOk
    else replyTokenCheck isTokenVerified

/-- `handler_send_token_data`. -/
def handlerSendTokenData (first : Bool) (cdata : Buffer) : App Int :=
  if first then do
    Prog.modify fun d => d.bzeroContext.bzeroTokenSymbols
    registerToken pf o cdata
  else registerToken pf o cdata

/-- `handler_reset_token_signatures`. -/
def handlerResetTokenSignatures : App Int := uiDisplayResetTokenSignaturesConfirm

/-! ### SIGN_TX -/

/-- The entries of `read_change_info_v1` from the `i`-th on, each stored as it is read. -/
def readChangeEntries : Nat → Nat → Buffer → App Buffer
  | 0, _, cdata => return cdata
  | n + 1, i, cdata => do
    let (read, index, cdata) := bufferReadU8 cdata
    let d ← Prog.get
    let old := d.tx.changeInfo.getD i ⟨0, []⟩
    Prog.modify fun d => d.withTx { d.tx with
      changeInfo := d.tx.changeInfo.set i { old with index := index } }
    if !read then Prog.throw swWrongDataLength
    else do
      let (read, path, cdata) := bufferReadBip32Path cdata old.path
      Prog.modify fun d => d.withTx { d.tx with changeInfo := d.tx.changeInfo.set i ⟨index, path⟩ }
      if !read then Prog.throw swWrongDataLength else readChangeEntries n (i + 1) cdata

/-- `read_change_info_v1`. -/
def readChangeInfoV1 (cdata : Buffer) : App Buffer := do
  let (read, changeLen, cdata) := bufferReadU8 cdata
  Prog.modify fun d => d.withTx { d.tx with changeLen := changeLen }
  if !read then Prog.throw swWrongDataLength
  else if changeLen > txMaxTokens + 1 then Prog.throw swWrongDataLength
  else readChangeEntries changeLen 0 cdata

/-- `read_change_info_old_protocol`: one entry, whose path is copied behind its length into a scratch
buffer and read from there. -/
def readChangeInfoOldProtocol (changeByte : Nat) (cdata : Buffer) : App Buffer := do
  Prog.modify fun d => d.withTx { d.tx with changeLen := 1 }
  let (read, index, cdata) := bufferReadU8 cdata
  let d ← Prog.get
  let old := d.tx.changeInfo.getD 0 ⟨0, []⟩
  Prog.modify fun d => d.withTx { d.tx with
    changeInfo := d.tx.changeInfo.set 0 { old with index := index } }
  if !read then Prog.throw swWrongDataLength
  else
    let n := changeByte &&& 0x0F
    if n > maxBip32Path then Prog.throw swWrongDataLength
    else if cdata.size - cdata.offset < 4 * n then Prog.throw swWrongDataLength
    else do
      let data := (cdata.ptr.drop cdata.offset).take (4 * n)
      let buffer := UInt8.ofNat n :: (data ++ List.replicate (4 * maxBip32Path - data.length) 0)
      let cdata := (bufferSeekCur cdata (4 * n)).2
      let (read, path, _) := bufferReadBip32Path ⟨buffer, 1 + 4 * maxBip32Path, 0⟩ old.path
      Prog.modify fun d => d.withTx { d.tx with changeInfo := d.tx.changeInfo.set 0 ⟨index, path⟩ }
      if !read then Prog.throw swWrongDataLength else return cdata

/-- `read_change_info`. -/
def readChangeInfo (cdata : Buffer) : App Buffer := do
  let (read, protoVersion, cdata) := bufferReadU8 cdata
  if !read then Prog.throw swWrongDataLength
  else if protoVersion = 0 then do
    Prog.modify fun d => d.withTx { d.tx with changeLen := 0 }
    return cdata
  else if protoVersion &&& 0x80 ≠ 0 then readChangeInfoOldProtocol protoVersion cdata
  else if protoVersion = 1 then readChangeInfoV1 cdata
  else Prog.throw swInvalidTx

/-- `read_tx_data`: the reads are joined by `&&`, so the first one that fails stops the others. -/
def readTxData (cdata : Buffer) : App Buffer := do
  let (read, txVersion, cdata) := bufferReadU16 cdata .be
  Prog.modify fun d => d.withTx { d.tx with txVersion := txVersion }
  if !read then Prog.throw swWrongDataLength
  else do
    let (read, remainingTokens, cdata) := bufferReadU8 cdata
    Prog.modify fun d => d.withTx { d.tx with remainingTokens := remainingTokens }
    if !read then Prog.throw swWrongDataLength
    else do
      let (read, remainingInputs, cdata) := bufferReadU8 cdata
      Prog.modify fun d => d.withTx { d.tx with remainingInputs := remainingInputs }
      if !read then Prog.throw swWrongDataLength
      else do
        let (read, outputsLen, cdata) := bufferReadU8 cdata
        Prog.modify fun d => d.withTx { d.tx with outputsLen := outputsLen }
        if !read then Prog.throw swWrongDataLength else return cdata

/-- `sighash_all_hash`: what is left of the buffer goes to the session's hash context. -/
def sighashAllHash (cdata : Buffer) : App Unit := do
  let d ← Prog.get
  match cxHashNoThrow o d.tx.sha256 ((cdata.ptr.drop cdata.offset).take (cdata.size - cdata.offset)) with
  | none => Prog.throw o.hashError
  | some sha256 => Prog.modify fun d => d.withTx { d.tx with sha256 := some sha256 }

/-- The steps of `sign_tx_with_key` joined by `CX_CHECK`; `none` is the jump to its end with an
error. The digest is computed on the first request, which is told by its first byte. -/
def signSighash : App (Option Bytes) := do
  let d ← Prog.get
  Prog.emit (.derive d.gContext.bip32Path)
  match derivePrivateKey pf o d.gContext.bip32Path with
  | none => return none
  | some (key, _) =>
    let hashed ← (do
      if d.tx.sighashAll.getD 0 0 = 0 then
        match cxHashNoThrow o d.tx.sha256 [] with
        | none => return false
        | some m =>
          let first := pf.sha256 m
          -- the first digest is in place already when the second hash is asked for
          Prog.modify fun d => d.withTx { d.tx with sighashAll := first, sha256 := some [] }
          match cxHashNoThrow o (some []) first with
          | none => return false
          | some m =>
            Prog.modify fun d => d.withTx { d.tx with sighashAll := pf.sha256 m, sha256 := some m }
            return true
      else return true)
    if !hashed then return none
    else do
      let d ← Prog.get
      Prog.emit (.ecdsa d.tx.sighashAll)
      if o.ok (.ecdsaSign key d.tx.sighashAll) then return some (pf.ecdsaSign key d.tx.sighashAll)
      else return none

/-- `sign_tx_with_key`. The two error exits compare with `>` where the last one compares with `≥`. -/
def signTxWithKey : App Bool := do
  let d ← Prog.get
  if d.gContext.bip32Path.length = 0 then do
    let ret ← ioSendSw swSignatureFail
    return decide (ret > 0)
  else
    match ← signSighash pf o with
    | none =>
      let ret ← ioSendSw swInternalError
      return decide (ret > 0)
    | some out =>
      let ret ← ioSendResponse out swOk
      return decide (ret ≥ 0)

/-- `init_sign_tx_ctx`. -/
def initSignTxCtx (d : Device) : Device :=
  { d with gContext := { zeroGlobalCtx with
      reqType := .confirmTransaction
      state := .recvData
      txInfo := { zeroSignTxCtx with sha256 := some [] } } }

/-- A program on the transaction context, run on the device. -/
def onTx {α : Type} (p : Decoder α) : App α := p.zoom Device.tx fun tx d => d.withTx tx

/-- The part of `receive_data` before the decoder. -/
def takeChunk (cdata : Buffer) (chunk : Nat) : App Unit := do
  if chunk = 0 then do
    let d ← Prog.get
    if d.state = .recvData then do
      Prog.modify Device.bzeroContext
      Prog.throw swBadState
    else do
      Prog.modify initSignTxCtx
      let cdata ← readChangeInfo cdata
      sighashAllHash o cdata
      let cdata ← readTxData cdata
      onTx (copyToDecodeBuffer cdata)
  else do
    sighashAllHash o cdata
    onTx (copyToDecodeBuffer cdata)

/-- The part of `receive_data` from the decoder on. -/
def decodeChunk : App Bool := do
  let d ← Prog.get
  let result ← onTx (decodeElements (verifyChange pf o) d.gTokenSymbols)
  if result = txStateErr then do
    bzeroAndReply swInvalidTx
    return true
  else if result = txStateReady then do
    let d ← Prog.get
    if d.tx.bufferOutputLen ≠ 0 then do
      let ret ← uiDisplayTxOutputs pf o
      return decide (ret = 0)
    else do
      let _ ← ioSendSw swOk
      return true
  else return false

/-- `receive_data`. -/
def receiveData (cdata : Buffer) (chunk : Nat) : App Bool := do
  takeChunk o cdata chunk
  decodeChunk pf o

/-- `sing_tx_stage_e`. -/
inductive SignTxStage where
  | data
  | sign
  | done
  deriving DecidableEq, Repr

/-- Clear the context, return to the menu and reply. -/
def bzeroMenuReply (sw : Nat) : App Int := do
  Prog.modify Device.bzeroContext
  uiMenuMain
  ioSendSw sw

/-- `handler_sign_tx`. -/
def handlerSignTx (cdata : Buffer) (stage : SignTxStage) (chunk : Nat) : App Int := do
  Prog.modify fun d => d.withTx d.tx.resetCall
  let d ← Prog.get
  match stage with
  | .done => bzeroMenuReply swOk
  | .sign =>
    if d.state ≠ .approved then ioSendSw swBadState
    else if !(← readContextPath cdata) then ioSendSw swWrongDataLength
    else if !(← signTxWithKey pf o) then return -1
    else return 0
  | .data =>
    if d.state = .approved then bzeroMenuReply swBadState
    else if chunk > 0 ∧ d.state ≠ .recvData then bzeroMenuReply swBadState
    else if !(← receiveData pf o cdata chunk) then return -1
    else return 0

end HathorApp
