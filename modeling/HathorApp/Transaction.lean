import HathorApp.Buffer
import HathorApp.ProgramLogic

/-!
Decoding the bytes of a transaction: `transaction/deserialize.c`, `find_token_registry_index` of
`token/token_parser.c`, and `_decode_elements` and `decode_elements` of `handler/sign_tx.c`.
-/

namespace HathorApp

open ProgramLogic

/-! ### `transaction/deserialize.c` -/

def opDup : UInt8 := 0x76
def opEqualverify : UInt8 := 0x88
def opHash160 : UInt8 := 0xA9
def opChecksig : UInt8 := 0xAC

/-- Throws unless the script at the cursor is a complete P2PKH script. -/
def validateP2pkhScript (input : Buffer) (scriptLen : Nat) : Except Nat Unit :=
  if scriptLen ≠ 25 then .error swTxParsingFail
  else if input.size - input.offset < 25 then .error txStateReady
  else if (input.ptr.drop input.offset).take 3 ≠ [opDup, opHash160, UInt8.ofNat pubkeyHashLen] ∨
      (input.ptr.drop (input.offset + pubkeyHashLen + 3)).take 2 ≠ [opEqualverify, opChecksig] then
    .error swTxParsingFail
  else .ok ()

/-- The first bit of the first byte tells the length. The eight byte form holds the negative of the
value. -/
def parseOutputValue (buf : Buffer) : Except Nat (Nat × Buffer) :=
  if byteAt buf.ptr 0 &&& 0x80 ≠ 0 then
    match bufferReadU64 buf .be with
    | (false, _, _) => .error txStateReady
    | (true, tmp, buf) => .ok ((2 ^ 64 - tmp) % 2 ^ 64, buf)
  else
    match bufferReadU32 buf .be with
    | (false, _, _) => .error txStateReady
    | (true, tmp, buf) => .ok (tmp, buf)

/-- The output at the start of the input and the number of its bytes. -/
def parseOutput (input : Bytes) : Except Nat (TxOutput × Nat) :=
  match parseOutputValue (Buffer.ofData input) with
  | .error e => .error e
  | .ok (value, buf) =>
    match bufferReadU8 buf with
    | (false, _, _) => .error txStateReady
    | (true, tokenData, buf) =>
      match bufferReadU16 buf .be with
      | (false, _, _) => .error txStateReady
      | (true, scriptLen, buf) =>
        match validateP2pkhScript buf scriptLen with
        | .error e => .error e
        | .ok () =>
          let pubkeyHash := (buf.ptr.drop (buf.offset + 3)).take pubkeyHashLen
          match bufferSeekCur buf scriptLen with
          | (false, _) => .error swTxParsingFail
          | (true, buf) => .ok (⟨0, value, tokenData, pubkeyHash⟩, buf.offset)

/-! ### `token/token_parser.c` -/

/-- The first registry entry with the uid. -/
def findTokenRegistryIndex (registry : TokenDataCtx) (uid : Bytes) : Option Nat :=
  (List.range registry.len).find? fun i => (registry.tokens.getD i zeroTokenSymbol).uid = uid

/-! ### The decoder of `handler/sign_tx.c` -/

/-- The decoder works on the transaction context only. -/
abbrev Decoder := Prog SignTxCtx Obs

/-- What `handler_sign_tx` does first: the outputs of an earlier command are no longer shown. -/
def SignTxCtx.resetCall (tx : SignTxCtx) : SignTxCtx := { tx with displayIndex := 0, bufferOutputLen := 0 }

/-- Append what is left of the data to the decode buffer, which `receive_data` does for every
chunk. -/
def copyToDecodeBuffer (cdata : Buffer) : Decoder Unit := do
  let tx ← Prog.get
  match bufferCopy cdata (decodeBufferLen - tx.buffer.length) with
  | none => Prog.throw swWrongDataLength
  | some data => Prog.modify fun tx => { tx with buffer := tx.buffer ++ data }

section Decoder

variable (verify : ChangeOutputInfo → TxOutput → Option Bool) (registry : TokenDataCtx)

/-- One token UID. A write past the token table is outside its array. -/
def decodeTokenUid (tx : SignTxCtx) : Decoder Unit :=
  if tx.buffer.length < tokenUidLen then Prog.throw txStateReady
  else
    match findTokenRegistryIndex registry (tx.buffer.take tokenUidLen) with
    | none => Prog.throw txStateErr
    | some registryIndex =>
      if tx.tokens.length < txMaxTokens then
        Prog.modify fun tx => { tx with
          tokens := tx.tokens ++ [registryIndex]
          remainingTokens := tx.remainingTokens - 1
          buffer := tx.buffer.drop tokenUidLen }
      else Prog.overrun

/-- One input, discarded once its data length is seen to be zero. -/
def decodeInput (tx : SignTxCtx) : Decoder Unit :=
  if tx.buffer.length < txInputLen then Prog.throw txStateReady
  else if readU16Be tx.buffer 33 > 0 then Prog.throw txStateErr
  else
    Prog.modify fun tx => { tx with
      remainingInputs := tx.remainingInputs - 1
      buffer := tx.buffer.drop txInputLen }

/-- Every change entry with the index of the output has to verify. -/
def verifyChangeEntries (output : TxOutput) : List ChangeOutputInfo → Decoder Unit
  | [] => pure ()
  | info :: rest =>
    if output.index = info.index then do
      Prog.emit (.derive info.path)
      match verify info output with
      | none => Prog.throw swInternalError
      | some false => Prog.throw txStateErr
      | some true => verifyChangeEntries output rest
    else verifyChangeEntries output rest

/-- One output, saved for the user's confirmation. -/
def decodeOutput (tx : SignTxCtx) : Decoder Unit :=
  match parseOutput tx.buffer with
  | .error e => Prog.throw e
  | .ok (parsed, outputLen) =>
    if parsed.tokenData &&& tokenDataAuthorityMask ≠ 0 then Prog.throw txStateErr
    else if parsed.tokenData &&& tokenDataIndexMask > tx.tokens.length then Prog.throw txStateErr
    else do
      let output := { parsed with index := tx.currentOutput }
      Prog.modify fun tx => { tx with currentOutput := tx.currentOutput + 1 }
      verifyChangeEntries verify output tx.changes
      Prog.modify fun tx => { tx with buffer := tx.buffer.drop outputLen }
      if tx.bufferOutputLen ≥ outputSlots then Prog.throw txStateErr
      else do
        Prog.modify fun tx => { tx with
          outputs := tx.outputs.set tx.bufferOutputLen output
          bufferOutputLen := tx.bufferOutputLen + 1 }
        Prog.emit (.decoded output)

/-- One element; the result tells whether bytes are left on the buffer. -/
def _decodeElements : Decoder Bool := do
  let tx ← Prog.get
  if tx.remainingTokens > 0 then decodeTokenUid registry tx
  else if tx.remainingInputs > 0 then decodeInput tx
  else if tx.currentOutput < tx.outputsLen then decodeOutput verify tx
  else Prog.throw txStateErr
  let tx ← Prog.get
  return decide (tx.buffer.length ≠ 0)

/-- `while (_decode_elements()) {;}` for at most `fuel` iterations; the result tells whether the loop
came to its end. -/
def decodeLoop : Nat → Decoder Bool
  | 0 => pure false
  | fuel + 1 => do
    if ← _decodeElements verify registry then decodeLoop fuel else pure true

/-- The state `decode_elements` returns: a `tx_decoder_state_e`, or any other code thrown below. One
iteration more than there are bytes is enough for the loop. -/
def decodeElements : Decoder Nat := do
  let tx ← Prog.get
  Prog.catchAll
    (do
      if ← decodeLoop verify registry (tx.buffer.length + 1) then pure txStateReady
      else Prog.overrun)
    fun e => pure (if e = swTxParsingFail then txStateErr else e)

end Decoder

end HathorApp
