import HathorApp.Device
import HathorApp.Format
import HathorApp.SelectionSort

/-!
The confirmation screens and their callbacks: `ui/display.c`, `ui/action/validate.c` and
`helper/send_response.c`, built without `UI_SHOW_PATH`.
-/

namespace HathorApp

open ProgramLogic

variable (pf : Platform) (o : Outcome)

/-- `ui_action_tx_confirm`. -/
def uiActionTxConfirm (choice : Bool) : App Unit :=
  if choice then do
    Prog.modify (·.withState .approved)
    let _ ← ioSendSw swOk
    uxFlowInit .processing
  else bzeroAndReply swDeny

/-- `ui_display_tx_confirm`. -/
def uiDisplayTxConfirm : App Unit := do
  let d ← Prog.get
  if d.gContext.reqType ≠ .confirmTransaction ∨ d.state ≠ .parsed then bzeroAndReply swBadState
  else askUser .uiActionTxConfirm .confirmTx

/-- `check_output_index_state`: whether something else is shown or asked for instead of the next
output. -/
def checkOutputIndexState : App Bool := do
  let d ← Prog.get
  if d.tx.confirmedOutputs = d.tx.outputsLen then do
    Prog.modify (·.withState .parsed)
    uiDisplayTxConfirm
    return true
  else if d.tx.displayIndex = d.tx.bufferOutputLen then do
    Prog.modify fun d => d.withTx { d.tx with bufferOutputLen := 0, displayIndex := 0 }
    let _ ← ioSendSw swOk
    uiMenuMain
    return true
  else return false

/-- `inplace_selection_sort`. -/
def inplaceSelectionSort (list : List Nat) : List Nat := SelectionSort.selectionSort list

/-- Both cursors past one output. -/
def SignTxCtx.advance (tx : SignTxCtx) : SignTxCtx :=
  { tx with displayIndex := u8 (tx.displayIndex + 1), confirmedOutputs := u8 (tx.confirmedOutputs + 1) }

/-- The pass of `skip_change_outputs` over the sorted indices. -/
def skipPass : List Nat → App Bool
  | [] => return false
  | index :: rest => do
    let d ← Prog.get
    if d.tx.confirmedOutputs = index then do
      Prog.modify fun d => d.withTx d.tx.advance
      if ← checkOutputIndexState then return true else skipPass rest
    else skipPass rest

/-- `skip_change_outputs`. A count past the `change_indices` array is outside it. -/
def skipChangeOutputs : App Bool := do
  let d ← Prog.get
  if d.tx.changeLen = 0 then return false
  else if d.tx.changeLen > 1 + txMaxTokens then Prog.overrun
  else skipPass (inplaceSelectionSort (d.tx.changes.map (·.index)))

/-- The header `k/M` of an output screen. -/
def outputIndexText (tx : SignTxCtx) (output : TxOutput) : Bytes :=
  let totalOutputs := u8 (tx.outputsLen + 256 - tx.changeLen % 256)
  let behind := (tx.changes.filter fun info => output.index > info.index).length
  let fakeOutputIndex := u8 (u8 (output.index + 1) + 256 - behind % 256)
  (itoa fakeOutputIndex 10).getD [] ++ [47] ++ (itoa totalOutputs 10).getD []

/-- The address text of a base58 encoded address, kept in `B58_ADDRESS_LEN` bytes. -/
def addressText (address : Bytes) : Bytes := (base58Encode address b58AddressLen).getD []

/-- `"HTR"`. -/
def htrSymbol : Bytes := [72, 84, 82]

/-- The symbol of the token an output pays in: HTR, or the symbol the token table points to. `none` is
a pointer that was never set. -/
def outputSymbol (registry : TokenDataCtx) (tx : SignTxCtx) (output : TxOutput) : Option Bytes :=
  if output.tokenIndex = 0 then some htrSymbol
  else
    match tx.tokens[output.tokenIndex - 1]? with
    | none => none
    | some slot => (registry.tokens[slot]?).map fun token => cString token.symbol

/-- Size of `g_amount`. -/
def gAmountLen : Nat := 30

/-- `g_amount` with symbol, a space and the value; `none` is a write past its end. -/
def amountCells (symbol : Bytes) (value : Nat) : Option Bytes := do
  let cells ← CellArray.writeAll (List.replicate gAmountLen 0) 0 (symbol.take maxTokenSymbolLen ++ [0])
  let cells ← CellArray.write cells symbol.length 32
  formatValueInto cells (symbol.length + 1) value

/-- The text of an amount, when it fits. -/
def amountText (symbol : Bytes) (value : Nat) : Option Bytes := (amountCells symbol value).map cString

/-- `prepare_display_output`: whether something else was shown or asked for. A display index past the
`outputs` array, a token pointer that was never set and an amount longer than `g_amount` are outside the
memory of the array. -/
def prepareDisplayOutput : App Bool := do
  if ← checkOutputIndexState then return true
  else if ← skipChangeOutputs then return true
  else do
    let d ← Prog.get
    match d.tx.outputs[d.tx.displayIndex]? with
    | none => Prog.overrun
    | some output =>
      Prog.modify ({ · with gOutputIndex := outputIndexText d.tx output })
      match addressFromPubkeyHash pf o output.pubkeyHash with
      | none =>
        Prog.modify ({ · with gAddress := [] })
        bzeroAndReply swInternalError
        return true
      | some address =>
        Prog.modify ({ · with gAddress := addressText address })
        match outputSymbol d.gTokenSymbols d.tx output with
        | none => Prog.overrun
        | some symbol =>
          match amountText symbol output.value with
          | none => Prog.overrun
          | some amount =>
            Prog.modify ({ · with gAmount := amount })
            return false

/-- `ui_display_tx_outputs`. -/
def uiDisplayTxOutputs : App Int := do
  if ← prepareDisplayOutput pf o then return 0
  else do
    askUser .uiConfirmOutput .txOutput
    return 0

/-- `ui_confirm_output`. -/
def uiConfirmOutput (choice : Bool) : App Unit :=
  if choice then do
    Prog.modify fun d => d.withTx d.tx.advance
    if ← skipChangeOutputs then return ()
    else do
      let _ ← uiDisplayTxOutputs pf o
      return ()
  else bzeroAndReply swDeny

/-- `ui_display_xpub_confirm`. -/
def uiDisplayXpubConfirm : App Int := do
  let d ← Prog.get
  if d.gContext.reqType ≠ .confirmXpub ∨ d.state ≠ .none then do
    Prog.modify (·.withState .none)
    ioSendSw swBadState
  else do
    askUser .uiActionConfirmXpub .xpub
    return 0

/-- `ui_display_confirm_address`: it derives the address anew to show it. -/
def uiDisplayConfirmAddress : App Int := do
  let d ← Prog.get
  if d.gContext.reqType ≠ .confirmAddress ∨ d.state ≠ .none then do
    Prog.modify (·.withState .none)
    ioSendSw swBadState
  else do
    Prog.modify ({ · with gAddress := [] })
    Prog.emit (.derive d.gContext.bip32Path)
    match (derivePrivateKey pf o d.gContext.bip32Path).bind fun (key, _) =>
        (initPublicKey pf o key).bind fun w => addressFromPubkey pf o w with
    | none =>
      bzeroAndReply swInternalError
      return 1
    | some address =>
      Prog.modify ({ · with gAddress := addressText address })
      askUser .uiActionConfirmAddress .address
      return 0

/-- `helper_send_response_xpub`. -/
def helperSendResponseXpub : App Int := do
  let d ← Prog.get
  let pk := d.gContext.pkInfo
  ioSendResponse (pk.rawPublicKey ++ pk.chainCode ++ pk.fingerprint) swOk

/-- `ui_action_confirm_xpub`. -/
def uiActionConfirmXpub (choice : Bool) : App Unit :=
  if choice then do
    let _ ← helperSendResponseXpub
    uiMenuMain
  else bzeroAndReply swDeny

/-- `ui_action_confirm_address`. -/
def uiActionConfirmAddress (choice : Bool) : App Unit :=
  if choice then do
    let _ ← ioSendSw swOk
    uiMenuMain
  else bzeroAndReply swDeny

/-- `ui_confirm_reset_token_signatures`. -/
def uiConfirmResetTokenSignatures (choice : Bool) : App Unit := do
  if choice then do
    generateSecret o
    let _ ← ioSendSw swOk
  else do
    let _ ← ioSendSw swDeny
  uiMenuMain

/-- `ui_display_reset_token_signatures_confirm`. -/
def uiDisplayResetTokenSignaturesConfirm : App Int := do
  askUser .uiConfirmResetTokenSignatures .resetTokenSignatures
  return 0

/-- `ui_display_sign_token_data`. -/
def uiDisplaySignTokenData : App Int := do
  let d ← Prog.get
  let token := d.gContext.token
  if token.symbolLen > maxTokenSymbolLen ∨ token.nameLen > maxTokenNameLen then do
    bzeroAndReply swInternalError
    return 1
  else do
    Prog.modify ({ · with
      gTokenSymbol := cString (token.symbol.take token.symbolLen)
      gTokenName := cString (token.name.take token.nameLen)
      gTokenUid := formatHex token.uid })
    askUser .uiActionSignTokenData .signTokenData
    return 0

/-- `helper_send_token_data_signature`. -/
def helperSendTokenDataSignature : App Int := do
  let secret ← getSecret o
  let d ← Prog.get
  ioSendResponse (signToken pf secret d.gContext.token) swOk

/-- `ui_action_sign_token_data`. -/
def uiActionSignTokenData (choice : Bool) : App Unit :=
  if choice then do
    let _ ← helperSendTokenDataSignature pf o
    uiMenuMain
  else bzeroAndReply swDeny

/-- The call through `g_validate_callback`. -/
def runCallback : Callback → Bool → App Unit
  | .uiActionTxConfirm => uiActionTxConfirm
  | .uiConfirmOutput => uiConfirmOutput pf o
  | .uiActionConfirmXpub => uiActionConfirmXpub
  | .uiActionConfirmAddress => uiActionConfirmAddress
  | .uiConfirmResetTokenSignatures => uiConfirmResetTokenSignatures o
  | .uiActionSignTokenData => uiActionSignTokenData pf o

end HathorApp
