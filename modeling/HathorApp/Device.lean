import HathorApp.ProgramLogic
import HathorApp.Token

/-!
The global state of the application, its input and output (`io.c`), its stored secret (`storage.c`)
and the menu (`ui/menu.c`).

The application rests inside a call of `io_exchange`, from which a command or a button press wakes
it. Which of its two calls that is tells what happens to `G_io_state` on the way out.
-/

namespace HathorApp

open ProgramLogic

/-- `io_state_e`. -/
inductive IoState where
  | ready
  | received
  | waiting
  deriving DecidableEq, Repr

/-- The `io_exchange` call the application rests in: the one that sends the last reply, or the one
with `IO_ASYNCH_REPLY`, made while a reply is still owed. -/
inductive Exchange where
  | apdu
  | asynchReply
  deriving DecidableEq, Repr

/-- The flows of `ui/menu.c` and `ui/display.c`. -/
inductive Flow where
  | menuMain
  | processing
  | confirmTx
  | txOutput
  | xpub
  | address
  | resetTokenSignatures
  | signTokenData
  deriving DecidableEq, Repr

/-- The functions `g_validate_callback` points to. -/
inductive Callback where
  | uiActionTxConfirm
  | uiConfirmOutput
  | uiActionConfirmXpub
  | uiActionConfirmAddress
  | uiConfirmResetTokenSignatures
  | uiActionSignTokenData
  deriving DecidableEq, Repr

/-- The flow has an approve step: it is a confirmation screen. -/
def Flow.asks : Flow → Bool
  | .menuMain | .processing => false
  | _ => true

/-- The flow has a reject step. The address flow has none. -/
def Flow.rejects : Flow → Bool
  | .menuMain | .processing | .address => false
  | _ => true

/-- The global variables. -/
structure Device where
  gContext : GlobalCtx
  gTokenSymbols : TokenDataCtx
  /-- `N_storage.secret`, in flash. -/
  secret : Bytes
  gIoState : IoState
  exchange : Exchange
  gValidateCallback : Option Callback
  flow : Flow
  gOutputIndex : Bytes
  gAddress : Bytes
  gAmount : Bytes
  gTokenSymbol : Bytes
  gTokenName : Bytes
  gTokenUid : Bytes
  deriving DecidableEq, Repr

/-- The programs of the application. -/
abbrev App := Prog Device Obs

namespace Device

/-- `G_context.tx_info`. -/
abbrev tx (d : Device) : SignTxCtx := d.gContext.txInfo

/-- `G_context.state`. -/
abbrev state (d : Device) : State := d.gContext.state

/-- The same device with another transaction context. -/
def withTx (d : Device) (tx : SignTxCtx) : Device := { d with gContext := { d.gContext with txInfo := tx } }

/-- The same device with another session state. -/
def withState (d : Device) (s : State) : Device := { d with gContext := { d.gContext with state := s } }

/-- `explicit_bzero(&G_context, sizeof(G_context))`. -/
def bzeroContext (d : Device) : Device := { d with gContext := zeroGlobalCtx }

/-- `explicit_bzero(&G_token_symbols, sizeof(G_token_symbols))`. -/
def bzeroTokenSymbols (d : Device) : Device := { d with gTokenSymbols := zeroTokenDataCtx }

/-- What the screen shows. -/
def screen (d : Device) : Screen :=
  match d.flow with
  | .menuMain => .menuMain
  | .processing => .processing
  | .confirmTx => .confirmTx
  | .txOutput => .txOutput d.gOutputIndex d.gAddress d.gAmount
  | .xpub => .xpub
  | .address => .address d.gAddress
  | .resetTokenSignatures => .resetTokenSignatures
  | .signTokenData => .signTokenData d.gTokenSymbol d.gTokenName d.gTokenUid

end Device

/-- `io_send_response` for data that fits the reply buffer: it returns a negative value when no
command is being processed. -/
def ioSendReply (data : Bytes) (sw : Nat) : App Int := do
  Prog.emit (.response data sw)
  let d ← Prog.get
  match d.gIoState with
  | .ready => return -1
  | .received | .waiting =>
    Prog.modify ({ · with gIoState := .ready })
    return 0

/-- `io_send_sw`. -/
def ioSendSw (sw : Nat) : App Int := ioSendReply [] sw

/-- `io_send_response`. -/
def ioSendResponse (data : Bytes) (sw : Nat) : App Int :=
  if data.length > ioApduBufferSize - 2 then ioSendSw swWrongResponseLength else ioSendReply data sw

/-- `ux_flow_init`. -/
def uxFlowInit (flow : Flow) : App Unit := do
  Prog.modify ({ · with flow := flow })
  let d ← Prog.get
  Prog.emit (.display d.screen)

/-- `ui_menu_main`. -/
def uiMenuMain : App Unit := uxFlowInit .menuMain

/-- Point `g_validate_callback` to a function and show a flow whose approve and reject steps call
it. -/
def askUser (callback : Callback) (flow : Flow) : App Unit := do
  Prog.modify ({ · with gValidateCallback := some callback })
  uxFlowInit flow

/-- The exit taken on a failure that is reported at once: clear the context, reply and return to the
menu. -/
def bzeroAndReply (sw : Nat) : App Unit := do
  Prog.modify Device.bzeroContext
  let _ ← ioSendSw sw
  uiMenuMain

/-! ### `storage.c` -/

/-- `generate_secret`. -/
def generateSecret (o : Outcome) : App Unit := Prog.modify ({ · with secret := o.rng.take secretLen })

/-- `get_secret`: an all-zero secret is one that was never generated. -/
def getSecret (o : Outcome) : App Bytes := do
  let d ← Prog.get
  if d.secret.any (· ≠ 0) then return d.secret
  else do
    generateSecret o
    let d ← Prog.get
    return d.secret

end HathorApp
