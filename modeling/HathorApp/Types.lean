import Mathlib.Algebra.Group.Nat.Defs
import Mathlib.Data.List.Basic

/-!
The constants and records shared by the application: `constants.h`, `sw.h`, `types.h`,
`transaction/types.h` and `token/types.h`.

Counters are natural numbers. Where the source increments or decrements a `uint8_t` the model wraps
with `u8`, unless a test just before excludes the wrap. A fixed array is a list of its full length, so a
stale slot keeps its old value; an index past the list is outside the array.
-/

namespace HathorApp

abbrev Bytes := List UInt8

/-- The value kept by a `uint8_t`. -/
def u8 (n : Nat) : Nat := n % 256

theorem u8_of_lt {n : Nat} (h : n < 256) : u8 n = n := Nat.mod_eq_of_lt h

/-- A sum that does not come to the end of the byte. -/
theorem u8_add_of_lt {n k : Nat} (h : u8 n + k < 256) : u8 (n + k) = u8 n + k := by
  unfold u8 at h ⊢
  omega

def cla : Nat := 0xE0
def b58AddressLen : Nat := 35
def txInputLen : Nat := 35
def pubkeyHashLen : Nat := 20
def secretLen : Nat := 32
/-- Max custom tokens allowed on a transaction. -/
def txMaxTokens : Nat := 10
/-- `TOKEN_DATA_AUTHORITY_MASK`: the first bit marks an authority output. -/
def tokenDataAuthorityMask : Nat := 0x80
/-- `TOKEN_DATA_INDEX_MASK`: 0 is HTR, any other value is one more than an index of the token table. -/
def tokenDataIndexMask : Nat := 0x7F
def tokenUidLen : Nat := 32
def maxTokenSymbolLen : Nat := 5
def maxTokenNameLen : Nat := 30
def maxDerivationIndex : Nat := 2 ^ 20
def maxBip32Path : Nat := 5
/-- Size of the decode buffer of `sign_tx_ctx_t`. -/
def decodeBufferLen : Nat := 300
/-- Size of the `outputs` array of `sign_tx_ctx_t`. -/
def outputSlots : Nat := 10
def rawPubkeyLen : Nat := 65
def fingerprintLen : Nat := 4
/-- `IO_APDU_BUFFER_SIZE` of the SDK: a five byte header and 255 bytes of data. -/
def ioApduBufferSize : Nat := 260

def swOk : Nat := 0x9000
def swDeny : Nat := 0x6985
def swWrongP1P2 : Nat := 0x6A86
def swWrongDataLength : Nat := 0x6A87
def swInsNotSupported : Nat := 0x6D00
def swClaNotSupported : Nat := 0x6E00
def swWrongResponseLength : Nat := 0xB000
def swTxParsingFail : Nat := 0xB005
def swBadState : Nat := 0xB007
def swSignatureFail : Nat := 0xB008
def swInvalidTx : Nat := 0xB009
def swInvalidSignature : Nat := 0xB00A
def swInternalError : Nat := 0xB00B

/-- `TX_STATE_ERR` and `TX_STATE_READY` of `tx_decoder_state_e`, thrown like status words. -/
def txStateErr : Nat := 1
def txStateReady : Nat := 2

/-- The levels of a `bip32_path_t`. The C record holds a length byte and a five slot array of which
only the slots below the length are read: the list is those. -/
abbrev Bip32Path := List Nat

/-- `tx_output_t`. -/
structure TxOutput where
  index : Nat
  value : Nat
  tokenData : Nat
  pubkeyHash : Bytes
  deriving DecidableEq, Repr

/-- The output of a zeroed slot. -/
def zeroOutput : TxOutput := ⟨0, 0, 0, List.replicate pubkeyHashLen 0⟩

/-- The token a `token_data` byte names: 0 is HTR. -/
def TxOutput.tokenIndex (o : TxOutput) : Nat := o.tokenData &&& tokenDataIndexMask

/-- `change_output_info_t`. -/
structure ChangeOutputInfo where
  index : Nat
  path : Bip32Path
  deriving DecidableEq, Repr

/-- `token_t`. -/
structure Token where
  uid : Bytes
  symbolLen : Nat
  symbol : Bytes
  nameLen : Nat
  name : Bytes
  version : Nat
  deriving DecidableEq, Repr

def zeroToken : Token := ⟨List.replicate tokenUidLen 0, 0, [], 0, [], 0⟩

/-- `token_symbol_t`: the symbol is its six byte array. -/
structure TokenSymbol where
  uid : Bytes
  symbol : Bytes
  deriving DecidableEq, Repr

def zeroTokenSymbol : TokenSymbol :=
  ⟨List.replicate tokenUidLen 0, List.replicate (maxTokenSymbolLen + 1) 0⟩

/-- `token_data_ctx_t`, the registry filled by `SEND_TOKEN_DATA`. -/
structure TokenDataCtx where
  len : Nat
  tokens : List TokenSymbol
  deriving DecidableEq, Repr

def zeroTokenDataCtx : TokenDataCtx := ⟨0, List.replicate txMaxTokens zeroTokenSymbol⟩

/-- `sign_tx_ctx_t`. `buffer` is the first `buffer_len` bytes of the decode buffer: the bytes past
them are overwritten before a decoder result depends on them. `sha256` is the SDK's hash context as
the bytes it has accumulated, `none` while zeroed. `tokens` holds the registry slots pointed to by the
first `tokens_len` pointers of the token table. -/
structure SignTxCtx where
  buffer : Bytes
  sha256 : Option Bytes
  sighashAll : Bytes
  changeLen : Nat
  changeInfo : List ChangeOutputInfo
  txVersion : Nat
  remainingTokens : Nat
  remainingInputs : Nat
  outputsLen : Nat
  currentOutput : Nat
  displayIndex : Nat
  confirmedOutputs : Nat
  bufferOutputLen : Nat
  outputs : List TxOutput
  tokens : List Nat
  deriving DecidableEq, Repr

def zeroSignTxCtx : SignTxCtx where
  buffer := []
  sha256 := none
  sighashAll := List.replicate 32 0
  changeLen := 0
  changeInfo := List.replicate (1 + txMaxTokens) ⟨0, []⟩
  txVersion := 0
  remainingTokens := 0
  remainingInputs := 0
  outputsLen := 0
  currentOutput := 0
  displayIndex := 0
  confirmedOutputs := 0
  bufferOutputLen := 0
  outputs := List.replicate outputSlots zeroOutput
  tokens := []

/-- The change entries in use. -/
def SignTxCtx.changes (tx : SignTxCtx) : List ChangeOutputInfo := tx.changeInfo.take tx.changeLen

/-- `xpub_ctx_t`, less its unused `key_path`. -/
structure XpubCtx where
  rawPublicKey : Bytes
  chainCode : Bytes
  fingerprint : Bytes
  deriving DecidableEq, Repr

def zeroXpubCtx : XpubCtx :=
  ⟨List.replicate rawPubkeyLen 0, List.replicate 32 0, List.replicate fingerprintLen 0⟩

/-- `state_e`. -/
inductive State where
  | none
  | recvData
  | parsed
  | approved
  deriving DecidableEq, Repr

/-- `request_type_e`. -/
inductive RequestType where
  | confirmAddress
  | confirmXpub
  | confirmTransaction
  deriving DecidableEq, Repr

/-- `global_ctx_t`. The two members of the C union are kept apart: every writer of either clears the
whole context first. -/
structure GlobalCtx where
  state : State
  pkInfo : XpubCtx
  txInfo : SignTxCtx
  reqType : RequestType
  bip32Path : Bip32Path
  token : Token
  deriving DecidableEq, Repr

def zeroGlobalCtx : GlobalCtx :=
  ⟨.none, zeroXpubCtx, zeroSignTxCtx, .confirmAddress, [], zeroToken⟩

/-- A screen flow with the texts its steps show. -/
inductive Screen where
  | menuMain
  | processing
  | confirmTx
  | txOutput (outputIndex address amount : Bytes)
  | xpub
  | address (address : Bytes)
  | resetTokenSignatures
  | signTokenData (symbol name uid : Bytes)
  deriving DecidableEq, Repr

/-- An event of a run: a reply handed to `io_send_response`, a flow put on screen, an output saved by
the decoder, a path handed to `derive_private_key`, a digest handed to ECDSA, or a return of
`app_main`, after which `main` starts it anew. -/
inductive Obs where
  | response (data : Bytes) (sw : Nat)
  | display (screen : Screen)
  | decoded (output : TxOutput)
  | derive (path : Bip32Path)
  | ecdsa (digest : Bytes)
  | restart
  deriving DecidableEq, Repr

end HathorApp
