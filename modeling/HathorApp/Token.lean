import HathorApp.Buffer
import HathorApp.Platform

/-! Parsing and signing token data: `token/token_parser.c` and the pure part of `token/signature.c`. -/

namespace HathorApp

/-- `is_printable` on the first `len` characters; a NUL ends the test early. -/
def isPrintable : Bytes → Bool
  | [] => true
  | c :: rest => if c = 0 then true else if c < 0x20 ∨ c ≥ 0x80 then false else isPrintable rest

/-- `parse_token`: a refused token keeps the fields read before the refusal. -/
def parseToken (buf : Buffer) (token : Token) : Bool × Token × Buffer :=
  match bufferReadU8 buf with
  | (false, v, buf) => (false, { token with version := v }, buf)
  | (true, v, buf) =>
    let token := { token with version := v }
    match bufferReadBytes buf tokenUidLen tokenUidLen with
    | none => (false, token, buf)
    | some (uid, buf) =>
      let token := { token with uid := uid }
      match bufferReadU8 buf with
      | (false, n, buf) => (false, { token with symbolLen := n }, buf)
      | (true, n, buf) =>
        let token := { token with symbolLen := n }
        match bufferReadBytes buf maxTokenSymbolLen n with
        | none => (false, token, buf)
        | some (symbol, buf) =>
          let token := { token with symbol := symbol }
          match bufferReadU8 buf with
          | (false, n, buf) => (false, { token with nameLen := n }, buf)
          | (true, n, buf) =>
            let token := { token with nameLen := n }
            match bufferReadBytes buf maxTokenNameLen n with
            | none => (false, token, buf)
            | some (name, buf) =>
              let token := { token with name := name }
              (isPrintable token.symbol && isPrintable token.name, token, buf)

/-- `init_token_signature_message`: secret, uid, symbol, name and version, one after the other. -/
def initTokenSignatureMessage (secret : Bytes) (token : Token) : Bytes :=
  secret ++ token.uid ++ token.symbol.take token.symbolLen ++ token.name.take token.nameLen ++
    [UInt8.ofNat token.version]

/-- `sign_token`. Its message buffer is `MAX_MESSAGE_LEN` bytes long, which is what the message of a
parsed token needs at most. -/
def signToken (pf : Platform) (secret : Bytes) (token : Token) : Bytes :=
  pf.sha256 (initTokenSignatureMessage secret token)

/-- `verify_token_signature`: 0 for a valid signature, 1 for any other. -/
def verifyTokenSignature (pf : Platform) (secret : Bytes) (token : Token) (signature : Bytes) : Nat :=
  if signature = signToken pf secret token then 0 else 1

end HathorApp
