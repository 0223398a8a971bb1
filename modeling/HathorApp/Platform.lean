import HathorApp.Types

/-!
What the application is built on: the version byte the Makefile sets and the primitives of the SDK.
The primitives are functions of their arguments; whether a call works is left open, and each event of
a run chooses it anew through its `Outcome`. The address functions of `hathor.c` are built from them.
-/

namespace HathorApp

/-- The build constant and the primitives of the SDK, with the output lengths they document. -/
structure Platform where
  /-- `P2PKH_VERSION_BYTE`. -/
  p2pkhVersionByte : UInt8
  sha256 : Bytes → Bytes
  sha256_length : ∀ m, (sha256 m).length = 32
  ripemd160 : Bytes → Bytes
  ripemd160_length : ∀ m, (ripemd160 m).length = 20
  /-- The private key and the chain code `os_derive_bip32_with_seed_no_throw` derives. -/
  deriveBip32 : Bip32Path → Bytes × Bytes
  /-- The public key of a private key, in the uncompressed form of `W`. -/
  generatePair : Bytes → Bytes
  generatePair_length : ∀ key, (generatePair key).length = rawPubkeyLen
  ecdsaSign : Bytes → Bytes → Bytes

/-- A call of an SDK primitive that can fail. -/
inductive SdkCall where
  | deriveBip32 (path : Bip32Path)
  | initPrivateKey (raw : Bytes)
  | generatePair (key : Bytes)
  | hash (message : Bytes)
  | ripemd160 (message : Bytes)
  | ecdsaSign (key digest : Bytes)
  deriving DecidableEq, Repr

/-- What the SDK does during one event: the calls that work, the error code thrown for a failing
hash call, and the bytes of the random generator. -/
structure Outcome where
  ok : SdkCall → Bool
  hashError : Nat
  rng : Bytes

/-- Every call works. -/
def Outcome.allOk (rng : Bytes) : Outcome := ⟨fun _ => true, 0, rng⟩

/-- A platform to run the code on: a hash is its last byte, one more than the last byte of the
message. -/
def countingPlatform : Platform where
  p2pkhVersionByte := 0x28
  sha256 m := List.replicate 31 0 ++ [m.getLastD 0 + 1]
  sha256_length _ := rfl
  ripemd160 m := List.replicate 19 0 ++ [m.getLastD 0 + 1]
  ripemd160_length _ := rfl
  deriveBip32 _ := (List.replicate 32 0, List.replicate 32 0)
  generatePair _ := List.replicate rawPubkeyLen 0
  generatePair_length _ := rfl
  ecdsaSign _ digest := digest

variable (pf : Platform) (o : Outcome)

/-- One hash call over a whole message. -/
def cxHashSha256 (message : Bytes) : Option Bytes :=
  if o.ok (.hash message) then some (pf.sha256 message) else none

def cxHashRipemd160 (message : Bytes) : Option Bytes :=
  if o.ok (.ripemd160 message) then some (pf.ripemd160 message) else none

/-- `cx_hash_no_throw` on the session's context: the context after it, whose bytes the digest is
taken of when `CX_LAST` is set. A zeroed context names no hash algorithm and is refused. -/
def cxHashNoThrow (ctx : Option Bytes) (data : Bytes) : Option Bytes :=
  match ctx with
  | none => none
  | some m => if o.ok (.hash (m ++ data)) then some (m ++ data) else none

/-! ### `hathor.c` -/

def sha256d (input : Bytes) : Option Bytes :=
  match cxHashSha256 pf o input with
  | none => none
  | some buffer => cxHashSha256 pf o buffer

def hash160 (input : Bytes) : Option Bytes :=
  match cxHashSha256 pf o input with
  | none => none
  | some buffer => cxHashRipemd160 pf o buffer

/-- The uncompressed key with its first byte replaced by the parity of `y`. -/
def compressPublicKey (value : Bytes) : Bytes :=
  value.set 0 (if (value.getD 64 0).toNat &&& 1 = 1 then 0x03 else 0x02)

/-- Version byte, public key hash and the first four bytes of the double hash of both. -/
def addressFromPubkeyHash (publicKeyHash : Bytes) : Option Bytes :=
  let out := pf.p2pkhVersionByte :: publicKeyHash.take pubkeyHashLen
  match sha256d pf o out with
  | none => none
  | some buffer => some (out ++ buffer.take 4)

def addressFromPubkey (w : Bytes) : Option Bytes :=
  match hash160 pf o ((compressPublicKey w).take 33) with
  | none => none
  | some buffer => addressFromPubkeyHash pf o buffer

def derivePrivateKey (path : Bip32Path) : Option (Bytes × Bytes) :=
  if o.ok (.deriveBip32 path) then
    let (raw, chainCode) := pf.deriveBip32 path
    if o.ok (.initPrivateKey raw) then some (raw, chainCode) else none
  else none

def initPublicKey (privateKey : Bytes) : Option Bytes :=
  if o.ok (.generatePair privateKey) then some (pf.generatePair privateKey) else none

/-- The public key hash of the key at a path. -/
def pubkeyHashOf (path : Bip32Path) : Option Bytes :=
  match derivePrivateKey pf o path with
  | none => none
  | some (privateKey, _) =>
    match initPublicKey pf o privateKey with
    | none => none
    | some w => hash160 pf o ((compressPublicKey w).take 33)

/-- `verify_change` of `handler/sign_tx.c`: whether the output pays to the key at the change path;
`none` is its `THROW(SW_INTERNAL_ERROR)` when an SDK call fails. -/
def verifyChange (info : ChangeOutputInfo) (output : TxOutput) : Option Bool :=
  match pubkeyHashOf pf o info.path with
  | none => none
  | some hash => some (decide (hash = output.pubkeyHash))

end HathorApp
