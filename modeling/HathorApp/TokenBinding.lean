import HathorApp.CommandSpec

/-!
Which tokens a token signature is for. The message hashed is the secret, the uid, the symbol, the name
and the version, with no length between the symbol and the name. Two tokens share a message exactly when
they agree on everything but where the symbol ends.
-/

namespace HathorApp

open ProgramLogic

/-- `parse_token` accepts the token from some data. -/
def Token.Accepted (token : Token) : Prop :=
  ∃ data rest, parseToken (Buffer.ofData data) zeroToken = (true, token, rest)

theorem Token.Accepted.wellFormed {token : Token} (h : token.Accepted) : token.WellFormed := by
  obtain ⟨data, rest, hparse⟩ := h
  exact parseToken_wellFormed (Nat.le_refl _) hparse

/-- What a user approves: uid, symbol, name and version. -/
def SameToken (t₁ t₂ : Token) : Prop :=
  t₁.uid = t₂.uid ∧ t₁.symbol = t₂.symbol ∧ t₁.name = t₂.name ∧ t₁.version = t₂.version

instance (t₁ t₂ : Token) : Decidable (SameToken t₁ t₂) := by
  unfold SameToken
  infer_instance

/-- The tokens differ in where the symbol ends and the name begins, and in nothing else. -/
def CutApart (t₁ t₂ : Token) : Prop :=
  t₁.uid = t₂.uid ∧ t₁.version = t₂.version ∧ t₁.symbol ++ t₁.name = t₂.symbol ++ t₂.name ∧
    t₁.symbol ≠ t₂.symbol

instance (t₁ t₂ : Token) : Decidable (CutApart t₁ t₂) := by
  unfold CutApart
  infer_instance

section Messages

variable {t₁ t₂ : Token}

theorem ofNat_version_injective (h₁ : t₁.version < 256) (h₂ : t₂.version < 256)
    (h : UInt8.ofNat t₁.version = UInt8.ofNat t₂.version) : t₁.version = t₂.version := by
  have hnat := congrArg UInt8.toNat h
  simp only [UInt8.toNat_ofNat'] at hnat
  omega

/-- The fields of fixed length can be told from the message, the others only together. -/
theorem message_eq_iff (secret : Bytes) (h₁ : t₁.WellFormed) (h₂ : t₂.WellFormed) :
    initTokenSignatureMessage secret t₁ = initTokenSignatureMessage secret t₂ ↔
      t₁.uid = t₂.uid ∧ t₁.symbol ++ t₁.name = t₂.symbol ++ t₂.name ∧ t₁.version = t₂.version := by
  rw [h₁.message, h₂.message]
  simp only [List.append_assoc, List.append_cancel_left_eq]
  constructor
  · intro h
    have huid : t₁.uid.length = t₂.uid.length := h₁.uid.trans h₂.uid.symm
    obtain ⟨huid, hrest⟩ := List.append_inj h huid
    rw [← List.append_assoc, ← List.append_assoc] at hrest
    obtain ⟨htexts, hversion⟩ := List.append_inj' hrest rfl
    exact ⟨huid, htexts, ofNat_version_injective h₁.version h₂.version (List.head_eq_of_cons_eq hversion)⟩
  · rintro ⟨huid, htexts, hversion⟩
    rw [huid, hversion, ← List.append_assoc t₁.symbol, htexts, List.append_assoc]

theorem cutApart_of_message_eq {secret : Bytes} (h₁ : t₁.WellFormed) (h₂ : t₂.WellFormed)
    (h : initTokenSignatureMessage secret t₁ = initTokenSignatureMessage secret t₂) (hdiffer : ¬SameToken t₁ t₂) :
    CutApart t₁ t₂ := by
  obtain ⟨huid, htexts, hversion⟩ := (message_eq_iff secret h₁ h₂).mp h
  refine ⟨huid, hversion, htexts, fun hsymbol => hdiffer ⟨huid, hsymbol, ?_, hversion⟩⟩
  rw [hsymbol] at htexts
  exact List.append_cancel_left htexts

end Messages

section Commands

variable (pf : Platform) (o : Outcome)

theorem handlerVerifyTokenSignature_ok (cdata : Buffer) (d : Device) :
    wp (handlerVerifyTokenSignature pf o cdata)
      (fun _ _ w => Obs.response [] swOk ∈ w → ∃ token, TokenAccepted pf (secretFor o d) cdata token)
      (fun _ _ _ => False) False d := by
  unfold handlerVerifyTokenSignature
  rw [wp_bind, wp_modify, wp_bind]
  refine wp_mono (checkTokenSignatureFromApdu_spec pf o cdata d.bzeroContext) ?_ (fun _ _ _ h => h) id
  intro r d' w ⟨_, hw, hverified, _⟩
  rw [hw, wp_ite]
  refine ⟨fun h => ?_, fun _ => ?_⟩
  · rw [wp_ioSendSw]
    exact fun _ => hverified.mp h
  · unfold replyTokenCheck
    rw [wp_ite]
    refine ⟨fun _ => ?_, fun _ => ?_⟩
    · rw [wp_ioSendSw]
      simp [swOk, swInvalidSignature]
    · rw [wp_ioSendSw]
      simp [swOk, swInternalError]

theorem handlerSendTokenData_ok (first : Bool) (data : Bytes) (d : Device) :
    wp (handlerSendTokenData pf o first (Buffer.ofData data))
      (fun _ _ w => Obs.response [] swOk ∈ w → ∃ token, TokenAccepted pf (secretFor o d) (Buffer.ofData data) token)
      (fun _ _ _ => False) False d := by
  refine wp_mono (handlerSendTokenData_spec pf o first data d) ?_ (fun _ _ _ h => h) id
  intro _ d' w hregisters hok
  cases hregisters with
  | emptied => simp [swOk, swWrongDataLength] at hok
  | kept notOk =>
      simp only [List.mem_singleton, Obs.response.injEq, true_and] at hok
      exact absurd hok.symm notOk
  | added _ accepted => exact ⟨_, accepted⟩

/-- The data of a token command: a token and a signature. -/
def Carries (data : Bytes) (token : Token) (signature : Bytes) : Prop :=
  ∃ rest rest', parseToken (Buffer.ofData data) zeroToken = (true, token, rest) ∧
    bufferReadBytes rest 32 32 = some (signature, rest')

/-- The signature made for one token does not pass for another, in neither of the commands that check
one. -/
def SignatureRefused (secret : Bytes) (t₁ t₂ : Token) : Prop :=
  ∀ o d data, secretFor o d = secret → Carries data t₂ (signToken pf secret t₁) →
    wp (handlerVerifyTokenSignature pf o (Buffer.ofData data)) (fun _ _ w => Obs.response [] swOk ∉ w)
      (fun _ _ _ => False) False d ∧
    ∀ first, wp (handlerSendTokenData pf o first (Buffer.ofData data)) (fun _ _ w => Obs.response [] swOk ∉ w)
      (fun _ _ _ => False) False d

theorem signature_of_accepted {secret data signature : Bytes} {token token' : Token}
    (hcarries : Carries data token signature) (haccepted : TokenAccepted pf secret (Buffer.ofData data) token') :
    signature = signToken pf secret token := by
  obtain ⟨rest, rest', hparse, hread⟩ := hcarries
  obtain ⟨rest₁, signature₁, rest₂, hparse₁, hread₁, hverify⟩ := haccepted
  rw [hparse] at hparse₁
  cases hparse₁
  rw [hread] at hread₁
  cases hread₁
  exact (verifyTokenSignature_eq_zero pf secret token signature).mp hverify

theorem signatureRefused_of_ne {secret : Bytes} {t₁ t₂ : Token}
    (hdiffer : signToken pf secret t₁ ≠ signToken pf secret t₂) : SignatureRefused pf secret t₁ t₂ := by
  intro o d data hsecret hcarries
  have hnever : ∀ {w : List Obs}, (Obs.response [] swOk ∈ w →
      ∃ token, TokenAccepted pf (secretFor o d) (Buffer.ofData data) token) → Obs.response [] swOk ∉ w := by
    intro w hok hmem
    obtain ⟨token, haccepted⟩ := hok hmem
    rw [hsecret] at haccepted
    exact hdiffer (signature_of_accepted pf hcarries haccepted)
  refine ⟨?_, fun first => ?_⟩
  · exact wp_mono (handlerVerifyTokenSignature_ok pf o _ d) (fun _ _ _ h => hnever h) (fun _ _ _ h => h) id
  · exact wp_mono (handlerSendTokenData_ok pf o first data d) (fun _ _ _ h => hnever h) (fun _ _ _ h => h) id

end Commands

/-- A signature for one token binds it against another: their messages differ unless they are the same
token, and where SHA-256 has no collision between the messages the signature is refused for the other. -/
def BindsAgainst (secret : Bytes) (t₁ t₂ : Token) : Prop :=
  (initTokenSignatureMessage secret t₁ = initTokenSignatureMessage secret t₂ → SameToken t₁ t₂) ∧
    ∀ pf : Platform,
      (pf.sha256 (initTokenSignatureMessage secret t₁) = pf.sha256 (initTokenSignatureMessage secret t₂) →
        initTokenSignatureMessage secret t₁ = initTokenSignatureMessage secret t₂) →
      ¬SameToken t₁ t₂ → SignatureRefused pf secret t₁ t₂

/-- A signature for an accepted token binds it against another one exactly when they do not differ just in
where the symbol ends. -/
theorem bindsAgainst_iff (secret : Bytes) {t₁ t₂ : Token} (h₁ : t₁.Accepted) (h₂ : t₂.Accepted) :
    BindsAgainst secret t₁ t₂ ↔ ¬CutApart t₁ t₂ := by
  have hwf₁ := h₁.wellFormed
  have hwf₂ := h₂.wellFormed
  constructor
  · rintro ⟨hmessage, _⟩ ⟨huid, hversion, htexts, hsymbol⟩
    have heq := (message_eq_iff secret hwf₁ hwf₂).mpr ⟨huid, htexts, hversion⟩
    exact hsymbol (hmessage heq).2.1
  · intro hnot
    refine ⟨fun heq => ?_, fun pf hcollision hdiffer => ?_⟩
    · by_contra hdiffer
      exact hnot (cutApart_of_message_eq hwf₁ hwf₂ heq hdiffer)
    · refine signatureRefused_of_ne pf fun hsign => ?_
      exact hnot (cutApart_of_message_eq hwf₁ hwf₂ (hcollision hsign) hdiffer)

/-- A token of uid zero and version 1. -/
def tokenOf (symbol name : Bytes) : Token :=
  ⟨List.replicate tokenUidLen 0, symbol.length, symbol, name.length, name, 1⟩

/-- The data a token is parsed from. -/
def tokenData (symbol name : Bytes) : Bytes :=
  1 :: (List.replicate tokenUidLen 0 ++ [UInt8.ofNat symbol.length] ++ symbol ++ [UInt8.ofNat name.length] ++ name)

/-- `AB` named `C` against `AB` named `D`. -/
theorem bindsAgainst_iff_names :
    BindsAgainst (List.replicate 32 1) (tokenOf [65, 66] [67]) (tokenOf [65, 66] [68]) ↔
      ¬CutApart (tokenOf [65, 66] [67]) (tokenOf [65, 66] [68]) :=
  bindsAgainst_iff (List.replicate 32 1) ⟨tokenData [65, 66] [67], _, rfl⟩ ⟨tokenData [65, 66] [68], _, rfl⟩

/-- `AB` named `C` and `A` named `BC` have one message, so the signature for one passes for the other
whatever the hash. -/
theorem signature_passes_shifted :
    (tokenOf [65, 66] [67]).Accepted ∧ (tokenOf [65] [66, 67]).Accepted ∧
      initTokenSignatureMessage (List.replicate 32 1) (tokenOf [65, 66] [67]) =
        initTokenSignatureMessage (List.replicate 32 1) (tokenOf [65] [66, 67]) ∧
      ¬SameToken (tokenOf [65, 66] [67]) (tokenOf [65] [66, 67]) ∧
      ∀ pf : Platform, verifyTokenSignature pf (List.replicate 32 1) (tokenOf [65] [66, 67])
        (signToken pf (List.replicate 32 1) (tokenOf [65, 66] [67])) = 0 := by
  refine ⟨⟨tokenData [65, 66] [67], _, rfl⟩, ⟨tokenData [65] [66, 67], _, rfl⟩, by decide, by decide, fun pf => ?_⟩
  rw [verifyTokenSignature_eq_zero]
  rfl

end HathorApp
