import HathorApp.Token

/-! What `parse_token` accepts: fields of fixed length, a symbol and a name of at most their maximal
lengths, each as long as its length byte says. -/

namespace HathorApp

theorem bufferReadBytes_some {buffer rest : Buffer} {outLen len : Nat} {out : Bytes}
    (h : bufferReadBytes buffer outLen len = some (out, rest)) :
    out = (buffer.ptr.drop buffer.offset).take len ∧ len ≤ outLen ∧ len ≤ buffer.size - buffer.offset ∧
      rest.ptr = buffer.ptr ∧ rest.size = buffer.size ∧ (rest.offset = buffer.offset ∨ rest.offset = buffer.offset + len) := by
  unfold bufferReadBytes bufferSeekCur at h
  split at h
  · cases h
  · rename_i hfits
    rw [not_or, Nat.not_lt, Nat.not_lt] at hfits
    split at h
    · cases h
      exact ⟨rfl, hfits.2, hfits.1, rfl, rfl, Or.inl rfl⟩
    · cases h
      exact ⟨rfl, hfits.2, hfits.1, rfl, rfl, Or.inr rfl⟩

theorem bufferReadU8_true {buffer rest : Buffer} {value : Nat} (h : bufferReadU8 buffer = (true, value, rest)) :
    value < 256 ∧ rest.ptr = buffer.ptr ∧ rest.size = buffer.size := by
  unfold bufferReadU8 bufferSeekCur at h
  split at h
  · cases h
  · split at h
    · cases h
      exact ⟨byteAt_lt _ _, rfl, rfl⟩
    · cases h
      exact ⟨byteAt_lt _ _, rfl, rfl⟩

/-- The shape of a token that was parsed: its text fields are as long as their length bytes say. -/
structure Token.WellFormed (token : Token) : Prop where
  uid : token.uid.length = tokenUidLen
  symbol : token.symbol.length = token.symbolLen
  symbolLen : token.symbolLen ≤ maxTokenSymbolLen
  name : token.name.length = token.nameLen
  nameLen : token.nameLen ≤ maxTokenNameLen
  version : token.version < 256

/-- The bytes read from a buffer that lies within its array. -/
theorem bufferReadBytes_length {buffer rest : Buffer} {outLen len : Nat} {out : Bytes}
    (hsize : buffer.size ≤ buffer.ptr.length) (h : bufferReadBytes buffer outLen len = some (out, rest)) :
    out.length = len ∧ len ≤ outLen ∧ rest.size ≤ rest.ptr.length := by
  obtain ⟨rfl, hout, hlen, hptr, hsize', _⟩ := bufferReadBytes_some h
  refine ⟨?_, hout, ?_⟩
  · rw [List.length_take, List.length_drop]
    omega
  · rwa [hptr, hsize']

theorem parseToken_wellFormed {buf rest : Buffer} {token₀ token : Token} (hsize : buf.size ≤ buf.ptr.length)
    (h : parseToken buf token₀ = (true, token, rest)) : token.WellFormed := by
  unfold parseToken at h
  split at h
  · cases h
  · rename_i version buf₁ hversion
    obtain ⟨hv, hptr, hsz⟩ := bufferReadU8_true hversion
    have hsize₁ : buf₁.size ≤ buf₁.ptr.length := by rwa [hptr, hsz]
    dsimp only at h
    split at h
    · cases h
    · rename_i uid buf₂ huid
      obtain ⟨huidLen, _, hsize₂⟩ := bufferReadBytes_length hsize₁ huid
      split at h
      · cases h
      · rename_i n buf₃ hn
        obtain ⟨_, hptr, hsz⟩ := bufferReadU8_true hn
        have hsize₃ : buf₃.size ≤ buf₃.ptr.length := by rwa [hptr, hsz]
        split at h
        · cases h
        · rename_i symbol buf₄ hsymbol
          obtain ⟨hsymbolLen, hsymbolMax, hsize₄⟩ := bufferReadBytes_length hsize₃ hsymbol
          split at h
          · cases h
          · rename_i k buf₅ hk
            obtain ⟨_, hptr, hsz⟩ := bufferReadU8_true hk
            have hsize₅ : buf₅.size ≤ buf₅.ptr.length := by rwa [hptr, hsz]
            split at h
            · cases h
            · rename_i name buf₆ hname
              obtain ⟨hnameLen, hnameMax, _⟩ := bufferReadBytes_length hsize₅ hname
              simp only [Prod.mk.injEq] at h
              obtain ⟨_, rfl, _⟩ := h
              exact ⟨huidLen, hsymbolLen, hsymbolMax, hnameLen, hnameMax, hv⟩

/-- The message of a well-formed token is the secret and its fields, one after the other. -/
theorem Token.WellFormed.message {token : Token} (h : token.WellFormed) (secret : Bytes) :
    initTokenSignatureMessage secret token =
      secret ++ token.uid ++ token.symbol ++ token.name ++ [UInt8.ofNat token.version] := by
  unfold initTokenSignatureMessage
  rw [← h.symbol, ← h.name, List.take_length, List.take_length]

theorem verifyTokenSignature_eq_zero (pf : Platform) (secret : Bytes) (token : Token) (signature : Bytes) :
    verifyTokenSignature pf secret token signature = 0 ↔ signature = signToken pf secret token := by
  unfold verifyTokenSignature
  split
  · rename_i h
    exact ⟨fun _ => h, fun _ => rfl⟩
  · rename_i h
    exact ⟨fun h' => absurd h' (by decide), fun h' => absurd h' h⟩

end HathorApp
