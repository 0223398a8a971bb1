import HathorApp.Base58
import HathorApp.SignTxSpec

/-!
Change verification against the address screens. An output passes as change to a path when its public key
hash is that of the key at the path; the screens show addresses. An address is the hash between a version
byte and a checksum, in base 58, which loses nothing: a version byte that is not zero leaves no leading
zeros, and the text is at most one character shorter than its array.
-/

namespace HathorApp

open ProgramLogic PositionalNumeral

theorem base58Alphabet_injective : ∀ d < 58, ∀ d' < 58,
    base58Alphabet.getD d 0 = base58Alphabet.getD d' 0 → d = d' := by
  have hnodup : base58Alphabet.Nodup := by decide +kernel
  have hlength : base58Alphabet.length = 58 := rfl
  intro d hd d' hd' hsame
  rw [← hlength] at hd hd'
  rw [List.getD_eq_getElem _ _ hd, List.getD_eq_getElem _ _ hd'] at hsame
  exact hnodup.getElem_inj_iff.mp hsame

theorem base58Text_injective {l l' : List Nat} (hl : ∀ d ∈ l, d < 58) (hl' : ∀ d ∈ l', d < 58)
    (h : base58Text l = base58Text l') : l = l' := by
  induction l generalizing l' with
  | nil =>
      cases l' with
      | nil => rfl
      | cons d' l' => cases h
  | cons d l ih =>
      cases l' with
      | nil => cases h
      | cons d' l' =>
          rw [List.forall_mem_cons] at hl hl'
          rw [base58Text, base58Text, List.map_cons, List.map_cons, List.cons.injEq] at h
          rw [base58Alphabet_injective d hl.1 d' hl'.1 h.1, ih hl.2 hl'.2 h.2]

theorem zero_not_mem_base58Text {l : List Nat} (hl : ∀ d ∈ l, d < 58) : 0 ∉ base58Text l := by
  have hchar : ∀ d < 58, base58Alphabet.getD d 0 ≠ 0 := by decide +kernel
  intro hmem
  rcases List.mem_map.mp hmem with ⟨d, hd, hzero⟩
  exact hchar d (hl d hd) hzero

theorem byteValue_injective {l l' : Bytes} (hlen : l.length = l'.length) (h : byteValue l = byteValue l') : l = l' := by
  have hbytes : ∀ l : Bytes, ∀ d ∈ l.map UInt8.toNat, d < 256 := by
    intro l d hd
    rcases List.mem_map.mp hd with ⟨c, _, rfl⟩
    exact c.toNat_lt
  have hlen' : (l.map UInt8.toNat).length = (l'.map UInt8.toNat).length := by
    rw [List.length_map, List.length_map, hlen]
  have hmap := value_injective (by decide) hlen' (hbytes l) (hbytes l') h
  exact List.map_injective_iff.mpr (fun _ _ => UInt8.toNat_inj.mp) hmap

section Address

variable {pf : Platform} {hash hash' : Bytes}

/-- The version byte is one of the two the Makefile sets. -/
def Platform.HathorVersion (pf : Platform) : Prop := pf.p2pkhVersionByte = 0x28 ∨ pf.p2pkhVersionByte = 0x49

theorem addressOf_eq (pf : Platform) (hlen : hash.length = pubkeyHashLen) :
    ∃ checksum, addressOf pf hash = pf.p2pkhVersionByte :: (hash ++ checksum) ∧ checksum.length = 4 := by
  have htake : hash.take pubkeyHashLen = hash := List.take_of_length_le (Nat.le_of_eq hlen)
  unfold addressOf
  rw [htake]
  refine ⟨_, rfl, ?_⟩
  rw [List.length_take, pf.sha256_length]
  rfl

/-- The text of an address is its base 58 numeral, of at most 34 digits. -/
theorem addressText_addressOf (hversion : pf.HathorVersion) (hlen : hash.length = pubkeyHashLen) :
    addressText (addressOf pf hash) = base58Text (Nat.digits 58 (byteValue (addressOf pf hash))).reverse ∧
      byteValue (addressOf pf hash) ≠ 0 ∧ (Nat.digits 58 (byteValue (addressOf pf hash))).length ≤ 34 := by
  rcases addressOf_eq pf hlen with ⟨checksum, haddress, hchecksum⟩
  have hpubkey : pubkeyHashLen = 20 := rfl
  have hrest : (hash ++ checksum).length = 24 := by rw [List.length_append, hlen, hchecksum, hpubkey]
  have hbyte : 40 ≤ pf.p2pkhVersionByte.toNat ∧ pf.p2pkhVersionByte.toNat ≤ 73 := by
    rcases hversion with h | h <;> rw [h] <;> decide
  have hbound := byteValue_lt (hash ++ checksum)
  rw [hrest] at hbound
  have hvalue : byteValue (addressOf pf hash) = pf.p2pkhVersionByte.toNat * 256 ^ 24 + byteValue (hash ++ checksum) := by
    rw [haddress, byteValue_cons, hrest]
  have hdigits : (Nat.digits 58 (byteValue (addressOf pf hash))).length ≤ 34 := by
    apply (Nat.digits_length_le_iff (by decide) _).mpr
    calc
      byteValue (addressOf pf hash) < 73 * 256 ^ 24 + 256 ^ 24 := by
        rw [hvalue]
        exact Nat.add_lt_add_of_le_of_lt (Nat.mul_le_mul_right _ hbyte.2) hbound
      _ ≤ 58 ^ 34 := by decide
  have hzeros : (addressOf pf hash).takeWhile (· = 0) = [] := by
    rw [haddress, List.takeWhile_cons_of_neg]
    rcases hversion with h | h <;> rw [h] <;> decide
  have hsize : (addressOf pf hash).length ≤ maxEncInputSize := by
    rw [haddress, List.length_cons, hrest]
    decide
  refine ⟨?_, ?_, hdigits⟩
  · have hfits : ¬b58AddressLen < 0 + (Nat.digits 58 (byteValue (addressOf pf hash))).length := by
      have hb58 : b58AddressLen = 35 := rfl
      omega
    unfold addressText
    rw [base58Encode_eq hsize, hzeros, List.length_nil, if_neg hfits]
    rfl
  · have hpositive : 0 < pf.p2pkhVersionByte.toNat * 256 ^ 24 := Nat.mul_pos (by omega) (by decide)
    omega

theorem digits_reverse_lt (n : Nat) : ∀ d ∈ (Nat.digits 58 n).reverse, d < 58 :=
  fun _ hd => Nat.digits_lt_base (by decide) (List.mem_reverse.mp hd)

/-- An address text is not empty, and leaves room for its NUL. -/
theorem addressText_fits (hversion : pf.HathorVersion) (hlen : hash.length = pubkeyHashLen) :
    addressText (addressOf pf hash) ≠ [] ∧ (addressText (addressOf pf hash)).length < b58AddressLen ∧
      0 ∉ addressText (addressOf pf hash) := by
  obtain ⟨htext, hne, hdigits⟩ := addressText_addressOf hversion hlen
  rw [htext]
  refine ⟨fun hnil => ?_, ?_, zero_not_mem_base58Text (digits_reverse_lt _)⟩
  · rw [base58Text, List.map_eq_nil_iff, List.reverse_eq_nil_iff] at hnil
    exact hne (Nat.digits_eq_nil_iff_eq_zero.mp hnil)
  · rw [base58Text, List.length_map, List.length_reverse]
    exact Nat.lt_of_le_of_lt hdigits (by decide)

/-- Different hashes have different texts. -/
theorem addressText_injective (hversion : pf.HathorVersion) (hlen : hash.length = pubkeyHashLen)
    (hlen' : hash'.length = pubkeyHashLen)
    (h : addressText (addressOf pf hash) = addressText (addressOf pf hash')) : hash = hash' := by
  rw [(addressText_addressOf hversion hlen).1, (addressText_addressOf hversion hlen').1] at h
  have hdigits := base58Text_injective (digits_reverse_lt _) (digits_reverse_lt _) h
  have hvalue : byteValue (addressOf pf hash) = byteValue (addressOf pf hash') :=
    Nat.digits_inj_iff.mp (List.reverse_inj.mp hdigits)
  rcases addressOf_eq pf hlen with ⟨checksum, haddress, hchecksum⟩
  rcases addressOf_eq pf hlen' with ⟨checksum', haddress', hchecksum'⟩
  have hlength : (addressOf pf hash).length = (addressOf pf hash').length := by
    rw [haddress, haddress', List.length_cons, List.length_cons, List.length_append, List.length_append, hlen, hlen',
      hchecksum, hchecksum']
  have hsame := byteValue_injective hlength hvalue
  rw [haddress, haddress', List.cons.injEq] at hsame
  exact (List.append_inj hsame.2 (hlen.trans hlen'.symm)).1

end Address

section Screens

variable (pf : Platform) {o : Outcome}

/-- The public key hash of the key at a path. -/
def pathHash (path : Bip32Path) : Bytes :=
  pf.ripemd160 (pf.sha256 ((compressPublicKey (pf.generatePair (pf.deriveBip32 path).1)).take 33))

theorem hash160_some {input hash : Bytes} (h : hash160 pf o input = some hash) :
    hash = pf.ripemd160 (pf.sha256 input) := by
  unfold hash160 cxHashSha256 cxHashRipemd160 at h
  split at h
  · cases h
  · rename_i first hfirst
    rw [Option.ite_none_right_eq_some, Option.some.injEq] at hfirst h
    rw [← h.2, ← hfirst.2]

theorem derivePrivateKey_some {path : Bip32Path} {key : Bytes × Bytes} (h : derivePrivateKey pf o path = some key) :
    key.1 = (pf.deriveBip32 path).1 := by
  unfold derivePrivateKey at h
  rw [Option.ite_none_right_eq_some] at h
  obtain ⟨_, h⟩ := h
  dsimp only at h
  rw [Option.ite_none_right_eq_some, Option.some.injEq] at h
  rw [← h.2]

theorem initPublicKey_some {privateKey w : Bytes} (h : initPublicKey pf o privateKey = some w) :
    w = pf.generatePair privateKey := by
  unfold initPublicKey at h
  rw [Option.ite_none_right_eq_some, Option.some.injEq] at h
  exact h.2.symm

theorem pubkeyHashOf_some {path : Bip32Path} {hash : Bytes} (h : pubkeyHashOf pf o path = some hash) :
    hash = pathHash pf path := by
  unfold pubkeyHashOf at h
  split at h
  · cases h
  · rename_i key _ hkey
    split at h
    · cases h
    · rename_i w hw
      have hraw : key = (pf.deriveBip32 path).1 := derivePrivateKey_some pf hkey
      rw [hash160_some pf h, initPublicKey_some pf hw, hraw]
      rfl

/-- An output is accepted as change to a path when it pays to the key there. -/
theorem verifyChange_some {info : ChangeOutputInfo} {output : TxOutput} {accepted : Bool}
    (h : verifyChange pf o info output = some accepted) :
    accepted = true ↔ pathHash pf info.path = output.pubkeyHash := by
  unfold verifyChange at h
  split at h
  · cases h
  · rename_i hash hhash
    rw [Option.some.injEq] at h
    rw [← h, decide_eq_true_iff, pubkeyHashOf_some pf hhash]

/-- The screen of GET_ADDRESS shows the address of the path in the context. -/
theorem uiDisplayConfirmAddress_shows (o : Outcome) (d : Device) :
    wp (uiDisplayConfirmAddress pf o)
      (fun _ _ w => ∀ text, Obs.display (.address text) ∈ w →
        text = addressText (addressOf pf (pathHash pf d.gContext.bip32Path)))
      (fun _ _ _ => False) False d := by
  unfold uiDisplayConfirmAddress
  rw [wp_bind, wp_get, wp_ite]
  refine ⟨fun _ => ?_, fun _ => ?_⟩
  · simp [wp_bind, wp_modify, wp_ioSendSw]
  · simp only [wp_bind, wp_modify, wp_emit]
    split
    · simp [wp_bind, wp_bzeroAndReply]
    · rename_i address haddress
      obtain ⟨⟨key, chainCode⟩, hkey, haddress⟩ := Option.bind_eq_some_iff.mp haddress
      obtain ⟨w, hw, haddress⟩ := Option.bind_eq_some_iff.mp haddress
      unfold addressFromPubkey at haddress
      split at haddress
      · cases haddress
      · rename_i hash hhash
        have hpath : hash = pathHash pf d.gContext.bip32Path := by
          have hraw : key = (pf.deriveBip32 d.gContext.bip32Path).1 := derivePrivateKey_some pf hkey
          rw [hash160_some pf hhash, initPublicKey_some pf hw, hraw]
          rfl
        simp only [wp_bind, wp_modify, wp_askUser, wp_pure]
        intro text htext
        simp only [List.nil_append, List.append_nil, List.mem_append, List.mem_singleton, reduceCtorEq, false_or,
          Device.screen, Obs.display.injEq, Screen.address.injEq] at htext
        rw [htext, addressFromPubkeyHash_some pf haddress, hpath]

/-- The display of a transaction shows an output with its address. -/
def ShowsOutput (output : TxOutput) (text : Bytes) : Prop :=
  ∃ o d ret d' w index amount, uiDisplayTxOutputs pf o d = .ret ret d' w ∧
    Obs.display (.txOutput index text amount) ∈ w ∧ d'.tx.outputs[d'.tx.displayIndex]? = some output

/-- The display of GET_ADDRESS shows the address of a path. -/
def ShowsPath (path : Bip32Path) (text : Bytes) : Prop :=
  ∃ o d ret d' w, uiDisplayConfirmAddress pf o d = .ret ret d' w ∧ d.gContext.bip32Path = path ∧
    Obs.display (.address text) ∈ w

variable {pf} {output : TxOutput} {path : Bip32Path} {text text' : Bytes}

theorem ShowsOutput.text_eq (h : ShowsOutput pf output text) : text = addressText (addressOf pf output.pubkeyHash) := by
  rcases h with ⟨o, d, ret, d', w, index, amount, hret, hmem, hslot⟩
  have hspec := uiDisplayTxOutputs_spec pf o d
  rw [wp_of_ret hret] at hspec
  rcases hspec with ⟨_, tx, _, _, hends⟩
  cases hends with
  | checked check => cases check <;> simp at hmem
  | failed => simp at hmem
  | @shown output' _ _ slot =>
      have hsame : output' = output := Option.some.inj (slot.symm.trans hslot)
      simp only [List.mem_singleton, outputScreen, Obs.display.injEq, Screen.txOutput.injEq] at hmem
      rw [hmem.2.1, hsame]

theorem ShowsPath.text_eq (h : ShowsPath pf path text) : text = addressText (addressOf pf (pathHash pf path)) := by
  rcases h with ⟨o, d, ret, d', w, hret, rfl, hmem⟩
  have hspec := uiDisplayConfirmAddress_shows pf o d
  rw [wp_of_ret hret] at hspec
  exact hspec text hmem

/-- An output is accepted as change to a path if and only if the screens show one address for both; the
texts are not empty and end within their arrays. -/
theorem change_agrees_with_screens (hversion : pf.HathorVersion) {info : ChangeOutputInfo}
    (hlen : output.pubkeyHash.length = pubkeyHashLen) {accepted : Bool}
    (hverify : verifyChange pf o info output = some accepted) (houtput : ShowsOutput pf output text)
    (hpath : ShowsPath pf info.path text') :
    (accepted = true ↔ text = text') ∧ (text ≠ [] ∧ text.length < b58AddressLen ∧ 0 ∉ text) ∧
      (text' ≠ [] ∧ text'.length < b58AddressLen ∧ 0 ∉ text') := by
  have hlen' : (pathHash pf info.path).length = pubkeyHashLen := pf.ripemd160_length _
  rw [verifyChange_some pf hverify, houtput.text_eq, hpath.text_eq]
  refine ⟨⟨fun h => ?_, fun h => ?_⟩, addressText_fits hversion hlen, addressText_fits hversion hlen'⟩
  · rw [h]
  · exact addressText_injective hversion hlen' hlen h.symm

/-- An output to the key at the path 44'/280'/0'/0/0 on a platform on which every key is the same. -/
theorem change_agrees_with_screens_one :
    ∃ text text', ShowsOutput countingPlatform ⟨0, 1, 0, List.replicate 19 0 ++ [2]⟩ text ∧
      ShowsPath countingPlatform [0x8000002C, 0x80000118, 0x80000000, 0, 0] text' ∧
      ((true = true ↔ text = text') ∧ (text ≠ [] ∧ text.length < b58AddressLen ∧ 0 ∉ text) ∧
        (text' ≠ [] ∧ text'.length < b58AddressLen ∧ 0 ∉ text')) := by
  have hscreen : wp (uiDisplayTxOutputs countingPlatform (.allOk []))
      (fun _ d' w => Obs.display (.txOutput [49, 47, 49]
          (addressText (addressOf countingPlatform (List.replicate 19 0 ++ [2]))) ((amountText htrSymbol 1).getD [])) ∈ w ∧
        d'.tx.outputs[d'.tx.displayIndex]? = some ⟨0, 1, 0, List.replicate 19 0 ++ [2]⟩)
      (fun _ _ _ => False) False ((initSignTxCtx (bootDevice [])).withTx { zeroSignTxCtx with
        outputsLen := 1, bufferOutputLen := 1, outputs := [⟨0, 1, 0, List.replicate 19 0 ++ [2]⟩] }) := by
    decide +kernel
  have hscreen' : wp (uiDisplayConfirmAddress countingPlatform (.allOk []))
      (fun _ _ w => Obs.display (.address
        (addressText (addressOf countingPlatform (List.replicate 19 0 ++ [2])))) ∈ w)
      (fun _ _ _ => False) False ((initRequest .confirmAddress (bootDevice [])).withPath
        [0x8000002C, 0x80000118, 0x80000000, 0, 0]) := by
    decide +kernel
  obtain ⟨ret, d', w, hret, hmem, hslot⟩ := exists_ret_of_wp hscreen
  obtain ⟨ret', e', w', hret', hmem'⟩ := exists_ret_of_wp hscreen'
  have houtput : ShowsOutput countingPlatform ⟨0, 1, 0, List.replicate 19 0 ++ [2]⟩ _ :=
    ⟨_, _, ret, d', w, _, _, hret, hmem, hslot⟩
  have hpath : ShowsPath countingPlatform [0x8000002C, 0x80000118, 0x80000000, 0, 0] _ :=
    ⟨_, _, ret', e', w', hret', rfl, hmem'⟩
  have hverify : verifyChange countingPlatform (.allOk []) ⟨0, [0x8000002C, 0x80000118, 0x80000000, 0, 0]⟩
      ⟨0, 1, 0, List.replicate 19 0 ++ [2]⟩ = some true := by decide
  exact ⟨_, _, houtput, hpath, change_agrees_with_screens (Or.inl rfl) rfl hverify houtput hpath⟩

end Screens

end HathorApp
