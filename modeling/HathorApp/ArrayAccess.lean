import HathorApp.SigningRequest
import HathorApp.TokenRegistry
import HathorApp.TokenTable
import HathorApp.AmountText
import HathorApp.Transcript

/-!
The accesses whose place the host decides: to the path of GET_XPUB, the token table, the saved outputs, the change list
and `g_amount`. Whatever the host sends and the user presses, a step leaves these arrays in one of a few ways only.
-/

namespace HathorApp

open ProgramLogic StreamDecoder TraceRun

section Programs

variable (pf : Platform) (o : Outcome)

theorem inBounds_ioSendSw (sw : Nat) : InBounds (ioSendSw sw) := fun d => by simp

theorem inBounds_ioSendResponse (data : Bytes) (sw : Nat) : InBounds (ioSendResponse data sw) := fun d => by simp

theorem inBounds_uiMenuMain : InBounds uiMenuMain := fun d => by simp

theorem inBounds_askUser (callback : Callback) (flow : Flow) : InBounds (askUser callback flow) := fun d => by simp

theorem inBounds_bzeroAndReply (sw : Nat) : InBounds (bzeroAndReply sw) := fun d => by simp

theorem inBounds_getSecret : InBounds (getSecret o) := fun d => by simp

theorem inBounds_readContextPath (cdata : Buffer) : InBounds (readContextPath cdata) :=
  .bind .get fun _ => .bind (.modify _) fun _ => .pure _

theorem inBounds_checkTokenSignatureFromApdu (cdata : Buffer) : InBounds (checkTokenSignatureFromApdu pf o cdata) := by
  unfold checkTokenSignatureFromApdu
  split
  · exact .pure _
  · split
    · exact .pure _
    · exact .bind (inBounds_getSecret o) fun _ => .pure _

theorem inBounds_replyTokenCheck (isTokenVerified : Nat) : InBounds (replyTokenCheck isTokenVerified) :=
  .ite (inBounds_ioSendSw _) (inBounds_ioSendSw _)

theorem inBounds_registerToken (cdata : Buffer) : InBounds (registerToken pf o cdata) := by
  refine .bind .get fun _ => .ite (.bind (.modify _) fun _ => inBounds_ioSendSw _) ?_
  refine .bind (inBounds_checkTokenSignatureFromApdu pf o cdata) fun _ => .ite ?_ (inBounds_replyTokenCheck _)
  exact .bind (.modify _) fun _ => .ite (inBounds_ioSendSw _) (inBounds_ioSendSw _)

theorem inBounds_uiDisplayConfirmAddress : InBounds (uiDisplayConfirmAddress pf o) := by
  refine .bind .get fun _ => .ite (.bind (.modify _) fun _ => inBounds_ioSendSw _) ?_
  refine .bind (.modify _) fun _ => .bind (.emit _) fun _ => ?_
  split
  · exact .bind (inBounds_bzeroAndReply _) fun _ => .pure _
  · exact .bind (.modify _) fun _ => .bind (inBounds_askUser _ _) fun _ => .pure _

theorem inBounds_handlerGetAddress (cdata : Buffer) : InBounds (handlerGetAddress pf o cdata) := by
  refine .bind (.modify _) fun _ => .bind (inBounds_readContextPath cdata) fun _ => .ite ?_ (inBounds_ioSendSw _)
  refine .bind (.bind .get fun _ => .bind (.emit _) fun _ => ?_) fun _ => inBounds_uiDisplayConfirmAddress pf o
  split
  · exact .throw _
  · exact .modify _

theorem inBounds_uiDisplayXpubConfirm : InBounds uiDisplayXpubConfirm :=
  .bind .get fun _ => .ite (.bind (.modify _) fun _ => inBounds_ioSendSw _) (.bind (inBounds_askUser _ _) fun _ => .pure _)

theorem inBounds_handlerSignTokenData (cdata : Buffer) : InBounds (handlerSignTokenData cdata) := by
  refine .bind (.modify _) fun _ => .bind (.modify _) fun _ => .ite ?_ (inBounds_ioSendSw _)
  refine .bind .get fun _ => .ite (.bind (inBounds_bzeroAndReply _) fun _ => .pure _) ?_
  exact .bind (.modify _) fun _ => .bind (inBounds_askUser _ _) fun _ => .pure _

theorem inBounds_handlerVerifyTokenSignature (cdata : Buffer) : InBounds (handlerVerifyTokenSignature pf o cdata) :=
  .bind (.modify _) fun _ => .bind (inBounds_checkTokenSignatureFromApdu pf o cdata) fun _ =>
    .ite (inBounds_ioSendSw _) (inBounds_replyTokenCheck _)

theorem inBounds_handlerSendTokenData (first : Bool) (cdata : Buffer) : InBounds (handlerSendTokenData pf o first cdata) :=
  .ite (.bind (.modify _) fun _ => inBounds_registerToken pf o cdata) (inBounds_registerToken pf o cdata)

theorem inBounds_handlerSignTx_done (cdata : Buffer) (chunk : Nat) : InBounds (handlerSignTx pf o cdata .done chunk) := by
  intro d
  unfold handlerSignTx
  simp

theorem inBounds_handlerResetTokenSignatures : InBounds handlerResetTokenSignatures :=
  .bind (inBounds_askUser _ _) fun _ => .pure _

/-- Every callback but that of the screen of an output. -/
theorem inBounds_runCallback {callback : Callback} (hother : callback ≠ .uiConfirmOutput) (choice : Bool) :
    InBounds (runCallback pf o callback choice) := by
  have hmenu : ∀ {p : App Int}, InBounds p → InBounds (p >>= fun _ => uiMenuMain) :=
    fun hp => .bind hp fun _ => inBounds_uiMenuMain
  cases callback with
  | uiConfirmOutput => exact absurd rfl hother
  | uiActionTxConfirm => exact fun d => by cases choice <;> simp [runCallback, uiActionTxConfirm]
  | uiActionConfirmXpub =>
      exact .ite (hmenu (.bind .get fun _ => inBounds_ioSendResponse _ _)) (inBounds_bzeroAndReply _)
  | uiActionConfirmAddress => exact .ite (hmenu (inBounds_ioSendSw _)) (inBounds_bzeroAndReply _)
  | uiConfirmResetTokenSignatures =>
      exact .ite (.bind (.modify _) fun _ => hmenu (inBounds_ioSendSw _)) (hmenu (inBounds_ioSendSw _))
  | uiActionSignTokenData =>
      refine .ite (hmenu ?_) (inBounds_bzeroAndReply _)
      exact .bind (inBounds_getSecret o) fun _ => .bind .get fun _ => inBounds_ioSendResponse _ _

end Programs

section Commands

variable {pf : Platform} {o : Outcome} {d d₁ : Device} {data : Bytes}

theorem deriveXpubKey_inBounds :
    wp (deriveXpubKey pf o) (fun _ d' _ => d'.gContext.bip32Path = d.gContext.bip32Path) (fun _ _ _ => True) False d := by
  unfold deriveXpubKey
  rw [wp_bind, wp_get, wp_bind, wp_emit]
  split
  · trivial
  · split
    · trivial
    · rfl

/-- The parent of the empty path is read outside its array. -/
theorem handlerGetXpub_overruns (cdata : Buffer) :
    wp (handlerGetXpub pf o cdata) (fun _ _ _ => True) (fun _ _ _ => True)
      (∃ rest, bufferReadBip32Path cdata [] = (true, [], rest)) d := by
  obtain ⟨⟨read, path, rest⟩, hread⟩ : ∃ result, bufferReadBip32Path cdata [] = result := ⟨_, rfl⟩
  have hread' : bufferReadBip32Path cdata (initRequest .confirmXpub d).gContext.bip32Path = (read, path, rest) := hread
  unfold handlerGetXpub readContextPath
  simp only [wp_bind, wp_modify, wp_get, hread', wp_pure, wp_ite]
  refine ⟨fun haccepted => ?_, fun _ => by simp⟩
  refine wp_mono deriveXpubKey_inBounds ?_ (fun _ _ _ _ => trivial) False.elim
  intro _ d₁ _ (hpath : d₁.gContext.bip32Path = path)
  unfold deriveXpubParent
  simp only [wp_bind, wp_get, wp_ite, wp_overrun]
  refine ⟨fun hempty => ⟨rest, ?_⟩, fun _ => ?_⟩
  · rw [hpath] at hempty
    rw [hread, haccepted, List.length_eq_zero_iff.mp hempty]
  · rw [wp_emit]
    split
    · trivial
    · rw [wp_modify]
      exact wp_mono (inBounds_uiDisplayXpubConfirm _) (fun _ _ _ _ => trivial) (fun _ _ _ _ => trivial) False.elim

/-- A chunk is taken, or refused, within the arrays. -/
theorem takeChunk_inBounds (hdata : data.length ≤ decodeBufferLen) (chunk : Nat) (d : Device) :
    wp (takeChunk o (Buffer.ofData data) chunk) (fun _ _ w => w = []) (fun _ _ _ => True) False d := by
  obtain rfl | hlater := Nat.eq_zero_or_pos chunk
  · by_cases hstate : d.state = .recvData
    · unfold takeChunk
      rw [if_pos rfl, wp_bind, wp_get, if_pos hstate]
      trivial
    · exact wp_mono (takeChunk_first_spec o hdata d hstate) (fun _ _ _ h => h.1) (fun _ _ _ _ => trivial) id
  · rw [takeChunk_later o hlater]
    split
    · trivial
    · split
      · trivial
      · rfl

/-- A data command leaves its arrays in decoding the chunk it has taken only. -/
theorem handlerSignTx_data_overruns (hdata : data.length ≤ decodeBufferLen) (chunk : Nat) :
    wp (handlerSignTx pf o (Buffer.ofData data) .data chunk) (fun _ _ _ => True) (fun _ _ _ => True)
      (d.state ≠ .approved ∧ (0 < chunk → d.state = .recvData) ∧
        ∃ d₁, takeChunk o (Buffer.ofData data) chunk d.entered = .ret () d₁ [] ∧ decodeChunk pf o d₁ = .overrun) (wake d) := by
  have hstate : ((wake d).withTx (wake d).tx.resetCall).state = d.state := by
    show (wake d).gContext.state = d.state
    rw [wake_gContext]
  by_cases happroved : d.state = .approved
  · unfold handlerSignTx
    rw [wp_bind, wp_modify, wp_bind, wp_get]
    dsimp only
    rw [if_pos (hstate.trans happroved)]
    simp
  by_cases hopen : 0 < chunk → d.state = .recvData
  · rw [wp_handlerSignTx happroved hopen, receiveData, wp_bind]
    refine wp_mono (wp_self (takeChunk_inBounds hdata chunk d.entered)) ?_ (fun _ _ _ _ => trivial) False.elim
    rintro _ d₁ w ⟨htaken, rfl⟩
    cases hdecode : decodeChunk pf o d₁ with
    | ret => rw [wp_of_ret hdecode]; trivial
    | throw => rw [wp_of_throw hdecode]; trivial
    | overrun => exact (wp_of_overrun hdecode).mpr ⟨happroved, hopen, d₁, htaken, hdecode⟩
  · push Not at hopen
    unfold handlerSignTx
    rw [wp_bind, wp_modify, wp_bind, wp_get]
    dsimp only
    rw [if_neg (fun h => happroved (hstate.symm.trans h)), if_pos ⟨hopen.1, fun h => hopen.2 (hstate.symm.trans h)⟩]
    simp

end Commands

section Session

variable {pf : Platform} {o : Outcome} {d d' : Device} {e : Event} {s s' : TxState} {tx tx' : SignTxCtx} {w : List Obs}

/-- The entries of the change list have slots, the tokens are slots of the registry, and the saved values fit. -/
structure SignTxCtx.InRange (tx : SignTxCtx) : Prop where
  counted : 0 < tx.outputsLen → tx.changeLen ≤ 1 + txMaxTokens
  declared : tx.currentOutput ≤ tx.outputsLen
  tokens : ∀ slot ∈ tx.tokens, slot < txMaxTokens
  values : ∀ output ∈ tx.outputs, output.value ≤ 2 ^ 63

theorem inRange_zero : zeroSignTxCtx.InRange := by
  refine ⟨fun h => absurd h (Nat.lt_irrefl 0), Nat.le_refl 0, fun slot h => absurd h List.not_mem_nil, fun output h => ?_⟩
  rw [List.eq_of_mem_replicate h]
  exact Nat.zero_le _

theorem SignTxCtx.InRange.of_part (h : tx.InRange) (hsame : tx'.decodedPart = tx.decodedPart) : tx'.InRange := by
  have houtputsLen : tx'.outputsLen = tx.outputsLen := (congrArg SignTxCtx.outputsLen hsame :)
  have hchangeLen : tx'.changeLen = tx.changeLen := (congrArg SignTxCtx.changeLen hsame :)
  have hcurrent : tx'.currentOutput = tx.currentOutput := (congrArg SignTxCtx.currentOutput hsame :)
  have htokens : tx'.tokens = tx.tokens := (congrArg SignTxCtx.tokens hsame :)
  have houtputs : tx'.outputs = tx.outputs := (congrArg SignTxCtx.outputs hsame :)
  refine ⟨?_, ?_, ?_, ?_⟩
  · rw [houtputsLen, hchangeLen]
    exact h.counted
  · rw [hcurrent, houtputsLen]
    exact h.declared
  · rw [htokens]
    exact h.tokens
  · rw [houtputs]
    exact h.values

theorem SignTxCtx.InRange.skips (h : tx.InRange) (hskips : SkipsTo tx tx') : tx'.InRange := by
  refine h.of_part ?_
  rw [hskips.frame]
  rfl

theorem mem_fillSlots {slots outs : List TxOutput} {i : Nat} {output : TxOutput} (h : output ∈ fillSlots slots i outs) :
    output ∈ slots ∨ output ∈ outs := by
  induction outs generalizing slots i with
  | nil => exact Or.inl h
  | cons first outs ih =>
      rcases ih h with hold | hnew
      · rcases List.mem_or_eq_of_mem_set hold with hold | rfl
        · exact Or.inl hold
        · exact Or.inr List.mem_cons_self
      · exact Or.inr (List.mem_cons_of_mem _ hnew)

/-- The tokens that are taken are in use in the registry, and the values are those of outputs. -/
theorem run_inRange {verify : ChangeOutputInfo → TxOutput → Option Bool} {registry : TokenDataCtx}
    {changes : List ChangeOutputInfo} {outputsLen : Nat} {l tail : Bytes} (hlen : registry.len ≤ txMaxTokens)
    (htokens : ∀ slot ∈ s.tokens, slot < txMaxTokens) (hvalues : ∀ output ∈ s.outputs, output.value ≤ 2 ^ 63)
    (hrun : (txMachine verify registry changes outputsLen).run s l = .rest s' tail) :
    (∀ slot ∈ s'.tokens, slot < txMaxTokens) ∧ ∀ output ∈ s'.outputs, output.value ≤ 2 ^ 63 := by
  refine Machine.run_invariant
    (P := fun s₁ _ => (∀ slot ∈ s₁.tokens, slot < txMaxTokens) ∧ ∀ output ∈ s₁.outputs, output.value ≤ 2 ^ 63) ?_
    ⟨htokens, hvalues⟩ hrun
  rintro s₁ l₁ s₂ n ⟨htokens₁, hvalues₁⟩ hnext
  cases element_of_nextElement hnext with
  | token _ _ known =>
      refine ⟨fun slot hmem => ?_, hvalues₁⟩
      rcases List.mem_append.mp hmem with hold | hnew
      · exact htokens₁ slot hold
      · rw [List.mem_singleton.mp hnew]
        exact Nat.lt_of_lt_of_le (findTokenRegistryIndex_some known).1 hlen
  | input => exact ⟨htokens₁, hvalues₁⟩
  | output _ _ _ complete index =>
      refine ⟨htokens₁, fun output hmem => ?_⟩
      rcases List.mem_append.mp hmem with hold | hnew
      · exact hvalues₁ output hold
      · obtain ⟨serialized, _, _, hparsed, _⟩ := exists_serialize complete
        have hfits := serialized.value_fits
        rw [List.mem_singleton.mp hnew, index, hparsed]
        show serialized.value ≤ 2 ^ 63
        split at hfits <;> omega

theorem SignTxCtx.InRange.took {verify : ChangeOutputInfo → TxOutput → Option Bool} {registry : TokenDataCtx} {tail : Bytes}
    (h : tx.InRange) (hlen : registry.len ≤ txMaxTokens) (hrep : tx.Represents s)
    (hvalues : ∀ output ∈ s.outputs, output.value ≤ 2 ^ 63) (hverdict : decodeVerdict verify registry tx s = .rest s' tail) :
    (tx.took s' tail).InRange := by
  have hrun := Machine.run_of_ask hverdict
  obtain ⟨htokens', hvalues'⟩ := run_inRange hlen (by rw [← hrep.tokens]; exact h.tokens) hvalues hrun
  refine ⟨h.counted, ?_, htokens', fun output hmem => ?_⟩
  · apply run_outputs_le _ hrun
    rw [← hrep.currentOutput]
    exact h.declared
  rcases mem_fillSlots hmem with hold | hnew
  · exact h.values output hold
  · exact hvalues' output (List.mem_of_mem_drop hnew)

theorem DisplayEnds.inRange (h : DisplayEnds pf d d' w) (hd : d.tx.InRange) : d'.tx.InRange := by
  cases h with
  | checked check =>
      cases check with
      | parsed => exact hd
      | foreign => exact inRange_zero
      | more => exact hd.of_part rfl
  | failed => exact inRange_zero
  | shown => exact hd

theorem DecodeEffect.inRange {accepted : Bool} (h : DecodeEffect pf o s d accepted d' w) (haccepted : accepted = true)
    (hd : d.tx.InRange) (hlen : d.gTokenSymbols.len ≤ txMaxTokens) (hrep : d.tx.Represents s)
    (hvalues : ∀ output ∈ s.outputs, output.value ≤ 2 ^ 63) : d'.tx.InRange := by
  cases h with
  | rejected => exact inRange_zero
  | broken => cases haccepted
  | awaits _ verdict => exact hd.took hlen hrep hvalues verdict
  | displays _ verdict _ _ skips _ ends =>
      have htook := hd.took hlen hrep hvalues verdict
      exact ends.inRange (htook.skips skips)

theorem DataEffect.inRange {data : Bytes} {chunk : Nat} {r : Ending} (h : DataEffect pf o data chunk s d r d' w)
    (hnonneg : ∀ v, r = .ret v → 0 ≤ v) (hd : d.tx.InRange) (hlen : d.gTokenSymbols.len ≤ txMaxTokens)
    (hrep : d.tx.Represents s) (hvalues : ∀ output ∈ s.outputs, output.value ≤ 2 ^ 63) : d'.tx.InRange := by
  cases h with
  | dropped => exact inRange_zero
  | busy => exact inRange_zero
  | headerUnread _ _ unread =>
      obtain ⟨_, _, _, _, _, _, _, _, rfl⟩ := unread
      exact ⟨fun h => absurd h (Nat.lt_irrefl 0), Nat.le_refl 0, inRange_zero.tokens, inRange_zero.values⟩
  | @started changeLen offset changeInfo _ _ _ _ _ inArray _ _ _ _ effect =>
      have hstarted : (startedTx changeLen changeInfo (data.drop offset)).InRange :=
        ⟨fun _ => show changeLen ≤ 1 + txMaxTokens by omega, Nat.zero_le _, inRange_zero.tokens, inRange_zero.values⟩
      exact effect.inRange (accepted_of_nonneg hnonneg) hstarted hlen ⟨rfl, rfl, rfl, rfl⟩ fun _ h => absurd h List.not_mem_nil
  | notHashed => exact hd
  | notCopied => exact hd.of_part rfl
  | continued _ _ _ _ effect =>
      refine effect.inRange (accepted_of_nonneg hnonneg) ?_ hlen ?_ hvalues
      · exact ⟨hd.counted, hd.declared, hd.tokens, hd.values⟩
      · exact ⟨hrep.tokens, hrep.remainingTokens, hrep.remainingInputs, hrep.currentOutput⟩

theorem SignEffect.decodedPart {data : Bytes} {v : Int} (h : SignEffect pf o data d v d' w) :
    d'.tx.decodedPart = d.tx.decodedPart := by
  have hdigest : ∀ {tx tx' done}, DigestStep pf o tx tx' done → tx'.decodedPart = tx.decodedPart :=
    fun hstep => by cases hstep <;> rfl
  have hsighash : ∀ {path signature d' w}, Sighash pf o (d.withPath path) signature d' w →
      d'.tx.decodedPart = d.tx.decodedPart := by
    intro path signature d' w hsighash
    cases hsighash with
    | keyless => rfl
    | undigested _ step => exact hdigest step
    | unsigned _ step => exact hdigest step
    | signed _ step => exact hdigest step
  cases h with
  | unapproved => rfl
  | unread => rfl
  | pathless => rfl
  | failed _ _ _ sighash => exact (hsighash sighash :)
  | signed _ _ _ sighash => exact (hsighash sighash :)

theorem Aside.inRange (h : Aside d d' w) (hd : d.tx.InRange) : d'.tx.InRange := by
  rcases h.session with hkept | hdropped
  · rw [hkept.tx]
    exact hd
  · rw [hdropped.tx]
    exact inRange_zero

theorem Settles.inRange {r : Ending} (h : Settles d r d' w) (hd : (∀ v, r = .ret v → 0 ≤ v) → d.tx.InRange) :
    d'.tx.InRange := by
  cases h with
  | resumes nonneg => exact hd nonneg
  | restarts => exact inRange_zero

theorem Moves.inRange (hmoves : Moves pf d.tx.someState d e d' w) (hd : d.tx.InRange)
    (hlen : d.gTokenSymbols.len ≤ txMaxTokens) : d'.tx.InRange := by
  have hentered : d.entered.tx.InRange := by
    rw [entered_tx]
    exact hd.of_part rfl
  cases hmoves with
  | aside _ effect => exact effect.inRange hd
  | restarts => exact inRange_zero
  | registers _ _ effect settles => exact settles.inRange fun _ => effect.aside.inRange ((aside_wake d).inRange hd)
  | data _ _ _ effect settles =>
      refine settles.inRange fun hnonneg => effect.inRange hnonneg hentered ?_ ⟨rfl, rfl, rfl, ?_⟩ fun output hmem => ?_
      · rw [show d.entered.gTokenSymbols = d.gTokenSymbols from wake_gTokenSymbols d]
        exact hlen
      · exact List.length_replicate.symm
      · rw [List.eq_of_mem_replicate hmem]
        exact Nat.zero_le _
  | sign _ _ _ effect settles => exact settles.inRange fun _ => hentered.of_part effect.decodedPart
  | approved => exact hd
  | confirmed _ skips ends =>
      have hadvanced : d.tx.advance.InRange := hd.of_part rfl
      exact ends.inRange (hadvanced.skips skips)

theorem run_inRange_tx {h : History Device Event Obs} (run : Run (freeSystem pf) h d) : d.tx.InRange := by
  refine free_invariant_all (I := fun _ d => d.tx.InRange) (fun _ => inRange_zero) ?_ run
  intro h d e d' w run hd hmoves
  exact (hmoves _ d.tx.represents_someState).inRange hd (run_registryOf run).sound.len

end Session

section Tables

variable {pf : Platform} {h : History Device Event Obs} {d : Device}

/-- Every symbol of the registry ends, also those of entries that are not in use. -/
def TokenDataCtx.SymbolsEnd (registry : TokenDataCtx) : Prop := ∀ entry ∈ registry.tokens, 0 ∈ entry.symbol

theorem symbolsEnd_zero : zeroTokenDataCtx.SymbolsEnd := by
  intro entry hentry
  rw [List.eq_of_mem_replicate hentry]
  apply List.mem_cons_self

theorem TokenDataCtx.SymbolsEnd.add {registry : TokenDataCtx} {token : Token} (hend : registry.SymbolsEnd)
    (hwf : token.WellFormed) : (registry.add token).SymbolsEnd := by
  rw [TokenDataCtx.add_eq hwf]
  intro entry hentry
  rcases List.mem_or_eq_of_mem_set hentry with hold | rfl
  · exact hend entry hold
  · exact (TokenSymbol.store_holds hwf _).terminated

theorem run_symbolsEnd (run : Run (freeSystem pf) h d) : d.gTokenSymbols.SymbolsEnd := by
  apply free_invariant_all (I := fun _ d => d.gTokenSymbols.SymbolsEnd) _ _ run
  · exact fun _ => symbolsEnd_zero
  · intro h d e d' w _ hd hmoves
    have hstep := (hmoves _ d.tx.represents_someState).registryStep
    cases hstep with
    | kept _ same => exact same.symm ▸ hd
    | cleared _ empty => exact empty.symm ▸ symbolsEnd_zero
    | @added _ base _ origin _ wellFormed grown =>
        have hbase : base.SymbolsEnd := by
          rcases origin with ⟨_, rfl⟩ | ⟨_, rfl⟩
          · exact symbolsEnd_zero
          · exact hd
        rw [show d'.gTokenSymbols = base.add _ from grown]
        exact hbase.add wellFormed

variable {verify : ChangeOutputInfo → TxOutput → Option Bool} {registry : TokenDataCtx} {changes : List ChangeOutputInfo}
  {outputsLen : Nat} {s s' : TxState} {l l' : Bytes}

/-- The machine comes to a state with tokens to come by taking tokens alone. -/
theorem reaches_tokens (h : (txMachine verify registry changes outputsLen).Reaches s l s' l')
    (hpending : 0 < s'.remainingTokens) :
    ∃ k, s'.tokens.length = s.tokens.length + k ∧ s'.remainingTokens + k = s.remainingTokens ∧
      l' = l.drop (tokenUidLen * k) ∧
      ∀ i < k, findTokenRegistryIndex registry ((l.drop (tokenUidLen * i)).take tokenUidLen) ≠ none := by
  induction h with
  | refl => exact ⟨0, rfl, rfl, rfl, fun i hi => absurd hi (Nat.not_lt_zero i)⟩
  | element _ next ih =>
      cases element_of_nextElement next with
      | token pending _ known =>
          obtain ⟨k, htokens, hremaining, rfl, hknown⟩ := ih pending
          refine ⟨k + 1, ?_, ?_, ?_, fun i hi => ?_⟩
          · rw [List.length_append, List.length_singleton, htokens, Nat.add_assoc]
          · dsimp only
            omega
          · rw [List.drop_drop, Nat.mul_succ]
          · rcases Nat.lt_succ_iff_lt_or_eq.mp hi with hbelow | rfl
            · exact hknown i hbelow
            · rw [known]
              exact Option.some_ne_none _
      | input tokens => exact absurd tokens (Nat.ne_of_gt hpending)
      | output tokens => exact absurd tokens (Nat.ne_of_gt hpending)

/-- The table overflows when the buffer begins with more tokens than it has places left. -/
theorem TableOverflows.overfills {tx : SignTxCtx} (h : TableOverflows verify registry tx s) (hrep : tx.Represents s) :
    OverfillsTable registry tx := by
  obtain ⟨s', l, hreaches, hpending, hfull, hcomplete, hknown⟩ := h
  obtain ⟨k, htokens, hremaining, rfl, htaken⟩ := reaches_tokens hreaches hpending
  have huid : tokenUidLen = 32 := rfl
  rw [List.length_drop, huid] at hcomplete
  rw [← hrep.tokens] at htokens
  rw [← hrep.remainingTokens] at hremaining
  refine ⟨by omega, by rw [huid]; omega, fun i hi => ?_⟩
  by_cases hbelow : i < k
  · exact htaken i hbelow
  · obtain rfl : i = k := by omega
    exact hknown

end Tables

section Screens

variable {pf : Platform} {o : Outcome} {d d₁ : Device} {e : Event} {s : TxState}

/-- A string that ends within its array is shorter than it. -/
theorem cString_length_lt {cells : Bytes} (hend : 0 ∈ cells) : (cString cells).length < cells.length := by
  apply Nat.lt_of_le_of_ne (List.takeWhile_sublist _).length_le
  intro hlength
  have hall : cString cells = cells := (List.takeWhile_sublist _).eq_of_length hlength
  exact zero_not_mem_cString cells (hall.symm ▸ hend)

/-- An output cannot be put on screen when its slot is past the saved outputs, or its amount does not fit. -/
theorem DisplayOverruns.causes (hover : DisplayOverruns d) (htable : d.tx.TableInside) (hrange : d.tx.InRange)
    (hsound : d.gTokenSymbols.Sound) (hend : d.gTokenSymbols.SymbolsEnd) :
    outputSlots ≤ d.tx.displayIndex ∨ ∃ output symbol, d.tx.outputs[d.tx.displayIndex]? = some output ∧
      outputSymbol d.gTokenSymbols d.tx output = some symbol ∧ ¬AmountFits symbol output.value := by
  rcases Nat.lt_or_ge d.tx.displayIndex outputSlots with hslot | hpast
  · apply Or.inr
    have hindex : d.tx.displayIndex < d.tx.outputs.length := by
      rw [htable.slots]
      exact hslot
    have houtput := List.getElem?_eq_getElem hindex
    have hmem := List.getElem_mem hindex
    have hamount := hover.2 _ houtput
    obtain ⟨symbol, hsymbol, hlength, htext⟩ : ∃ symbol,
        outputSymbol d.gTokenSymbols d.tx d.tx.outputs[d.tx.displayIndex] = some symbol ∧
          symbol.length ≤ maxTokenSymbolLen ∧ 0 ∉ symbol := by
      unfold outputSymbol
      split
      · exact ⟨htrSymbol, rfl, by decide, by decide⟩
      · have htoken : d.tx.outputs[d.tx.displayIndex].tokenIndex - 1 < d.tx.tokens.length := by
          have hinTable := htable.outputs _ hmem
          omega
        have hregistered : d.tx.tokens[d.tx.outputs[d.tx.displayIndex].tokenIndex - 1] < d.gTokenSymbols.tokens.length := by
          rw [hsound.slots]
          exact hrange.tokens _ (List.getElem_mem htoken)
        rw [List.getElem?_eq_getElem htoken]
        dsimp only
        rw [List.getElem?_eq_getElem hregistered]
        have hentry := List.getElem_mem hregistered
        have hshort := cString_length_lt (hend _ hentry)
        rw [hsound.symbols _ hentry] at hshort
        exact ⟨_, rfl, Nat.le_of_lt_succ hshort, zero_not_mem_cString _⟩
    have hvalue := hrange.values _ hmem
    refine ⟨_, symbol, houtput, hsymbol, fun hfits => ?_⟩
    rw [outputAmount, hsymbol, Option.bind_some, amountText_eq hlength htext hvalue, if_pos hfits] at hamount
    cases hamount
  · exact Or.inl hpast

/-- The decoder leaves its arrays at a token without a place in the table, or in displaying what it has decoded. -/
theorem decodeChunk_overruns (pf : Platform) (o : Outcome) (hrep : d.tx.Represents s)
    (hroom : 32 * d.tx.bufferOutputLen + d.tx.buffer.length ≤ decodeBufferLen) (hempty : d.tx.bufferOutputLen = 0)
    (hrange : d.tx.InRange) (hlen : d.gTokenSymbols.len ≤ txMaxTokens) (hvalues : ∀ output ∈ s.outputs, output.value ≤ 2 ^ 63) :
    wp (decodeChunk pf o) (fun _ _ _ => True) (fun _ _ _ => True)
      (TableOverflows (verifyChange pf o) d.gTokenSymbols d.tx s ∨ ∃ tx₁ w tx,
        decodeElements (verifyChange pf o) d.gTokenSymbols d.tx = .ret txStateReady tx₁ w ∧ tx₁.bufferOutputLen ≠ 0 ∧
          ComesTo (d.withTx tx₁) tx ∧ tx.InRange ∧ DisplayOverruns (d.withTx tx)) d := by
  unfold decodeChunk
  rw [wp_bind, wp_get, wp_bind, wp_onTx]
  refine wp_mono (wp_self (decodeElements_spec (verifyChange pf o) d.gTokenSymbols hrep hroom)) ?_ (fun _ _ _ _ => trivial) Or.inl
  rintro result tx₁ w ⟨hdecoded, _, hresult⟩
  obtain ⟨rfl, s', tail, hverdict, rfl, _⟩ | ⟨rfl, _⟩ | ⟨rfl, _⟩ := hresult
  · rw [if_neg (by decide), if_pos rfl, wp_bind, wp_get, wp_ite]
    refine ⟨fun hsome => ?_, fun _ => by simp⟩
    have htook : (d.tx.took s' tail).InRange := hrange.took hlen hrep hvalues hverdict
    -- an output was saved, so the header announced one
    have houtputs : 0 < d.tx.outputsLen := by
      have hsaved : d.tx.bufferOutputLen + (s'.outputs.drop d.tx.currentOutput).length ≠ 0 := hsome
      have hdeclared : s'.outputs.length ≤ d.tx.outputsLen := htook.declared
      rw [hempty, List.length_drop] at hsaved
      omega
    rw [wp_bind]
    refine wp_mono (uiDisplayTxOutputs_spec pf o _) ?_ (fun _ _ _ h => h.elim) ?_
    · exact fun _ _ _ _ => by simp
    · rintro (hover | ⟨tx, hcomes, hover⟩)
      · exact absurd (htook.counted houtputs) (Nat.not_le.mpr hover)
      · exact Or.inr ⟨_, w, tx, hdecoded, hsome, hcomes, htook.skips hcomes.skips.1, hover⟩
  · rw [if_pos rfl]
    simp
  · rw [if_neg (by decide), if_neg (by decide)]
    simp

/-- What the decoder finds when it is given a chunk. -/
theorem takeChunk_ready {data : Bytes} (hdata : data.length ≤ 255) (chunk : Nat) (hrange : d.tx.InRange)
    (hempty : d.tx.bufferOutputLen = 0) (htail : d.tx.buffer.length ≤ 35) :
    wp (takeChunk o (Buffer.ofData data) chunk)
      (fun _ d₁ _ => d₁.tx.InRange ∧ d₁.tx.bufferOutputLen = 0 ∧ d₁.tx.buffer.length ≤ decodeBufferLen ∧
        d₁.gTokenSymbols = d.gTokenSymbols) (fun _ _ _ => True) True d := by
  have hlimit : decodeBufferLen = 300 := rfl
  have hfits : data.length ≤ decodeBufferLen := by omega
  obtain rfl | hlater := Nat.eq_zero_or_pos chunk
  · by_cases hstate : d.state = .recvData
    · unfold takeChunk
      rw [if_pos rfl, wp_bind, wp_get, if_pos hstate]
      trivial
    · refine wp_mono (takeChunk_first_spec o hfits d hstate) ?_ (fun _ _ _ _ => trivial) False.elim
      rintro _ d₁ _ ⟨_, changeLen, changeInfo, offset, hcount, _, _, _, rfl⟩
      refine ⟨⟨fun _ => ?_, Nat.zero_le _, inRange_zero.tokens, inRange_zero.values⟩, rfl, ?_, rfl⟩
      · show changeLen ≤ 1 + txMaxTokens
        omega
      · show ((data.drop offset).drop 5).length ≤ decodeBufferLen
        simp only [List.length_drop]
        omega
  · rw [takeChunk_later o hlater]
    split
    · trivial
    · split
      · trivial
      · refine ⟨⟨hrange.counted, hrange.declared, hrange.tokens, hrange.values⟩, hempty, ?_, rfl⟩
        show (d.tx.buffer ++ data).length ≤ decodeBufferLen
        rw [List.length_append]
        omega

theorem TakesChunk.ready (htaken : TakesChunk d e o d₁) (hrange : d.tx.InRange) (htail : d.tx.buffer.length ≤ 35) :
    d₁.tx.InRange ∧ d₁.tx.bufferOutputLen = 0 ∧ d₁.tx.buffer.length ≤ decodeBufferLen ∧
      d₁.gTokenSymbols = d.gTokenSymbols := by
  obtain ⟨raw, cmd, _, hparse, _, _, _, _, _, ret⟩ := htaken
  have hready := takeChunk_ready (o := o) (d := d.entered) (apduParser_fits hparse) cmd.p2 (by
    rw [entered_tx]
    exact hrange.of_part rfl) (by rw [entered_tx]; rfl) (by
    rw [entered_tx]
    exact htail)
  rw [wp_of_ret ret] at hready
  obtain ⟨hrange₁, hempty, hbuffer, hregistry⟩ := hready
  exact ⟨hrange₁, hempty, hbuffer, hregistry.trans (wake_gTokenSymbols d)⟩

end Screens

section Run

variable {pf : Platform} {h : History Device Event Obs} {d : Device} {e : Event}

/-- The ways in which a step leaves its arrays. -/
inductive LeavesArrays (pf : Platform) (d : Device) : Event → Prop where
  /-- The parent of a path without levels is derived: `derive_xpub` reads the level before the first. -/
  | rootXpub {o : Outcome} {raw : Bytes} {cmd : Command} (parse : apduParser raw = some cmd) (is : cmd.Is insGetXpub)
      (empty : cmd.data.head? = some 0) :
      LeavesArrays pf d (.apdu o raw)
  | token {e : Event} (overfills : Overfills d e) : LeavesArrays pf d e
  | slot {e : Event} {tx : SignTxCtx} (displayed : Displayed pf d e tx) (past : outputSlots ≤ tx.displayIndex) :
      LeavesArrays pf d e
  | amount {e : Event} {tx : SignTxCtx} {output : TxOutput} {symbol : Bytes} (displayed : Displayed pf d e tx)
      (slot : tx.outputs[tx.displayIndex]? = some output)
      (text : outputSymbol d.gTokenSymbols tx output = some symbol) (long : ¬AmountFits symbol output.value) :
      LeavesArrays pf d e
  /-- The screen of an output outlives its session, and a change list was announced that is too long. -/
  | stale {o : Outcome} (flow : d.flow = .txOutput) (announced : 1 + txMaxTokens < d.tx.changeLen) :
      LeavesArrays pf d (.press o true)

/-- A path read as empty is announced as such. -/
theorem head_of_empty {data : Bytes} {out : Bip32Path} {rest : Buffer}
    (h : bufferReadBip32Path (Buffer.ofData data) out = (true, [], rest)) : data.head? = some 0 := by
  unfold bufferReadBip32Path at h
  split at h
  · cases h
  · rename_i path hread
    cases h
    obtain ⟨hempty, _, hroom⟩ := bip32PathRead_length hread
    cases data with
    | nil => exact absurd hroom (by decide)
    | cons first data =>
        have hzero : first = 0 := UInt8.toNat_inj.mp hempty.symm
        rw [List.head?_cons, hzero]

theorem TakesChunk.leaves {o : Outcome} {d₁ : Device} (htaken : TakesChunk d e o d₁) (run : Run (freeSystem pf) h d)
    (hover : decodeChunk pf o d₁ = .overrun) : LeavesArrays pf d e := by
  have hsound := (run_registryOf run).sound
  obtain ⟨hrange, hempty, hbuffer, hregistry⟩ := htaken.ready (run_inRange_tx run) (tail_invariant.run run)
  have htable := htaken.tableInside pf (run_tableInside run)
  have hlen : d₁.gTokenSymbols.len ≤ txMaxTokens := by
    rw [hregistry]
    exact hsound.len
  have hvalues : ∀ output ∈ d₁.tx.someState.outputs, output.value ≤ 2 ^ 63 := by
    intro output hmem
    rw [List.eq_of_mem_replicate hmem]
    exact Nat.zero_le _
  have hcauses := decodeChunk_overruns pf o d₁.tx.represents_someState (by omega) hempty hrange hlen hvalues
  rw [wp_of_overrun hover] at hcauses
  rcases hcauses with hfull | ⟨tx₁, w, tx, hdecoded, hsaved, hcomes, hshown, hscreen⟩
  · exact .token ⟨o, d₁, htaken, hfull.overfills d₁.tx.represents_someState⟩
  · have hdisplayed : Displayed pf d e tx := .chunk htaken hdecoded hsaved hcomes
    have hsound₁ : d₁.gTokenSymbols.Sound := hregistry.symm ▸ hsound
    have hend₁ : d₁.gTokenSymbols.SymbolsEnd := hregistry.symm ▸ run_symbolsEnd run
    rcases hscreen.causes (hdisplayed.tableInside (run_tableInside run)) hshown hsound₁ hend₁ with hpast | hlong
    · exact .slot hdisplayed hpast
    · obtain ⟨output, symbol, hslot, htext, hlong⟩ := hlong
      refine .amount hdisplayed hslot ?_ hlong
      rw [← hregistry]
      exact htext

theorem handleCommand_leaves (o : Outcome) (raw : Bytes) (run : Run (freeSystem pf) h d) :
    wp (handleCommand pf o raw) (fun _ _ _ => True) (fun _ _ _ => True) (LeavesArrays pf d (.apdu o raw)) d := by
  cases hparse : apduParser raw with
  | none =>
      unfold handleCommand
      rw [wp_bind, wp_modify, wp_catchAll, hparse]
      dsimp only
      rw [wp_bind, wp_ioSendSw]
      exact wp_mono (ioRecvCommand_rests (Int.le_refl 0) _) (fun _ _ _ _ => trivial) (fun _ _ _ h => h.elim) False.elim
  | some cmd =>
      have hstays : ∀ {p : App Int}, InBounds p →
          wp p (fun _ _ _ => True) (fun _ _ _ => True) (LeavesArrays pf d (.apdu o raw)) (wake d) :=
        fun hp => wp_mono (hp _) (fun _ _ _ h => h) (fun _ _ _ h => h) False.elim
      have hdata : cmd.data.length ≤ 255 := apduParser_fits hparse
      have hlimit : decodeBufferLen = 300 := rfl
      have hdispatched : wp (apduDispatcher pf o cmd) (fun _ _ _ => True) (fun _ _ _ => True)
          (LeavesArrays pf d (.apdu o raw)) (wake d) := by
        have hdispatches := apduDispatcher_dispatches pf o cmd
        generalize apduDispatcher pf o cmd = p at hdispatches
        cases hdispatches with
        | refused => exact hstays (inBounds_ioSendSw _)
        | getVersion => exact hstays (inBounds_ioSendResponse _ _)
        | getAddress => exact hstays (inBounds_handlerGetAddress pf o _)
        | getXpub is =>
            refine wp_mono (handlerGetXpub_overruns _) (fun _ _ _ h => h) (fun _ _ _ h => h) ?_
            rintro ⟨rest, hempty⟩
            exact .rootXpub hparse is (head_of_empty hempty)
        | signTxData is stage nonempty =>
            refine wp_mono (handlerSignTx_data_overruns (by omega) cmd.p2) (fun _ _ _ h => h) (fun _ _ _ h => h) ?_
            rintro ⟨hopen, hlater, d₁, htaken, hover⟩
            have htakes : TakesChunk d (.apdu o raw) o d₁ :=
              ⟨raw, cmd, rfl, hparse, is, stage, nonempty, hopen, hlater, htaken⟩
            exact htakes.leaves run hover
        | signTxSign => exact hstays fun d₁ => InBounds.of_wp (handlerSignTx_sign_spec pf o cmd.data cmd.p2 d₁)
        | signTxDone => exact hstays (inBounds_handlerSignTx_done pf o _ _)
        | signTokenData => exact hstays (inBounds_handlerSignTokenData _)
        | sendTokenData => exact hstays (inBounds_handlerSendTokenData pf o _ _)
        | verifyTokenSignature => exact hstays (inBounds_handlerVerifyTokenSignature pf o _)
        | resetTokenSignatures => exact hstays inBounds_handlerResetTokenSignatures
      refine wp_mono (handleCommand_ends pf hparse (R := fun _ _ _ => True) hdispatched) ?_ (fun _ _ _ h => h.elim) id
      exact fun _ _ _ _ => trivial

theorem handlePress_leaves (o : Outcome) (choice : Bool) (run : Run (freeSystem pf) h d) :
    wp (handlePress pf o choice) (fun _ _ _ => True) (fun _ _ _ => True) (LeavesArrays pf d (.press o choice)) d := by
  have hset := run_callbackSet run
  have hother : ∀ c, c ≠ .uiConfirmOutput → wp (Prog.catchAll (runCallback pf o c choice) replyException)
      (fun _ _ _ => True) (fun _ _ _ => True) (LeavesArrays pf d (.press o choice)) d := by
    intro c houtput
    have hreply : ∀ e, InBounds (replyException e) := fun e d₁ => InBounds.of_wp (replyException_rests e d₁)
    have hcaught := (inBounds_runCallback pf o houtput choice).catchAll hreply
    exact wp_mono (hcaught d) (fun _ _ _ h => h) (fun _ _ _ h => h) False.elim
  unfold handlePress
  rw [wp_bind, wp_get, wp_ite]
  refine ⟨fun hasks => ?_, fun _ => trivial⟩
  cases hflow : d.flow with
  | menuMain => rw [hflow] at hasks; cases choice <;> cases hasks
  | processing => rw [hflow] at hasks; cases choice <;> cases hasks
  | confirmTx =>
      rw [hset .uiActionTxConfirm (by rw [hflow]; rfl)]
      exact hother _ (by decide)
  | xpub =>
      rw [hset .uiActionConfirmXpub (by rw [hflow]; rfl)]
      exact hother _ (by decide)
  | address =>
      rw [hset .uiActionConfirmAddress (by rw [hflow]; rfl)]
      exact hother _ (by decide)
  | resetTokenSignatures =>
      rw [hset .uiConfirmResetTokenSignatures (by rw [hflow]; rfl)]
      exact hother _ (by decide)
  | signTokenData =>
      rw [hset .uiActionSignTokenData (by rw [hflow]; rfl)]
      exact hother _ (by decide)
  | txOutput =>
      rw [hset .uiConfirmOutput (by rw [hflow]; rfl)]
      dsimp only
      rw [wp_catchAll]
      cases choice with
      | false => simp [runCallback, uiConfirmOutput]
      | true =>
          refine wp_mono (uiConfirmOutput_spec pf o d) (fun _ _ _ _ => trivial) (fun _ _ _ h => h.elim) ?_
          rintro (hover | ⟨tx, hcomes, hscreen⟩)
          · exact .stale hflow hover
          · have hdisplayed : Displayed pf d (.press o true) tx := .press hflow hcomes
            have hadvanced : d.tx.advance.InRange := (run_inRange_tx run).of_part rfl
            have hend : d.gTokenSymbols.SymbolsEnd := run_symbolsEnd run
            rcases hscreen.causes (hdisplayed.tableInside (run_tableInside run)) (hadvanced.skips hcomes.skips.1)
              (run_registryOf run).sound hend with hpast | ⟨output, symbol, hslot, htext, hlong⟩
            · exact .slot hdisplayed hpast
            · exact .amount hdisplayed hslot htext hlong

/-- In every run a step that leaves one of its arrays does so in one of these ways. -/
theorem leaves_arrays (run : Run (freeSystem pf) h d) (hover : handle pf e d = .overrun) : LeavesArrays pf d e := by
  have hspec : wp (handle pf e) (fun _ _ _ => True) (fun _ _ _ => True) (LeavesArrays pf d e) d := by
    cases e with
    | apdu o raw => exact handleCommand_leaves o raw run
    | press o choice => exact handlePress_leaves o choice run
    | quit =>
        unfold handle handleQuit
        simp
  rwa [wp_of_overrun hover] at hspec

/-- GET_XPUB of the empty path, right after the start. -/
theorem leaves_arrays_root : ∃ h d e, Run (freeSystem countingPlatform) h d ∧ handle countingPlatform e d = .overrun ∧
    LeavesArrays countingPlatform d e := by
  have hboot : Run (freeSystem countingPlatform) [] (bootDevice []) := .start ⟨[], rfl⟩
  have hover : handle countingPlatform (.apdu (.allOk []) [0xE0, 5, 0, 0, 1, 0]) (bootDevice []) = .overrun := by rfl
  exact ⟨[], bootDevice [], _, hboot, hover, leaves_arrays hboot hover⟩

end Run

end HathorApp
