import HathorApp.ConfirmationRun
import HathorApp.SigningDigest
import HathorApp.TokenRegistry
import HathorApp.TokenTable

/-!
Whose symbol is on screen. The token table points into the registry, which SEND_TOKEN_DATA appends to and clears. The
first command of a series clears the session with it; one that finds the registry full leaves a session with pointers to
entries that are gone. As long as that does not happen every entry pointed to keeps the UID it was looked up under, so
that the symbol on screen is that of a token accepted under the UID in the transaction.
-/

namespace HathorApp

open ProgramLogic StreamDecoder TraceRun

/-- The tokens taken from the bytes behind a header are registered under their UIDs; while another is to come, what is
left of the stream is behind them. -/
structure UidsTaken (registry : TokenDataCtx) (s : TxState) (m l : Bytes) : Prop where
  known : ∀ i slot, s.tokens[i]? = some slot → 5 + tokenUidLen * (i + 1) ≤ m.length ∧ slot < registry.len ∧
    (registry.tokens.getD slot zeroTokenSymbol).uid = (m.drop (5 + tokenUidLen * i)).take tokenUidLen
  rest : 0 < s.remainingTokens →
    5 + tokenUidLen * s.tokens.length ≤ m.length ∧ m.drop (5 + tokenUidLen * s.tokens.length) = l

section Stream

variable {verify : ChangeOutputInfo → TxOutput → Option Bool} {registry : TokenDataCtx} {changes : List ChangeOutputInfo}
  {outputsLen : Nat} {s s' : TxState} {m l tail : Bytes}

theorem uidsTaken_start {m : Bytes} (hheader : 5 ≤ m.length) (remainingTokens remainingInputs : Nat) :
    UidsTaken registry ⟨[], remainingTokens, remainingInputs, []⟩ m (m.drop 5) := by
  refine ⟨fun i slot h => ?_, fun _ => ⟨hheader, rfl⟩⟩
  rw [List.getElem?_nil] at h
  cases h

theorem UidsTaken.element {n : Nat} (h : UidsTaken registry s m l)
    (helement : Element verify registry changes outputsLen s l s' n) : UidsTaken registry s' m (l.drop n) := by
  cases helement with
  | @token found pending complete known =>
      obtain ⟨hlen, hrest⟩ := h.rest pending
      have hcomplete := complete
      rw [← hrest, List.length_drop] at hcomplete
      obtain ⟨hinUse, huid⟩ := findTokenRegistryIndex_some known
      have hnext : tokenUidLen * (s.tokens.length + 1) = tokenUidLen * s.tokens.length + tokenUidLen := Nat.mul_succ _ _
      refine ⟨fun i slot hslot => ?_, fun _ => ?_⟩
      · by_cases hold : i < s.tokens.length
        · rw [List.getElem?_append_left hold] at hslot
          exact h.known i slot hslot
        · have hlast : i = s.tokens.length := by
            have hlt := (List.getElem?_eq_some_iff.mp hslot).1
            rw [List.length_append, List.length_singleton] at hlt
            omega
          rw [hlast, List.getElem?_concat_length, Option.some.injEq] at hslot
          rw [hlast, ← hslot, hrest]
          exact ⟨by omega, hinUse, huid⟩
      · dsimp only
        rw [List.length_append, List.length_singleton]
        refine ⟨by omega, ?_⟩
        rw [← hrest, List.drop_drop, hnext, Nat.add_assoc]
  | input tokens => exact ⟨h.known, fun hpending => absurd tokens (Nat.ne_of_gt hpending)⟩
  | output tokens => exact ⟨h.known, fun hpending => absurd tokens (Nat.ne_of_gt hpending)⟩

theorem UidsTaken.run (h : UidsTaken registry s m l)
    (hrun : (txMachine verify registry changes outputsLen).run s l = .rest s' tail) : UidsTaken registry s' m tail := by
  refine Machine.run_invariant (P := fun s₁ l₁ => UidsTaken registry s₁ m l₁) ?_ h hrun
  intro s₁ l₁ s₂ n htaken hnext
  exact htaken.element (element_of_nextElement hnext)

/-- More of the stream arrives. -/
theorem UidsTaken.append (h : UidsTaken registry s m l) (data : Bytes) : UidsTaken registry s (m ++ data) (l ++ data) := by
  refine ⟨fun i slot hslot => ?_, fun hpending => ?_⟩
  · obtain ⟨hlen, hinUse, huid⟩ := h.known i slot hslot
    have hnext : tokenUidLen * (i + 1) = tokenUidLen * i + tokenUidLen := Nat.mul_succ _ _
    have hroom : tokenUidLen ≤ (m.drop (5 + tokenUidLen * i)).length := by
      rw [List.length_drop]
      omega
    refine ⟨?_, hinUse, ?_⟩
    · rw [List.length_append]
      omega
    · rw [huid, List.drop_append_of_le_length (by omega), List.take_append_of_le_length hroom]
  · obtain ⟨hlen, hrest⟩ := h.rest hpending
    refine ⟨?_, ?_⟩
    · rw [List.length_append]
      omega
    · rw [List.drop_append_of_le_length hlen, hrest]

/-- A token added to the registry leaves the entries in use alone. -/
theorem UidsTaken.added (h : UidsTaken registry s m l) {token : Token} (hwf : token.WellFormed) :
    UidsTaken (registry.add token) s m l := by
  refine ⟨fun i slot hslot => ?_, h.rest⟩
  obtain ⟨hlen, hinUse, huid⟩ := h.known i slot hslot
  refine ⟨hlen, ?_, ?_⟩
  · rw [TokenDataCtx.add_eq hwf]
    exact Nat.lt_succ_of_lt hinUse
  · rw [TokenDataCtx.getD_add hwf hinUse]
    exact huid

/-- Without a token taken the registry does not matter. -/
theorem UidsTaken.none_taken (h : UidsTaken registry s m l) (hnone : s.tokens = []) (registry' : TokenDataCtx) :
    UidsTaken registry' s m l := by
  refine ⟨fun i slot hslot => ?_, h.rest⟩
  rw [hnone, List.getElem?_nil] at hslot
  cases hslot

end Stream

/-- The tokens of a session are registered under the UIDs in its transaction. A session without outputs holds outputs of
HTR only. -/
structure SignTxCtx.TokensBound (registry : TokenDataCtx) (tx : SignTxCtx) : Prop where
  uids : 0 < tx.outputsLen → ∃ m, tx.sha256 = some m ∧ UidsTaken registry tx.someState m tx.buffer
  none : tx.outputsLen = 0 → ∀ output ∈ tx.outputs, output.tokenIndex = 0

section Session

variable {pf : Platform} {registry : TokenDataCtx} {tx tx' : SignTxCtx}

theorem zeroSlots_tokenIndex : ∀ output ∈ zeroSignTxCtx.outputs, output.tokenIndex = 0 := by
  intro output houtput
  rw [List.eq_of_mem_replicate houtput]
  rfl

theorem tokensBound_started (changeLen : Nat) (changeInfo : List ChangeOutputInfo) {m : Bytes} (hheader : 5 ≤ m.length) :
    (startedTx changeLen changeInfo m).TokensBound registry :=
  ⟨fun _ => ⟨m, rfl, uidsTaken_start hheader _ _⟩, fun _ => zeroSlots_tokenIndex⟩

theorem SignTxCtx.HeaderUnread.tokensBound (h : tx.HeaderUnread) : tx.TokensBound registry := by
  obtain ⟨_, _, _, _, _, _, _, _, rfl⟩ := h
  exact ⟨fun h => absurd h (Nat.lt_irrefl 0), fun _ => zeroSlots_tokenIndex⟩

theorem SignTxCtx.TokensBound.receives {m : Bytes} (h : tx.TokensBound registry) (hctx : tx.sha256 = some m) (data : Bytes) :
    ((tx.hashed (m ++ data)).received data).TokensBound registry := by
  refine ⟨fun hsome => ?_, h.none⟩
  obtain ⟨m', hsha, htaken⟩ := h.uids hsome
  obtain rfl := Option.some.inj (hctx.symm.trans hsha)
  exact ⟨m ++ data, rfl, htaken.append data⟩

/-- What a chunk completes is looked up in the registry. -/
theorem SignTxCtx.TokensBound.decode {verify : ChangeOutputInfo → TxOutput → Option Bool} {s' : TxState} {tail : Bytes}
    (h : tx.TokensBound registry) (hverdict : decodeVerdict verify registry tx tx.someState = .rest s' tail) :
    (tx.took s' tail).TokensBound registry := by
  have hrun := Machine.run_of_ask hverdict
  refine ⟨fun hsome => ?_, fun hnone => ?_⟩
  · obtain ⟨m, hsha, htaken⟩ := h.uids hsome
    have htaken' := htaken.run hrun
    exact ⟨m, hsha, htaken'.known, htaken'.rest⟩
  · have hzero : tx.outputsLen = 0 := hnone
    have hsame : s'.outputs = List.replicate tx.currentOutput zeroOutput := by
      refine Machine.run_invariant (P := fun s₁ _ => s₁.outputs = List.replicate tx.currentOutput zeroOutput) ?_ rfl hrun
      intro s₁ l₁ s₂ n hsame hnext
      cases element_of_nextElement hnext with
      | token => exact hsame
      | input => exact hsame
      | output _ _ pending => exact absurd pending (by omega)
    have hslots : (tx.took s' tail).outputs = tx.outputs := by
      unfold SignTxCtx.took
      rw [hsame, List.drop_eq_nil_of_le (Nat.le_of_eq List.length_replicate)]
      rfl
    rw [hslots]
    exact h.none hzero

theorem SignTxCtx.TokensBound.skips (h : tx.TokensBound registry) (hskips : SkipsTo tx tx') : tx'.TokensBound registry := by
  rw [hskips.frame]
  exact ⟨h.uids, h.none⟩

theorem SignTxCtx.TokensBound.resetCall (h : tx.TokensBound registry) : tx.resetCall.TokensBound registry := ⟨h.uids, h.none⟩

end Session

/-- A SEND_TOKEN_DATA command that goes on with a series finds the registry full and clears it, under a session that has
taken tokens from its transaction. -/
structure ClearsUnder (d : Device) (e : Event) : Prop where
  command : ∃ o raw cmd, e = .apdu o raw ∧ apduParser raw = some cmd ∧ cmd.SendsToken ∧ cmd.p1 ≠ 0
  full : txMaxTokens ≤ d.gTokenSymbols.len
  session : d.state = .recvData
  taken : d.tx.tokens ≠ []

instance (cmd : Command) : Decidable cmd.SendsToken :=
  inferInstanceAs (Decidable ((cmd.cla = cla ∧ cmd.ins = insSendTokenData) ∧ cmd.p2 = 0))

instance (d : Device) (e : Event) : Decidable (ClearsUnder d e) :=
  match e with
  | .apdu _ raw =>
    decidable_of_iff ((apduParser raw).any (fun cmd => cmd.SendsToken ∧ cmd.p1 ≠ 0) = true ∧
        txMaxTokens ≤ d.gTokenSymbols.len ∧ d.state = .recvData ∧ d.tx.tokens ≠ []) <| by
      simp only [Option.any_eq_true, decide_eq_true_eq]
      constructor
      · rintro ⟨⟨cmd, hparse, hcmd⟩, hfull, hstate, htaken⟩
        exact ⟨⟨_, raw, cmd, rfl, hparse, hcmd⟩, hfull, hstate, htaken⟩
      · rintro ⟨⟨_, _, cmd, he, hparse, hcmd⟩, hfull, hstate, htaken⟩
        cases he
        exact ⟨⟨cmd, hparse, hcmd⟩, hfull, hstate, htaken⟩
  | .press .. => isFalse fun h => by
    obtain ⟨_, _, _, he, _⟩ := h.command
    cases he
  | .quit => isFalse fun h => by
    obtain ⟨_, _, _, he, _⟩ := h.command
    cases he

/-- The tokens of the session are bound to the registry. With an output on screen the session is under way, or it is gone
with its tokens. -/
structure Device.SymbolsBound (d : Device) : Prop where
  bound : d.state = .recvData → d.tx.TokensBound d.gTokenSymbols
  screen : d.flow = .txOutput → d.state = .recvData ∨ d.tx.tokens = []

section Step

variable {pf : Platform} {h : History Device Event Obs} {d d' : Device} {e : Event} {w : List Obs} {o : Outcome}

theorem symbolsBound_of_none (hstate : d.state = .none) (htx : d.tx = zeroSignTxCtx) : d.SymbolsBound := by
  refine ⟨fun h => (nomatch hstate.symm.trans h), fun _ => Or.inr ?_⟩
  rw [htx]
  rfl

theorem DisplayEnds.symbolsBound (hends : DisplayEnds pf d d' w)
    (hbound : d.state = .recvData → d.tx.TokensBound d.gTokenSymbols) (hscreen : d.state = .recvData ∨ d.tx.tokens = []) :
    d'.SymbolsBound := by
  cases hends with
  | checked check =>
      cases check with
      | parsed => exact ⟨nofun, nofun⟩
      | foreign => exact symbolsBound_of_none rfl rfl
      | more => exact ⟨fun hstate => (hbound hstate).resetCall, nofun⟩
  | failed => exact symbolsBound_of_none rfl rfl
  | shown => exact ⟨hbound, fun _ => hscreen⟩

theorem DecodeEffect.symbolsBound (heffect : DecodeEffect pf o d.tx.someState d true d' w) (hstate : d.state = .recvData)
    (hbound : d.tx.TokensBound d.gTokenSymbols) : d'.SymbolsBound := by
  cases heffect with
  | rejected => exact symbolsBound_of_none rfl rfl
  | awaits _ verdict => exact ⟨fun _ => hbound.decode verdict, fun _ => Or.inl hstate⟩
  | displays _ verdict _ _ skips _ ends =>
      exact ends.symbolsBound (fun _ => (hbound.decode verdict).skips skips) (Or.inl hstate)

theorem DataEffect.symbolsBound {data : Bytes} {chunk : Nat} {r : Ending}
    (heffect : DataEffect pf o data chunk d.tx.someState d r d' w) (hnonneg : ∀ v, r = .ret v → 0 ≤ v)
    (hfits : data.length ≤ decodeBufferLen - d.tx.buffer.length) (hd : d.SymbolsBound) : d'.SymbolsBound := by
  cases heffect with
  | dropped => exact symbolsBound_of_none rfl rfl
  | busy => exact symbolsBound_of_none rfl rfl
  | headerUnread _ _ unread => exact ⟨fun _ => unread.tokensBound, fun _ => Or.inl rfl⟩
  | @started changeLen offset changeInfo accepted _ _ _ _ _ _ _ header _ effect =>
      rw [accepted_of_nonneg hnonneg] at effect
      have hheader : 5 ≤ (data.drop offset).length := by
        rw [List.length_drop]
        omega
      exact DecodeEffect.symbolsBound (d := (initSignTxCtx d).withTx (startedTx changeLen changeInfo (data.drop offset)))
        effect rfl (tokensBound_started changeLen changeInfo hheader)
  | notHashed => exact hd
  | notCopied _ _ long => exact absurd hfits (Nat.not_le.mpr long)
  | @continued m accepted _ _ _ state ctx _ effect =>
      rw [accepted_of_nonneg hnonneg] at effect
      exact DecodeEffect.symbolsBound (d := d.withTx ((d.tx.hashed (m ++ data)).received data)) effect state
        ((hd.bound state).receives ctx data)

/-- A command that stands aside, apart from what it does to the registry. -/
theorem Device.SymbolsBound.beside {registry : TokenDataCtx} (hd : d.SymbolsBound)
    (haside : Aside d { d' with gTokenSymbols := registry } w)
    (hbound : d'.state = d.state → d'.tx = d.tx → d.state = .recvData → d'.tx.TokensBound d'.gTokenSymbols) :
    d'.SymbolsBound := by
  have hsession : d'.state = d.state ∧ d'.tx = d.tx ∨ d'.state = .none ∧ d'.tx = zeroSignTxCtx := by
    rcases haside.session with hkept | hdropped
    · exact Or.inl ⟨hkept.state, hkept.tx⟩
    · exact Or.inr ⟨hdropped.state, hdropped.tx⟩
  rcases hsession with ⟨hstate, htx⟩ | ⟨hstate, htx⟩
  · refine ⟨fun hrecv => hbound hstate htx (hstate.symm.trans hrecv), fun hflow => ?_⟩
    rcases haside.screen with hkept | hreplaced
    · rw [hstate, htx]
      exact hd.screen (hkept.flow.symm.trans hflow)
    · exact absurd (show d'.flow.OfTx by rw [hflow]; trivial) hreplaced.flow
  · exact symbolsBound_of_none hstate htx

/-- A SEND_TOKEN_DATA command that does not clear the registry under a session. -/
theorem Registers.symbolsBound {raw : Bytes} {cmd : Command} (hparse : apduParser raw = some cmd) (hsends : cmd.SendsToken)
    (heffect : Registers pf o (decide (cmd.p1 = 0)) (Buffer.ofData cmd.data) (wake d) d' w) (hd : d.SymbolsBound)
    (hkept : ¬ClearsUnder d (.apdu o raw)) : d'.SymbolsBound := by
  have haside := aside_composable.trans (aside_wake d) heffect.aside
  refine hd.beside haside fun hstate htx hrecv => ?_
  have hbound := hd.bound hrecv
  by_cases hfirst : cmd.p1 = 0
  · -- the first command of a series clears the session
    rw [decide_eq_true hfirst] at heffect
    have hcleared : d'.state = .none := by
      cases heffect with
      | emptied _ part => exact Device.state_of_part part
      | kept _ _ part => exact Device.state_of_part part
      | added _ _ part => exact Device.state_of_part part
    exact nomatch hcleared.symm.trans (hstate.trans hrecv)
  · rw [decide_eq_false hfirst] at heffect
    have hbase : ((wake d).registryBase false).gTokenSymbols = d.gTokenSymbols := wake_gTokenSymbols d
    rw [htx]
    cases heffect with
    | emptied full _ =>
        rw [hbase] at full
        have hnone : d.tx.tokens = [] := by
          by_contra htaken
          exact hkept ⟨⟨o, raw, cmd, rfl, hparse, hsends, hfirst⟩, full, hrecv, htaken⟩
        refine ⟨fun hsome => ?_, hbound.none⟩
        obtain ⟨m, hsha, htaken⟩ := hbound.uids hsome
        exact ⟨m, hsha, htaken.none_taken hnone _⟩
    | kept _ _ part =>
        have hsame : d'.gTokenSymbols = d.gTokenSymbols := (Device.registry_of_part part).trans hbase
        rw [hsame]
        exact hbound
    | @added token _ accepted part =>
        have hgrown : d'.gTokenSymbols = d.gTokenSymbols.add token := by
          have hpart : d'.gTokenSymbols = ((wake d).registryBase false).gTokenSymbols.add token :=
            Device.registry_of_part part
          rw [hpart, hbase]
        rw [hgrown]
        refine ⟨fun hsome => ?_, hbound.none⟩
        obtain ⟨m, hsha, htaken⟩ := hbound.uids hsome
        exact ⟨m, hsha, htaken.added accepted.wellFormed⟩

theorem Moves.symbolsBound (hmoves : Moves pf d.tx.someState d e d' w) (hd : d.SymbolsBound) (hdigest : d.DigestAbsent)
    (hbuffer : d.tx.buffer.length ≤ 35) (hkept : ¬ClearsUnder d e) : d'.SymbolsBound := by
  have hlimit : decodeBufferLen = 300 := rfl
  have hentered : d.entered.SymbolsBound := by
    have hregistry : d.entered.gTokenSymbols = d.gTokenSymbols := wake_gTokenSymbols d
    refine ⟨fun hstate => ?_, fun hflow => ?_⟩
    · rw [hregistry]
      exact (hd.bound ((entered_state d).symm.trans hstate)).resetCall
    · rw [entered_state]
      exact hd.screen ((entered_flow d).symm.trans hflow)
  cases hmoves with
  | aside _ effect =>
      have haside : Aside d { d' with gTokenSymbols := d'.gTokenSymbols } w := effect
      refine hd.beside haside fun _ htx hrecv => ?_
      rw [htx, effect.registry]
      exact hd.bound hrecv
  | restarts => exact symbolsBound_of_none rfl rfl
  | registers parse sends effect settles =>
      have hregistered := effect.symbolsBound parse sends hd hkept
      cases settles with
      | resumes => exact ⟨hregistered.bound, hregistered.screen⟩
      | restarts => exact symbolsBound_of_none rfl rfl
  | @data _ _ cmd _ _ _ _ _ parse _ _ effect settles =>
      cases settles with
      | resumes nonneg =>
          have hfits : cmd.data.length ≤ decodeBufferLen - d.entered.tx.buffer.length := by
            have hlen : cmd.data.length ≤ 255 := apduParser_fits parse
            show cmd.data.length ≤ decodeBufferLen - d.tx.buffer.length
            omega
          have hdone := DataEffect.symbolsBound (d := d.entered) effect nonneg hfits hentered
          exact ⟨hdone.bound, hdone.screen⟩
      | restarts => exact symbolsBound_of_none rfl rfl
  | sign _ _ _ effect settles =>
      cases settles with
      | resumes =>
          obtain ⟨path, tx, rfl, htx⟩ := effect.frame
          refine ⟨fun hstate => ?_, fun hflow => ?_⟩
          · have hrecv : d.entered.state = .recvData := hstate
            have hsame : tx = d.entered.tx := htx (by rw [hrecv]; nofun)
            have hbound := hentered.bound hrecv
            rw [← hsame] at hbound
            exact hbound
          · have houtput : d.flow = .txOutput := (entered_flow d).symm.trans hflow
            have hstate : d.entered.state ≠ .approved := by
              rw [entered_state]
              intro happroved
              exact hdigest.screen happroved (by rw [houtput]; trivial)
            have hscreen := hentered.screen hflow
            rw [← htx hstate] at hscreen
            exact hscreen
      | restarts => exact symbolsBound_of_none rfl rfl
  | approved => exact ⟨nofun, nofun⟩
  | @confirmed _ tx _ _ flow skips ends =>
      refine ends.symbolsBound (fun hstate => ?_) ?_
      · have hbound : d.tx.advance.TokensBound d.gTokenSymbols := ⟨(hd.bound hstate).uids, (hd.bound hstate).none⟩
        exact hbound.skips skips
      · have htokens : tx.tokens = d.tx.tokens := by
          rw [skips.frame]
          rfl
        show d.state = .recvData ∨ tx.tokens = []
        rw [htokens]
        exact hd.screen flow

/-- The screen of an output is put up, with its texts. -/
def PutsUp (pf : Platform) (d' : Device) (screen : Screen) : Prop := d'.screen = screen ∧ ∃ output, d'.Shows pf output

variable {index address amount : Bytes}

theorem Plain.no_output (hw : Plain w) : Obs.display (.txOutput index address amount) ∉ w := fun hmem => hw _ hmem

theorem Settles.no_output {r : Ending} (settles : Settles d r d' w) : Obs.display (.txOutput index address amount) ∉ w :=
  settles.unseen id nofun

theorem SignEffect.no_output {data : Bytes} {v : Int} (heffect : SignEffect pf o data d v d' w) :
    Obs.display (.txOutput index address amount) ∉ w := by
  have hreply : ∀ signature sw, replyOf signature sw ≠ .display (.txOutput index address amount) := by
    intro signature sw hsame
    have hplain := plain_replyOf signature sw
    rw [hsame] at hplain
    exact hplain
  cases heffect with
  | unapproved => simp
  | unread => simp
  | pathless => simp
  | failed _ _ _ sighash => cases sighash <;> simp
  | signed _ _ _ sighash =>
      cases sighash with
      | signed => simp [Ne.symm (hreply _ _)]

theorem DisplayEnds.putsUp (hends : DisplayEnds pf d d' w) (hmem : Obs.display (.txOutput index address amount) ∈ w) :
    d'.gIoState = d.gIoState ∧ PutsUp pf d' (.txOutput index address amount) := by
  cases hends with
  | checked check => cases check <;> simp at hmem
  | failed => simp at hmem
  | @shown output text inside slot htext =>
      have hscreen := List.mem_singleton.mp hmem
      rw [Obs.display.injEq] at hscreen
      exact ⟨rfl, hscreen.symm, output, rfl, slot, text, htext, rfl⟩

theorem DataEffect.putsUp {data : Bytes} {chunk : Nat} {s : TxState} {r : Ending}
    (heffect : DataEffect pf o data chunk s d r d' w) (hmem : Obs.display (.txOutput index address amount) ∈ w) :
    r = .ret 0 ∧ d'.gIoState = d.gIoState ∧ PutsUp pf d' (.txOutput index address amount) := by
  have hdecode : ∀ {d₁ : Device} {s : TxState} {accepted : Bool}, DecodeEffect pf o s d₁ accepted d' w →
      accepted = true ∧ d'.gIoState = d₁.gIoState ∧ PutsUp pf d' (.txOutput index address amount) := by
    intro d₁ s accepted hdecode
    cases hdecode with
    | rejected silent => simp [silent.no_display] at hmem
    | broken silent => exact absurd hmem (silent.no_display _)
    | awaits silent => simp [silent.no_display] at hmem
    | displays silent _ _ _ _ _ ends =>
        rcases List.mem_append.mp hmem with hmem | hmem
        · exact absurd hmem (silent.no_display _)
        · exact ⟨rfl, ends.putsUp hmem⟩
  cases heffect with
  | dropped => simp at hmem
  | busy => simp at hmem
  | headerUnread => simp at hmem
  | started _ _ _ _ _ _ _ effect =>
      obtain ⟨haccepted, hio, hputsUp⟩ := hdecode effect
      rw [haccepted]
      exact ⟨rfl, hio, hputsUp⟩
  | notHashed => simp at hmem
  | notCopied => simp at hmem
  | continued _ _ _ _ effect =>
      obtain ⟨haccepted, hio, hputsUp⟩ := hdecode effect
      rw [haccepted]
      exact ⟨rfl, hio, hputsUp⟩

variable (pf) in
/-- A command of a host that waits which puts the screen of an output up leaves it up. -/
theorem handleCommand_putsUp (o : Outcome) {raw : Bytes} {cmd : Command} (hparse : apduParser raw = some cmd)
    (hd : d.Disciplined) :
    wp (handleCommand pf o raw)
      (fun _ d' w => ∀ index address amount, Obs.display (.txOutput index address amount) ∈ w →
        cmd.Is insSignTx ∧ PutsUp pf d' (.txOutput index address amount)) (fun _ _ _ => False) True d := by
  have hdispatched := apduDispatcher_spec pf o (apduParser_fits hparse) d.tx.represents_someState
  refine wp_mono (handleCommand_ends pf hparse hdispatched) ?_ (fun _ _ _ h => h) id
  rintro _ d' _ ⟨r, d₁, w₁, w₂, hdispatched, hrests, rfl⟩ index address amount hmem
  have hmem₁ : Obs.display (.txOutput index address amount) ∈ w₁ :=
    (List.mem_append.mp hmem).resolve_right hrests.settles.no_output
  cases hdispatched with
  | aside _ effect => exact absurd hmem₁ effect.seen.no_output
  | registers _ effect => exact absurd hmem₁ effect.aside.seen.no_output
  | sign _ _ effect => exact absurd hmem₁ effect.no_output
  | data is _ effect =>
      obtain ⟨rfl, hio, hscreen, output, hflow, hslot, htext⟩ := effect.putsUp hmem₁
      have hreceived : d₁.gIoState = .received := hio.trans hd.wake_received
      refine ⟨is, ?_⟩
      cases hrests with
      | replied _ ready => exact nomatch hreceived.symm.trans ready
      | owes => exact ⟨hscreen, output, hflow, hslot, htext⟩
      | restarts cause =>
          rcases cause with hnegative | hwaiting
          · exact absurd hnegative (by decide)
          · exact nomatch hreceived.symm.trans hwaiting

theorem putsUp_of_step {r : Step Device Event Obs} (run : Run (waitingSystem pf) (r :: h) d)
    (hmem : Obs.display (.txOutput index address amount) ∈ r.seen) :
    ¬r.event.SendsToken ∧ PutsUp pf r.post (.txOutput index address amount) := by
  have hsplit : r :: h = [] ++ r :: h := rfl
  rw [hsplit] at run
  obtain ⟨hbefore, _, ret⟩ := run.before
  have hmoves := moves_of_ret (free_of_waiting hbefore) ret r.pre.tx.represents_someState
  obtain ⟨d, e, w, d'⟩ := r
  dsimp only at hmem hmoves ret hbefore ⊢
  cases hmoves with
  | aside _ effect => exact absurd hmem effect.seen.no_output
  | restarts seen => simp [seen.no_output] at hmem
  | registers _ _ effect settles => simp [effect.aside.seen.no_output, settles.no_output] at hmem
  | @data o raw cmd _ _ _ _ _ parse is _ _ _ =>
      have hspec := handleCommand_putsUp pf o parse (run_disciplined hbefore)
      have ret' : handleCommand pf o raw d = .ret () d' _ := ret
      rw [wp_of_ret ret'] at hspec
      refine ⟨?_, (hspec index address amount hmem).2⟩
      rintro ⟨_, _, cmd', ⟨⟩, hcmd, hsends⟩
      obtain rfl : cmd = cmd' := Option.some.inj (parse.symm.trans hcmd)
      exact is.not_sendsToken (by decide) hsends
  | sign _ _ _ effect settles => simp [effect.no_output, settles.no_output] at hmem
  | approved => simp at hmem
  | confirmed _ _ ends => exact ⟨press_not_sendsToken, (ends.putsUp hmem).2⟩

/-- No step of the run clears the registry under a session. -/
abbrev KeepsRegistry (h : History Device Event Obs) : Prop := ∀ r ∈ h, ¬ClearsUnder r.pre r.event

theorem run_symbolsBound (run : Run (freeSystem pf) h d) (hC : KeepsRegistry h) : d.SymbolsBound := by
  refine free_invariant (C := fun r => ¬ClearsUnder r.pre r.event) (I := fun _ d => d.SymbolsBound) ?_ ?_ run hC
  · exact fun _ => symbolsBound_of_none rfl rfl
  · intro h d e d' w run _ hd hmoves hkept
    exact (hmoves _ d.tx.represents_someState).symbolsBound hd (run_digestAbsent run) (tail_invariant.run run) hkept

/-- The amount is one in the symbol of a token that an earlier command has registered, under the UID at the place of the
output's token in the transaction. -/
def NamesToken (pf : Platform) (h : History Device Event Obs) (tx : SignTxCtx) (output : TxOutput) (amount : Bytes) : Prop :=
  ∃ m, tx.sha256 = some m ∧ output.tokenIndex ≤ tx.tokens.length ∧ 5 + tokenUidLen * output.tokenIndex ≤ m.length ∧
    ∃ r ∈ h, ∃ token, Accepts pf r token ∧
      token.uid = (m.drop (5 + tokenUidLen * (output.tokenIndex - 1))).take tokenUidLen ∧
      amountText (cString token.symbol) output.value = some amount

/-- A custom token on screen is looked up in the table and the registry. -/
theorem outputAmount_custom {registry : TokenDataCtx} {tx : SignTxCtx} {output : TxOutput}
    (hcustom : output.tokenIndex ≠ 0) (htext : outputAmount registry tx output = some amount) :
    ∃ slot entry, tx.tokens[output.tokenIndex - 1]? = some slot ∧ registry.tokens[slot]? = some entry ∧
      amountText (cString entry.symbol) output.value = some amount := by
  unfold outputAmount outputSymbol at htext
  rw [if_neg hcustom] at htext
  cases hslot : tx.tokens[output.tokenIndex - 1]? with
  | none =>
      rw [hslot] at htext
      cases htext
  | some slot =>
      rw [hslot] at htext
      dsimp only at htext
      cases hentry : registry.tokens[slot]? with
      | none =>
          rw [hentry] at htext
          cases htext
      | some entry =>
          rw [hentry] at htext
          exact ⟨slot, entry, rfl, hentry, htext⟩

/-- In a run of a host that waits, in which no step clears the registry under a session, an output of a custom token is
put on screen with the symbol of a token accepted before, under the UID at that token's place in the transaction. -/
theorem shown_symbol_accepted {r : Step Device Event Obs} (run : Run (waitingSystem pf) (r :: h) d)
    (hC : KeepsRegistry (r :: h)) (hmem : Obs.display (.txOutput index address amount) ∈ r.seen) :
    ∃ output, r.post.Shows pf output ∧ r.post.screen = .txOutput index address amount ∧
      (output.tokenIndex ≠ 0 → NamesToken pf h r.post.tx output amount) := by
  obtain ⟨hother, hscreen, output, hshows⟩ := putsUp_of_step run hmem
  refine ⟨output, hshows, hscreen, fun hcustom => ?_⟩
  have hpost := run.post_eq
  have free := free_of_waiting run
  have hbound := run_symbolsBound free hC
  have hregistry := run_registryOf free
  rw [← hpost] at hbound hregistry
  obtain ⟨amount', htext, htexts⟩ := hshows.text
  have hsame : amount = amount' := by
    rw [hscreen] at htexts
    exact (Screen.txOutput.inj htexts).2.2
  rw [← hsame] at htext
  obtain ⟨slot, entry, hslot, hentry, hamount⟩ := outputAmount_custom hcustom htext
  have hinTable : output.tokenIndex - 1 < r.post.tx.tokens.length := (List.getElem?_eq_some_iff.mp hslot).1
  rcases hbound.screen hshows.flow with hrecv | hnone
  · have htokens := hbound.bound hrecv
    have hsome : 0 < r.post.tx.outputsLen := by
      apply Nat.pos_of_ne_zero
      intro hzero
      exact hcustom (htokens.none hzero output (List.mem_of_getElem? hshows.slot))
    obtain ⟨m, hsha, htaken⟩ := htokens.uids hsome
    obtain ⟨hlen, hinUse, huid⟩ := htaken.known _ slot hslot
    obtain ⟨later, r', earlier, token, hhistory, haccepts, _, hholds⟩ := hregistry.entries slot hinUse
    have hsame : r.post.gTokenSymbols.tokens.getD slot zeroTokenSymbol = entry := by
      rw [List.getD_eq_getElem?_getD, hentry]
      rfl
    rw [hsame] at huid hholds
    have hr' : r' ∈ r :: h := by
      rw [hhistory]
      exact List.mem_append_right later List.mem_cons_self
    have hearlier : r' ∈ h := by
      rcases List.mem_cons.mp hr' with rfl | hmem
      · obtain ⟨o, raw, cmd, hevent, hparse, hsends, _⟩ := haccepts
        exact absurd ⟨o, raw, cmd, hevent, hparse, hsends⟩ hother
      · exact hmem
    have hplace : output.tokenIndex - 1 + 1 = output.tokenIndex := by omega
    rw [hplace] at hlen
    refine ⟨m, hsha, by omega, hlen, r', hearlier, token, haccepts, ?_, ?_⟩
    · rw [← hholds.uid, huid]
    · rw [← hholds.symbol]
      exact hamount
  · rw [hnone] at hinTable
    exact absurd hinTable (Nat.not_lt_zero _)

/-- The bytes of an output of value 1 in the first token. -/
def sampleTokenOutput : Bytes := [0, 0, 0, 1, 1, 0, 25, 0x76, 0xA9, 20] ++ List.replicate 20 7 ++ [0x88, 0xAC]

/-- A token is registered, and an output of it is shown in its symbol. -/
theorem shown_symbol_accepted_one :
    ∃ h r index address amount, Run (waitingSystem countingPlatform) (r :: h) r.post ∧
      Obs.display (.txOutput index address amount) ∈ r.seen ∧
      ∃ output, r.post.Shows countingPlatform output ∧ r.post.screen = .txOutput index address amount ∧
        (output.tokenIndex ≠ 0 → NamesToken countingPlatform h r.post.tx output amount) := by
  obtain ⟨h, r, _, run, hP⟩ := exists_step_of_play countingPlatform true (List.replicate 32 1)
    [sendTokenData 0 (tokenData [65] [66] ++ List.replicate 31 0 ++ [2])]
    (signTxData 0 ([0, 0, 1, 1, 0, 1] ++ List.replicate 32 0 ++ sampleTokenOutput))
    (fun h r => (∃ output ∈ r.post.tx.outputs,
        Obs.display (outputScreen countingPlatform r.post.tx output [65, 32, 48, 46, 48, 49]) ∈ r.seen) ∧
      ∀ r' ∈ r :: h, ¬ClearsUnder r'.pre r'.event) (by decide +kernel)
  obtain ⟨⟨_, _, hmem⟩, hkept⟩ := of_decide_eq_true hP
  exact ⟨h, r, _, _, _, run, hmem, shown_symbol_accepted run hkept hmem⟩

/-- The token in the data of a command. -/
def Event.carriedToken : Event → Option Token
  | .apdu _ raw => (apduParser raw).map fun cmd => (parseToken (Buffer.ofData cmd.data) zeroToken).2.1
  | _ => none

theorem Accepts.carried {r : Step Device Event Obs} {token : Token} (h : Accepts pf r token) :
    r.event.carriedToken = some token := by
  obtain ⟨o, raw, cmd, hevent, hparse, _, ⟨_, _, _, htoken, _⟩, _⟩ := h
  rw [hevent]
  show (apduParser raw).map _ = some token
  rw [hparse, Option.map_some, htoken]

/-- The bytes of a token named `B` of another UID. -/
def otherToken : Bytes := 1 :: (List.replicate tokenUidLen 5 ++ [1, 66, 1, 66])

/-- The registry is filled, and a transaction of the first token begun. Another command finds the registry full and clears
it, and another token is registered in its place: the output is shown in the symbol of that one. -/
theorem shows_symbol_of_other :
    ∃ h r index address amount, Run (waitingSystem countingPlatform) (r :: h) r.post ∧
      Obs.display (.txOutput index address amount) ∈ r.seen ∧
      ¬∃ output, r.post.Shows countingPlatform output ∧ r.post.screen = .txOutput index address amount ∧
        (output.tokenIndex ≠ 0 → NamesToken countingPlatform h r.post.tx output amount) := by
  obtain ⟨h, r, _, run, hP⟩ := exists_step_of_play countingPlatform true (List.replicate 32 1)
    (sendTokenData 0 (tokenData [65] [66] ++ List.replicate 31 0 ++ [2]) ::
      (List.replicate 9 (sendTokenData 1 (tokenData [65] [66] ++ List.replicate 31 0 ++ [2])) ++
      [signTxData 0 ([0, 0, 1, 1, 0, 1] ++ List.replicate 32 0),
        sendTokenData 1 (tokenData [65] [66] ++ List.replicate 31 0 ++ [2]),
        sendTokenData 1 (otherToken ++ List.replicate 31 0 ++ [2])]))
    (signTxData 1 sampleTokenOutput)
    (fun h r =>
      (∃ output ∈ r.post.tx.outputs,
        Obs.display (outputScreen countingPlatform r.post.tx output [66, 32, 48, 46, 48, 49]) ∈ r.seen) ∧
      (r.post.tx.outputs[r.post.tx.displayIndex]?.map fun output => (output.tokenIndex, output.value)) = some (1, 1) ∧
      (r.post.tx.sha256.map fun m => (m.drop 5).take tokenUidLen) = some (List.replicate 32 0) ∧
      ∀ r' ∈ h, (r'.event.carriedToken.bind fun token =>
        if token.uid = List.replicate 32 0 then amountText (cString token.symbol) 1 else none) ≠ some [66, 32, 48, 46, 48, 49])
    (by decide +kernel)
  obtain ⟨⟨_, _, hmem⟩, houtput, hsha, hothers⟩ := of_decide_eq_true hP
  refine ⟨h, r, _, _, _, run, hmem, ?_⟩
  rintro ⟨output, hshows, _, hnames⟩
  rw [hshows.slot, Option.map_some, Option.some.injEq, Prod.mk.injEq] at houtput
  obtain ⟨hindex, hvalue⟩ := houtput
  have hcustom : output.tokenIndex ≠ 0 := by
    rw [hindex]
    decide
  obtain ⟨m, hm, _, _, r', hr', token, haccepts, huid, hamount⟩ := hnames hcustom
  rw [hm, Option.map_some, Option.some.injEq] at hsha
  rw [hindex] at huid
  rw [hvalue] at hamount
  apply hothers r' hr'
  rw [haccepts.carried, Option.bind_some, if_pos (huid.trans hsha)]
  exact hamount

end Step

end HathorApp
