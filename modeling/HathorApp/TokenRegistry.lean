import HathorApp.Runs
import HathorApp.TokenBinding

/-!
The token registry. It is cleared as a whole or grows by one entry at a time, and an entry is made of a
token whose signature was verified when it was added. Whatever the commands and their order, the entries
in use are those of the tokens accepted since the registry was cleared last.
-/

namespace HathorApp

open ProgramLogic StreamDecoder TraceRun

/-- The entry holds a token: its uid, and its symbol up to the first NUL, in an array that is terminated
within its bounds. -/
structure TokenSymbol.Holds (entry : TokenSymbol) (token : Token) : Prop where
  uid : entry.uid = token.uid
  symbol : cString entry.symbol = cString token.symbol
  length : (cString entry.symbol).length ≤ maxTokenSymbolLen
  terminated : 0 ∈ entry.symbol

/-- The registry keeps within its array, and so do the symbols of its slots. -/
structure TokenDataCtx.Sound (registry : TokenDataCtx) : Prop where
  len : registry.len ≤ txMaxTokens
  slots : registry.tokens.length = txMaxTokens
  symbols : ∀ entry ∈ registry.tokens, entry.symbol.length = maxTokenSymbolLen + 1

theorem sound_zero : zeroTokenDataCtx.Sound := by
  refine ⟨Nat.zero_le _, List.length_replicate, fun entry hentry => ?_⟩
  rw [List.eq_of_mem_replicate hentry]
  rfl

theorem TokenSymbol.store_holds {token : Token} (hwf : token.WellFormed) (old : TokenSymbol) :
    (old.store token).Holds token := by
  have htake : token.symbol.take token.symbolLen = token.symbol := by
    rw [← hwf.symbol, List.take_length]
  have hsymbol : cString (old.store token).symbol = cString token.symbol := by
    unfold TokenSymbol.store
    rw [htake]
    rw [List.append_assoc]
    exact cString_append_nul _ _
  refine ⟨rfl, hsymbol, ?_, ?_⟩
  · rw [hsymbol]
    calc
      (cString token.symbol).length ≤ token.symbol.length := (List.takeWhile_sublist _).length_le
      _ = token.symbolLen := hwf.symbol
      _ ≤ maxTokenSymbolLen := hwf.symbolLen
  · unfold TokenSymbol.store
    simp

theorem TokenSymbol.length_store {token : Token} (hwf : token.WellFormed) {old : TokenSymbol}
    (hold : old.symbol.length = maxTokenSymbolLen + 1) :
    (old.store token).symbol.length = maxTokenSymbolLen + 1 := by
  have hlen := hwf.symbol
  have hmax := hwf.symbolLen
  unfold TokenSymbol.store
  simp only [List.length_append, List.length_take, List.length_drop, List.length_singleton]
  omega

section Add

variable {registry : TokenDataCtx} {token : Token}

/-- The token is added behind the entries in use. -/
theorem TokenDataCtx.add_eq (hwf : token.WellFormed) :
    registry.add token = ⟨registry.len + 1, registry.tokens.set registry.len
      ((registry.tokens.getD registry.len zeroTokenSymbol).store token)⟩ := by
  have hshort : ¬token.symbolLen > maxTokenSymbolLen := Nat.not_lt.mpr hwf.symbolLen
  unfold TokenDataCtx.add
  dsimp only
  rw [if_neg hshort]

theorem TokenDataCtx.Sound.add (hsound : registry.Sound) (hroom : registry.len < txMaxTokens)
    (hwf : token.WellFormed) : (registry.add token).Sound := by
  have hold : registry.len < registry.tokens.length := by
    rw [hsound.slots]
    exact hroom
  rw [TokenDataCtx.add_eq hwf]
  refine ⟨hroom, ?_, fun entry hentry => ?_⟩
  · rw [List.length_set]
    exact hsound.slots
  · rcases List.mem_or_eq_of_mem_set hentry with hmem | rfl
    · exact hsound.symbols entry hmem
    · apply TokenSymbol.length_store hwf
      rw [List.getD_eq_getElem _ _ hold]
      exact hsound.symbols _ (List.getElem_mem hold)

theorem TokenDataCtx.getD_add (hwf : token.WellFormed) {k : Nat} (hk : k < registry.len) :
    (registry.add token).tokens.getD k zeroTokenSymbol = registry.tokens.getD k zeroTokenSymbol := by
  rw [TokenDataCtx.add_eq hwf, List.getD_eq_getElem?_getD, List.getElem?_set_ne (by omega),
    ← List.getD_eq_getElem?_getD]

theorem TokenDataCtx.getD_add_last (hsound : registry.Sound) (hroom : registry.len < txMaxTokens)
    (hwf : token.WellFormed) :
    (registry.add token).tokens.getD registry.len zeroTokenSymbol =
      (registry.tokens.getD registry.len zeroTokenSymbol).store token := by
  rw [TokenDataCtx.add_eq hwf, List.getD_eq_getElem?_getD, List.getElem?_set_self]
  · rfl
  · rw [hsound.slots]
    exact hroom

end Add

/-- The index of the first entry in use with the uid, if there is one. -/
theorem findTokenRegistryIndex_some {registry : TokenDataCtx} {uid : Bytes} {i : Nat}
    (h : findTokenRegistryIndex registry uid = some i) :
    i < registry.len ∧ (registry.tokens.getD i zeroTokenSymbol).uid = uid := by
  unfold findTokenRegistryIndex at h
  have hmem := List.mem_of_find?_eq_some h
  have hfound := List.find?_some h
  rw [List.mem_range] at hmem
  exact ⟨hmem, of_decide_eq_true hfound⟩

theorem findTokenRegistryIndex_eq_none {registry : TokenDataCtx} {uid : Bytes} :
    findTokenRegistryIndex registry uid = none ↔
      ∀ i < registry.len, (registry.tokens.getD i zeroTokenSymbol).uid ≠ uid := by
  unfold findTokenRegistryIndex
  rw [List.find?_eq_none]
  constructor
  · intro h i hi heq
    exact h i (List.mem_range.mpr hi) (decide_eq_true heq)
  · intro h i hi heq
    exact h i (List.mem_range.mp hi) (of_decide_eq_true heq)

section Runs

variable {pf : Platform} {h : History Device Event Obs} {d d' : Device} {e : Event} {w : List Obs}

/-- The step accepts a token: a SEND_TOKEN_DATA command carries it with a signature that is valid under
the secret stored at that moment, and is answered with SW_OK. -/
def Accepts (pf : Platform) (r : Step Device Event Obs) (token : Token) : Prop :=
  ∃ o raw cmd, r.event = .apdu o raw ∧ apduParser raw = some cmd ∧ cmd.SendsToken ∧
    TokenAccepted pf (secretFor o r.pre) (Buffer.ofData cmd.data) token ∧ Obs.response [] swOk ∈ r.seen

/-- The step clears the registry: a SEND_TOKEN_DATA command that is the first of a series or finds the
registry full, or a start of the application. -/
def ClearsRegistry (r : Step Device Event Obs) : Prop :=
  Obs.restart ∈ r.seen ∨ ∃ o raw cmd, r.event = .apdu o raw ∧ apduParser raw = some cmd ∧ cmd.SendsToken ∧
    (cmd.p1 = 0 ∨ txMaxTokens ≤ r.pre.gTokenSymbols.len)

/-- The entry of a token accepted since the registry was cleared last. -/
def AcceptedEntry (pf : Platform) (h : History Device Event Obs) (entry : TokenSymbol) : Prop :=
  ∃ later r earlier token, h = later ++ r :: earlier ∧ Accepts pf r token ∧
    (∀ r' ∈ later, ¬ClearsRegistry r') ∧ entry.Holds token

/-- What one step does to the registry. -/
inductive RegistryStep (pf : Platform) (r : Step Device Event Obs) : Prop where
  | kept (quiet : ¬ClearsRegistry r) (same : r.post.gTokenSymbols = r.pre.gTokenSymbols)
  | cleared (clears : ClearsRegistry r) (empty : r.post.gTokenSymbols = zeroTokenDataCtx)
  /-- A token is added to the entries in use, which the same command may have cleared. -/
  | added {token : Token} {base : TokenDataCtx} (accepts : Accepts pf r token)
      (origin : ClearsRegistry r ∧ base = zeroTokenDataCtx ∨ ¬ClearsRegistry r ∧ base = r.pre.gTokenSymbols)
      (room : base.len < txMaxTokens) (wellFormed : token.WellFormed)
      (grown : r.post.gTokenSymbols = base.add token)
      (answered : ∀ data sw, Obs.response data sw ∈ r.seen → sw = swOk)

theorem TokenAccepted.wellFormed {secret data : Bytes} {token : Token}
    (h : TokenAccepted pf secret (Buffer.ofData data) token) : token.WellFormed := by
  obtain ⟨_, _, _, hparse, _⟩ := h
  exact parseToken_wellFormed (Nat.le_refl _) hparse

theorem secretFor_wake (o : Outcome) (d : Device) : secretFor o (wake d) = secretFor o d := by
  obtain ⟨io, hwake⟩ := wake_eq d
  rw [hwake]
  rfl

/-- A step that is no SEND_TOKEN_DATA command and no restart. -/
theorem registryStep_kept (hother : ¬e.SendsToken) (hseen : Obs.restart ∉ w)
    (hsame : d'.gTokenSymbols = d.gTokenSymbols) : RegistryStep pf ⟨d, e, w, d'⟩ := by
  refine .kept (fun hclears => ?_) hsame
  rcases hclears with hrestart | ⟨o, raw, cmd, hevent, hparse, hsends, _⟩
  · exact hseen hrestart
  · exact hother ⟨o, raw, cmd, hevent, hparse, hsends⟩

theorem Settles.registry {d₁ : Device} {r : Ending} (h : Settles d₁ r d' w) :
    d'.gTokenSymbols = zeroTokenDataCtx ∧ Obs.restart ∈ w ∨
      d'.gTokenSymbols = d₁.gTokenSymbols ∧ Obs.restart ∉ w := by
  cases h with
  | resumes => exact Or.inr ⟨rfl, r.plain_reply.no_restart⟩
  | restarts => exact Or.inl ⟨rfl, List.mem_append_right _ (List.mem_singleton_self _)⟩

/-- The command loop replies to nothing a handler returned from. -/
theorem Settles.no_reply {d₁ : Device} {v : Int} (h : Settles d₁ (.ret v) d' w) (data : Bytes) (sw : Nat) :
    Obs.response data sw ∉ w := by
  cases h with
  | resumes => simp [Ending.reply]
  | restarts => simp [Ending.reply]

theorem DisplayEnds.registry {d₁ : Device} (h : DisplayEnds pf d d₁ w) :
    d₁.gTokenSymbols = d.gTokenSymbols ∧ Obs.restart ∉ w := by
  cases h with
  | checked check => cases check <;> exact ⟨rfl, by simp⟩
  | failed => exact ⟨rfl, by simp⟩
  | shown => exact ⟨rfl, by simp [outputScreen]⟩

variable {o : Outcome} {s : TxState}

theorem DecodeEffect.registry {accepted : Bool} {d₁ : Device} (h : DecodeEffect pf o s d accepted d₁ w) :
    d₁.gTokenSymbols = d.gTokenSymbols ∧ Obs.restart ∉ w := by
  cases h with
  | rejected silent => exact ⟨rfl, by simp [silent.no_restart]⟩
  | broken silent => exact ⟨rfl, silent.no_restart⟩
  | awaits silent => exact ⟨rfl, by simp [silent.no_restart]⟩
  | displays silent _ _ _ _ _ ends =>
      refine ⟨ends.registry.1, fun hmem => ?_⟩
      exact (List.mem_append.mp hmem).elim silent.no_restart ends.registry.2

theorem DataEffect.registry {data : Bytes} {chunk : Nat} {r : Ending} {d₁ : Device}
    (h : DataEffect pf o data chunk s d r d₁ w) : d₁.gTokenSymbols = d.gTokenSymbols ∧ Obs.restart ∉ w := by
  cases h with
  | dropped => exact ⟨rfl, by simp⟩
  | busy => exact ⟨rfl, by simp⟩
  | headerUnread => exact ⟨rfl, by simp⟩
  | started _ _ _ _ _ _ _ effect => exact effect.registry
  | notHashed => exact ⟨rfl, by simp⟩
  | notCopied => exact ⟨rfl, by simp⟩
  | continued _ _ _ _ effect => exact effect.registry

theorem SignEffect.no_restart {data : Bytes} {v : Int} {d₁ : Device} (h : SignEffect pf o data d v d₁ w) :
    Obs.restart ∉ w := by
  have hreply : ∀ signature sw, Obs.restart ≠ replyOf signature sw := by
    intro signature sw
    unfold replyOf
    split <;> nofun
  cases h with
  | unapproved => simp
  | unread => simp
  | pathless => simp
  | failed _ _ _ sighash => cases sighash <;> simp
  | signed _ _ _ sighash => cases sighash; simp [hreply]

/-- A SIGN_TX command changes nothing of the registry. -/
theorem registryStep_signTx {raw : Bytes} {cmd : Command} {r : Ending} {d₁ : Device} {w₁ w₂ : List Obs}
    (hparse : apduParser raw = some cmd) (is : cmd.Is insSignTx)
    (heffect : d₁.gTokenSymbols = d.gTokenSymbols ∧ Obs.restart ∉ w₁) (settles : Settles d₁ r d' w₂) :
    RegistryStep pf ⟨d, .apdu o raw, w₁ ++ w₂, d'⟩ := by
  have hother : ¬(Event.apdu o raw).SendsToken := by
    rintro ⟨_, _, cmd', ⟨⟩, hcmd, hsends⟩
    obtain rfl : cmd = cmd' := Option.some.inj (hparse.symm.trans hcmd)
    exact is.not_sendsToken (by decide) hsends
  rcases settles.registry with ⟨hempty, hrestart⟩ | ⟨hsame, hquiet⟩
  · exact .cleared (Or.inl (List.mem_append_right _ hrestart)) hempty
  · refine registryStep_kept hother (fun hmem => ?_) (hsame.trans heffect.1)
    exact (List.mem_append.mp hmem).elim heffect.2 hquiet

theorem Moves.registryStep (hmoves : Moves pf s d e d' w) : RegistryStep pf ⟨d, e, w, d'⟩ := by
  cases hmoves with
  | aside other effect => exact registryStep_kept other effect.seen.no_restart effect.registry
  | restarts => exact .cleared (Or.inl (List.mem_append_right _ (List.mem_singleton_self _))) rfl
  | @registers o raw cmd _ d₁ _ w₁ w₂ parse sends effect settles =>
      rcases settles.registry with ⟨hempty, hrestart⟩ | ⟨hsame, hquiet⟩
      · exact .cleared (Or.inl (List.mem_append_right _ hrestart)) hempty
      have hclears : ClearsRegistry ⟨d, .apdu o raw, w₁ ++ w₂, d'⟩ ↔
          cmd.p1 = 0 ∨ txMaxTokens ≤ d.gTokenSymbols.len := by
        constructor
        · rintro (hrestart | ⟨_, _, cmd', ⟨⟩, hcmd, _, hclears⟩)
          · exact absurd hrestart fun hmem => (List.mem_append.mp hmem).elim effect.aside.seen.no_restart hquiet
          · obtain rfl : cmd = cmd' := Option.some.inj (parse.symm.trans hcmd)
            exact hclears
        · exact fun h => Or.inr ⟨o, raw, cmd, rfl, parse, sends, h⟩
      have hbase : cmd.p1 = 0 ∧ ((wake d).registryBase (decide (cmd.p1 = 0))).gTokenSymbols = zeroTokenDataCtx ∨
          cmd.p1 ≠ 0 ∧ ((wake d).registryBase (decide (cmd.p1 = 0))).gTokenSymbols = d.gTokenSymbols := by
        by_cases hfirst : cmd.p1 = 0
        · rw [decide_eq_true hfirst]
          exact Or.inl ⟨hfirst, rfl⟩
        · rw [decide_eq_false hfirst]
          exact Or.inr ⟨hfirst, wake_gTokenSymbols d⟩
      cases effect with
      | emptied full part =>
          refine .cleared (hclears.mpr ?_) (hsame.trans (Device.registry_of_part part))
          rcases hbase with ⟨hfirst, _⟩ | ⟨_, hkept⟩
          · exact Or.inl hfirst
          · rw [hkept] at full
            exact Or.inr full
      | kept _ room part =>
          have hregistry := hsame.trans (Device.registry_of_part part)
          rcases hbase with ⟨hfirst, hzero⟩ | ⟨hlater, hkept⟩
          · exact .cleared (hclears.mpr (Or.inl hfirst)) (hregistry.trans hzero)
          · rw [hkept] at room
            exact .kept (fun h => (hclears.mp h).elim hlater (Nat.not_le.mpr room)) (hregistry.trans hkept)
      | added room accepted part =>
          have hregistry := hsame.trans (Device.registry_of_part part)
          have haccepts : Accepts pf ⟨d, .apdu o raw, [.response [] swOk] ++ w₂, d'⟩ _ :=
            ⟨o, raw, cmd, rfl, parse, sends, secretFor_wake o d ▸ accepted,
              List.mem_append_left _ List.mem_cons_self⟩
          refine .added haccepts ?_ room accepted.wellFormed hregistry fun data sw hmem => ?_
          · rcases hbase with ⟨hfirst, hzero⟩ | ⟨hlater, hkept⟩
            · exact Or.inl ⟨hclears.mpr (Or.inl hfirst), hzero⟩
            · refine Or.inr ⟨fun h => ?_, hkept⟩
              rw [hkept] at room
              exact (hclears.mp h).elim hlater (Nat.not_le.mpr room)
          · rcases List.mem_append.mp hmem with hmem | hmem
            · cases List.mem_singleton.mp hmem
              rfl
            · exact absurd hmem (settles.no_reply data sw)
  | data parse is _ effect settles =>
      have heffect := effect.registry
      rw [show d.entered.gTokenSymbols = d.gTokenSymbols from wake_gTokenSymbols d] at heffect
      exact registryStep_signTx parse is heffect settles
  | sign parse is _ effect settles =>
      refine registryStep_signTx parse is ⟨?_, effect.no_restart⟩ settles
      obtain ⟨path, tx, rfl, _⟩ := effect.frame
      exact wake_gTokenSymbols d
  | approved => exact registryStep_kept press_not_sendsToken (by simp) rfl
  | confirmed _ _ ends => exact registryStep_kept press_not_sendsToken ends.registry.2 ends.registry.1

/-- The registry holds the tokens accepted since it was cleared last, within its array. -/
structure RegistryOf (pf : Platform) (h : History Device Event Obs) (registry : TokenDataCtx) : Prop where
  sound : registry.Sound
  entries : ∀ k < registry.len, AcceptedEntry pf h (registry.tokens.getD k zeroTokenSymbol)

theorem registryOf_zero : RegistryOf pf h zeroTokenDataCtx :=
  ⟨sound_zero, fun k hk => absurd hk (Nat.not_lt_zero k)⟩

theorem AcceptedEntry.later {r : Step Device Event Obs} {entry : TokenSymbol} (hentry : AcceptedEntry pf h entry)
    (hquiet : ¬ClearsRegistry r) : AcceptedEntry pf (r :: h) entry := by
  obtain ⟨later, r', earlier, token, rfl, haccepts, hlater, hholds⟩ := hentry
  exact ⟨r :: later, r', earlier, token, rfl, haccepts, List.forall_mem_cons.mpr ⟨hquiet, hlater⟩, hholds⟩

theorem RegistryStep.registryOf {r : Step Device Event Obs} (hstep : RegistryStep pf r)
    (hd : RegistryOf pf h r.pre.gTokenSymbols) : RegistryOf pf (r :: h) r.post.gTokenSymbols := by
  cases hstep with
  | kept quiet same =>
      rw [same]
      exact ⟨hd.sound, fun k hk => (hd.entries k hk).later quiet⟩
  | cleared _ empty =>
      rw [empty]
      exact registryOf_zero
  | @added token base accepts origin room wellFormed grown =>
      have hbase : base.Sound ∧ ∀ k < base.len, AcceptedEntry pf (r :: h) (base.tokens.getD k zeroTokenSymbol) := by
        rcases origin with ⟨_, rfl⟩ | ⟨quiet, rfl⟩
        · exact ⟨sound_zero, fun k hk => absurd hk (Nat.not_lt_zero k)⟩
        · exact ⟨hd.sound, fun k hk => (hd.entries k hk).later quiet⟩
      rw [grown]
      refine ⟨hbase.1.add room wellFormed, fun k hk => ?_⟩
      rw [TokenDataCtx.add_eq wellFormed] at hk
      rcases Nat.lt_succ_iff_lt_or_eq.mp hk with hbelow | rfl
      · rw [TokenDataCtx.getD_add wellFormed hbelow]
        exact hbase.2 k hbelow
      · rw [TokenDataCtx.getD_add_last hbase.1 room wellFormed]
        have hnone : ∀ r' ∈ ([] : History Device Event Obs), ¬ClearsRegistry r' :=
          fun _ hr' => absurd hr' List.not_mem_nil
        exact ⟨[], r, h, token, rfl, accepts, hnone, TokenSymbol.store_holds wellFormed _⟩

theorem run_registryOf (run : Run (freeSystem pf) h d) : RegistryOf pf h d.gTokenSymbols := by
  apply free_invariant_all (I := fun h d => RegistryOf pf h d.gTokenSymbols) _ _ run
  · exact fun _ => registryOf_zero
  · intro h d e d' w _ hd hmoves
    have hstep := (hmoves _ d.tx.represents_someState).registryStep
    exact hstep.registryOf hd

/-- The entries in use change by a clearing of the whole registry only. -/
def KeepsEntries (r : Step Device Event Obs) : Prop :=
  ClearsRegistry r ∨ r.pre.gTokenSymbols.len ≤ r.post.gTokenSymbols.len ∧ ∀ k < r.pre.gTokenSymbols.len,
    r.post.gTokenSymbols.tokens.getD k zeroTokenSymbol = r.pre.gTokenSymbols.tokens.getD k zeroTokenSymbol

/-- What is answered with an error leaves the registry as it was or empty. -/
def ErrorKeeps (r : Step Device Event Obs) : Prop :=
  ∀ data sw, sw ≠ swOk → Obs.response data sw ∈ r.seen →
    r.post.gTokenSymbols = r.pre.gTokenSymbols ∨ r.post.gTokenSymbols = zeroTokenDataCtx

theorem RegistryStep.keepsEntries {r : Step Device Event Obs} (hstep : RegistryStep pf r) : KeepsEntries r := by
  cases hstep with
  | kept _ same =>
      rw [KeepsEntries, same]
      exact Or.inr ⟨Nat.le_refl _, fun _ _ => rfl⟩
  | cleared clears => exact Or.inl clears
  | @added token _ _ origin _ wellFormed grown =>
      rcases origin with ⟨clears, _⟩ | ⟨_, rfl⟩
      · exact Or.inl clears
      · have hlen : (r.pre.gTokenSymbols.add token).len = r.pre.gTokenSymbols.len + 1 := by
          rw [TokenDataCtx.add_eq wellFormed]
        rw [KeepsEntries, grown, hlen]
        refine Or.inr ⟨Nat.le_succ _, fun k hk => ?_⟩
        rw [TokenDataCtx.getD_add wellFormed hk]

theorem RegistryStep.errorKeeps {r : Step Device Event Obs} (hstep : RegistryStep pf r) : ErrorKeeps r := by
  intro data sw hsw hmem
  cases hstep with
  | kept _ same => exact Or.inl same
  | cleared _ empty => exact Or.inr empty
  | added _ _ _ _ _ answered => exact absurd (answered data sw hmem) hsw

theorem registryStep_of_run {r : Step Device Event Obs} (run : Run (freeSystem pf) h d) (hr : r ∈ h) :
    RegistryStep pf r := by
  obtain ⟨later, earlier, rfl⟩ := List.append_of_mem hr
  obtain ⟨hbefore, _, ret⟩ := run.before
  exact (moves_of_ret hbefore ret r.pre.tx.represents_someState).registryStep

/-- In every run the registry holds the tokens accepted since it was cleared last, each uid is looked up to
the index of an entry that has it, and every step leaves the entries in use alone but for a clearing of
all of them; what is answered with an error leaves the registry as it was or empty. -/
theorem registry_holds_accepted (run : Run (freeSystem pf) h d) :
    RegistryOf pf h d.gTokenSymbols ∧
      (∀ uid, findTokenRegistryIndex d.gTokenSymbols uid = none ↔
        ∀ i < d.gTokenSymbols.len, (d.gTokenSymbols.tokens.getD i zeroTokenSymbol).uid ≠ uid) ∧
      (∀ uid i, findTokenRegistryIndex d.gTokenSymbols uid = some i →
        i < d.gTokenSymbols.len ∧ (d.gTokenSymbols.tokens.getD i zeroTokenSymbol).uid = uid) ∧
      ∀ r ∈ h, KeepsEntries r ∧ ErrorKeeps r := by
  refine ⟨run_registryOf run, fun _ => findTokenRegistryIndex_eq_none, fun _ _ => findTokenRegistryIndex_some, ?_⟩
  intro r hr
  have hstep := registryStep_of_run run hr
  exact ⟨hstep.keepsEntries, hstep.errorKeeps⟩

/-- A token is added, another one is refused. -/
theorem registry_holds_accepted_one :
    ∃ h d, Run (freeSystem countingPlatform) h d ∧ d.gTokenSymbols.len = 1 ∧
      RegistryOf countingPlatform h d.gTokenSymbols ∧ ∀ r ∈ h, KeepsEntries r ∧ ErrorKeeps r := by
  obtain ⟨h, r, _, run, hP⟩ := exists_step_of_play countingPlatform false (List.replicate 32 1)
    [sendTokenData 0 (tokenData [65] [66] ++ List.replicate 31 0 ++ [2])]
    (sendTokenData 1 (tokenData [66] [66] ++ List.replicate 32 0))
    (fun _ r => r.post.gTokenSymbols.len = 1) (by decide +kernel)
  obtain ⟨hregistry, _, _, hsteps⟩ := registry_holds_accepted run
  exact ⟨r :: h, r.post, run, of_decide_eq_true hP, hregistry, hsteps⟩

end Runs

end HathorApp
