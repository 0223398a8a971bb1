import HathorApp.StoredSecret
import HathorApp.TokenRegistry
import HathorApp.TokenTable

/-!
What a reset of the token signatures reaches. The press that approves it puts another secret in the flash and
leaves the registry as it is, so that a session still finds the UIDs that were registered before. A UID that
was not among them is found again only after its token has been accepted with a signature under the new
secret.
-/

namespace HathorApp

open ProgramLogic StreamDecoder TraceRun

/-- A session decodes the UID in the event: the loop over the chunk comes to a token that is announced,
complete and in the registry. -/
def DecodesUid (pf : Platform) (d : Device) (e : Event) (uid : Bytes) : Prop :=
  ∃ o d₁ tx, TakesChunk d e o d₁ ∧ LoopReaches (verifyChange pf o) d₁.gTokenSymbols d₁.tx tx ∧
    WritesToken d₁.gTokenSymbols tx ∧ tx.buffer.take tokenUidLen = uid

instance (registry : TokenDataCtx) (tx : SignTxCtx) : Decidable (WritesToken registry tx) :=
  decidable_of_iff (0 < tx.remainingTokens ∧ tokenUidLen ≤ tx.buffer.length ∧
      findTokenRegistryIndex registry (tx.buffer.take tokenUidLen) ≠ none)
    ⟨fun h => ⟨h.1, h.2.1, h.2.2⟩, fun h => ⟨h.pending, h.complete, h.known⟩⟩

/-- The first element of the chunk is the UID. -/
def BeginsWithUid (d : Device) (e : Event) (uid : Bytes) : Prop :=
  ∃ o d₁, TakesChunk d e o d₁ ∧ WritesToken d₁.gTokenSymbols d₁.tx ∧ d₁.tx.buffer.take tokenUidLen = uid

instance (d : Device) (e : Event) (uid : Bytes) : Decidable (BeginsWithUid d e uid) :=
  decidableTakesChunk d e fun d₁ => WritesToken d₁.gTokenSymbols d₁.tx ∧ d₁.tx.buffer.take tokenUidLen = uid

instance (d : Device) (e : Event) : Decidable (d.Resets e) :=
  match e with
  | .press o true => decidable_of_iff (d.flow.asks = true ∧ d.gValidateCallback = some .uiConfirmResetTokenSignatures)
      ⟨fun h => ⟨o, rfl, h⟩, fun ⟨_, _, h⟩ => h⟩
  | .press _ false => isFalse fun ⟨_, he, _⟩ => nomatch he
  | .apdu .. => isFalse fun ⟨_, he, _⟩ => nomatch he
  | .quit => isFalse fun ⟨_, he, _⟩ => nomatch he

theorem BeginsWithUid.decodesUid (pf : Platform) {d : Device} {e : Event} {uid : Bytes} (h : BeginsWithUid d e uid) :
    DecodesUid pf d e uid := by
  obtain ⟨o, d₁, htaken, hwrites, huid⟩ := h
  exact ⟨o, d₁, d₁.tx, htaken, .start, hwrites, huid⟩

theorem takeChunk_registry (o : Outcome) {data : Bytes} (hdata : data.length ≤ decodeBufferLen) (chunk : Nat) :
    Within (fun d d' _ => d'.gTokenSymbols = d.gTokenSymbols) (takeChunk o (Buffer.ofData data) chunk) := by
  intro d
  rcases Nat.eq_zero_or_pos chunk with rfl | hlater
  · by_cases hstate : d.state = .recvData
    · unfold takeChunk
      rw [if_pos rfl, wp_bind, wp_get, if_pos hstate]
      rfl
    · apply wp_mono (takeChunk_first_spec o hdata d hstate) _ _ False.elim
      · rintro _ d' w ⟨_, _, _, _, _, _, _, _, rfl⟩
        rfl
      · rintro e d' w ⟨_, _, _, rfl⟩
        rfl
  · rw [takeChunk_later o hlater]
    cases cxHashNoThrow o d.tx.sha256 data with
    | none => rfl
    | some m =>
        dsimp only
        split <;> rfl

theorem TakesChunk.registry {d d₁ : Device} {e : Event} {o : Outcome} (htaken : TakesChunk d e o d₁) :
    d₁.gTokenSymbols = d.gTokenSymbols := by
  obtain ⟨raw, cmd, _, hparse, _, _, _, _, _, ret⟩ := htaken
  have hlimit : decodeBufferLen = 300 := rfl
  have hlen : cmd.data.length ≤ 255 := apduParser_fits hparse
  have hkept := takeChunk_registry o (show cmd.data.length ≤ decodeBufferLen by omega) cmd.p2 d.entered
  rw [wp_of_ret ret] at hkept
  calc
    d₁.gTokenSymbols = d.entered.gTokenSymbols := hkept
    _ = d.gTokenSymbols := wake_gTokenSymbols d

/-- What a session decodes is in the registry when the chunk comes in. -/
theorem DecodesUid.registered {pf : Platform} {d : Device} {e : Event} {uid : Bytes} (h : DecodesUid pf d e uid) :
    findTokenRegistryIndex d.gTokenSymbols uid ≠ none := by
  obtain ⟨o, d₁, tx, htaken, _, hwrites, rfl⟩ := h
  rw [← htaken.registry]
  exact hwrites.known

section Origin

variable {pf : Platform} {registry : TokenDataCtx} {token : Token} {uid : Bytes}

/-- A UID that is found after a token was added was found before, or is that of the token. -/
theorem found_of_add (hsound : registry.Sound) (hroom : registry.len < txMaxTokens) (hwf : token.WellFormed)
    (hfound : findTokenRegistryIndex (registry.add token) uid ≠ none) :
    findTokenRegistryIndex registry uid ≠ none ∨ token.uid = uid := by
  obtain ⟨i, hi⟩ := Option.ne_none_iff_exists'.mp hfound
  obtain ⟨hlen, huid⟩ := findTokenRegistryIndex_some hi
  rw [TokenDataCtx.add_eq hwf] at hlen
  rcases Nat.lt_succ_iff_lt_or_eq.mp hlen with hbelow | rfl
  · left
    intro hnone
    rw [TokenDataCtx.getD_add hwf hbelow] at huid
    exact findTokenRegistryIndex_eq_none.mp hnone i hbelow huid
  · right
    rw [TokenDataCtx.getD_add_last hsound hroom hwf] at huid
    exact huid

theorem not_found_zero : findTokenRegistryIndex zeroTokenDataCtx uid = none :=
  findTokenRegistryIndex_eq_none.mpr fun i hi => absurd hi (Nat.not_lt_zero i)

theorem RegistryStep.found {r : Step Device Event Obs} (hstep : RegistryStep pf r)
    (hsound : r.pre.gTokenSymbols.Sound) (hfound : findTokenRegistryIndex r.post.gTokenSymbols uid ≠ none) :
    findTokenRegistryIndex r.pre.gTokenSymbols uid ≠ none ∨ ∃ token, Accepts pf r token ∧ token.uid = uid := by
  cases hstep with
  | kept _ same =>
      rw [same] at hfound
      exact Or.inl hfound
  | cleared _ empty =>
      rw [empty] at hfound
      exact absurd not_found_zero hfound
  | @added token base accepts origin room wellFormed grown =>
      rw [grown] at hfound
      rcases origin with ⟨_, rfl⟩ | ⟨_, rfl⟩
      · rcases found_of_add sound_zero room wellFormed hfound with hbefore | huid
        · exact absurd not_found_zero hbefore
        · exact Or.inr ⟨token, accepts, huid⟩
      · rcases found_of_add hsound room wellFormed hfound with hbefore | huid
        · exact Or.inl hbefore
        · exact Or.inr ⟨token, accepts, huid⟩

/-- A UID that was not in the registry after some step and is there now was accepted in between. -/
theorem accepted_since {later earlier : History Device Event Obs} {r : Step Device Event Obs} {d : Device}
    (run : Run (freeSystem pf) (later ++ r :: earlier) d) (hr : findTokenRegistryIndex r.post.gTokenSymbols uid = none)
    (hfound : findTokenRegistryIndex d.gTokenSymbols uid ≠ none) :
    ∃ after a before token, later = after ++ a :: before ∧ Accepts pf a token ∧ token.uid = uid := by
  induction later generalizing d with
  | nil =>
      cases run
      exact absurd hr hfound
  | cons last later ih =>
      have hstep := registryStep_of_run run List.mem_cons_self
      rw [List.cons_append] at run
      cases run with
      | @step _ pre _ _ _ run _ ret =>
          rcases hstep.found (run_registryOf run).sound hfound with hbefore | ⟨token, haccepts, huid⟩
          · obtain ⟨after, a, before, token, rfl, haccepts, huid⟩ := ih run hbefore
            exact ⟨_ :: after, a, before, token, rfl, haccepts, huid⟩
          · exact ⟨[], _, later, token, rfl, haccepts, huid⟩

end Origin

section Reset

variable {pf : Platform}

/-- The step accepts a token with the UID, carried with a signature that is valid under the secret. -/
def AcceptsUnder (pf : Platform) (secret : Bytes) (r : Step Device Event Obs) (uid : Bytes) : Prop :=
  ∃ o raw cmd token, r.event = .apdu o raw ∧ apduParser raw = some cmd ∧ cmd.SendsToken ∧
    TokenAccepted pf secret (Buffer.ofData cmd.data) token ∧ token.uid = uid ∧ Obs.response [] swOk ∈ r.seen

theorem Accepts.under {r : Step Device Event Obs} {token : Token} (h : Accepts pf r token) (hsecret : r.pre.HasSecret) :
    AcceptsUnder pf r.pre.secret r token.uid := by
  obtain ⟨o, raw, cmd, hevent, hparse, hsends, haccepted, hseen⟩ := h
  rw [secretFor_of_hasSecret o hsecret] at haccepted
  exact ⟨o, raw, cmd, token, hevent, hparse, hsends, haccepted, rfl, hseen⟩

/-- A press that approves a reset leaves the registry alone, and the secret is made of its random bytes. -/
theorem reset_post {r : Step Device Event Obs} (hreset : r.pre.Resets r.event)
    (ret : handle pf r.event r.pre = .ret () r.post r.seen) : r.post = r.pre.reset r.event.outcome := by
  obtain ⟨o, hevent, hasks, hcallback⟩ := hreset
  have hspec := handlePress_resets pf o hasks hcallback
  rw [hevent] at ret
  have ret' : handlePress pf o true r.pre = .ret () r.post r.seen := ret
  rw [wp_of_ret ret'] at hspec
  rw [hevent]
  exact hspec.1

/-- In every run, once a reset is approved while the UID is not in the registry, a session decodes the UID
only after a SEND_TOKEN_DATA command that carries it was accepted after the reset; up to the next reset that
is with a signature valid under the new secret. -/
theorem reset_forgets_unregistered {later earlier : History Device Event Obs} {reset : Step Device Event Obs}
    {d : Device} (run : Run (freeSystem pf) (later ++ reset :: earlier) d) (hreset : reset.pre.Resets reset.event)
    {uid : Bytes} (hunregistered : findTokenRegistryIndex reset.pre.gTokenSymbols uid = none) {e : Event}
    (hdecodes : DecodesUid pf d e uid) :
    ∃ after a before, later = after ++ a :: before ∧ (∃ token, Accepts pf a token ∧ token.uid = uid) ∧
      (reset.event.outcome.MakesSecret → (∀ r ∈ before, ¬r.pre.Resets r.event) →
        AcceptsUnder pf reset.post.secret a uid) := by
  obtain ⟨_, _, ret⟩ := run.before
  have hpost := reset_post hreset ret
  have hnone : findTokenRegistryIndex reset.post.gTokenSymbols uid = none := by
    rw [hpost]
    exact hunregistered
  obtain ⟨after, a, before, token, rfl, haccepts, rfl⟩ := accepted_since run hnone hdecodes.registered
  refine ⟨after, a, before, rfl, ⟨token, haccepts, rfl⟩, fun hrng hquiet => ?_⟩
  have hsecret : reset.post.HasSecret := by
    rw [hpost]
    exact hrng
  rw [List.append_assoc, List.cons_append] at run
  obtain ⟨hbefore, _, _⟩ := run.before
  have hstays : a.pre.secret = reset.post.secret := secret_stays hbefore hsecret hquiet
  rw [← hstays]
  apply haccepts.under
  rw [Device.HasSecret, hstays]
  exact hsecret

/-- A reset of a device that has no token, a token accepted under the new secret and a transaction of it. -/
theorem reset_forgets_unregistered_one :
    ∃ later reset earlier d e uid, Run (freeSystem countingPlatform) (later ++ reset :: earlier) d ∧
      reset.pre.Resets reset.event ∧ DecodesUid countingPlatform d e uid ∧
      ∃ after a before, later = after ++ a :: before ∧
        (∃ token, Accepts countingPlatform a token ∧ token.uid = uid) ∧
        AcceptsUnder countingPlatform reset.post.secret a uid := by
  obtain ⟨h, r, _, run, hP⟩ := exists_step_of_play countingPlatform false (List.replicate 32 1)
    [.apdu (.allOk []) [0xE0, 0x0A, 0, 0, 0], .press (.allOk (List.replicate 32 5)) true]
    (sendTokenData 0 (tokenData [65] [66] ++ List.replicate 31 0 ++ [2]))
    (fun h r => (h.head?.any fun s => s.pre.Resets s.event ∧ s.event.outcome.MakesSecret ∧
        findTokenRegistryIndex s.pre.gTokenSymbols (List.replicate 32 0) = none) ∧
      BeginsWithUid r.post (signTxData 0 ([0, 0, 1, 1, 0, 1] ++ List.replicate 32 0)) (List.replicate 32 0))
    (by decide +kernel)
  obtain ⟨hhead, hbegins⟩ := of_decide_eq_true hP
  cases h with
  | nil => cases hhead
  | cons reset earlier =>
      obtain ⟨hreset, hrng, hnone⟩ := of_decide_eq_true hhead
      have hdecodes := hbegins.decodesUid countingPlatform
      have run' : Run (freeSystem countingPlatform) ([r] ++ reset :: earlier) r.post := run
      obtain ⟨after, a, before, hlater, haccepted, hunder⟩ := reset_forgets_unregistered run' hreset hnone hdecodes
      have hbefore : before = [] := by
        have hlen := congrArg List.length hlater
        simp only [List.length_append, List.length_cons, List.length_nil] at hlen
        exact List.length_eq_zero_iff.mp (by omega)
      subst hbefore
      exact ⟨[r], reset, earlier, r.post, _, _, run, hreset, hdecodes, after, a, [], hlater, haccepted,
        hunder hrng fun _ hr => absurd hr List.not_mem_nil⟩

/-- A token is registered, a reset is approved and the secret is another one: the next transaction decodes
the UID of the token, and nothing was accepted in between. -/
theorem reset_keeps_registered :
    ∃ earlier reset e uid, Run (waitingSystem countingPlatform) ([] ++ reset :: earlier) reset.post ∧
      reset.pre.Resets reset.event ∧ reset.post.secret ≠ reset.pre.secret ∧ reset.post.HasSecret ∧
      DecodesUid countingPlatform reset.post e uid ∧
      ¬∃ after a before, ([] : History Device Event Obs) = after ++ a :: before ∧
        (∃ token, Accepts countingPlatform a token ∧ token.uid = uid) ∧
        AcceptsUnder countingPlatform reset.post.secret a uid := by
  obtain ⟨h, r, _, run, hP⟩ := exists_step_of_play countingPlatform true (List.replicate 32 1)
    [sendTokenData 0 (tokenData [65] [66] ++ List.replicate 31 0 ++ [2]), .apdu (.allOk []) [0xE0, 0x0A, 0, 0, 0]]
    (.press (.allOk (List.replicate 32 5)) true)
    (fun _ r => r.pre.Resets r.event ∧ r.post.secret ≠ r.pre.secret ∧ r.post.HasSecret ∧
      BeginsWithUid r.post (signTxData 0 ([0, 0, 1, 1, 0, 1] ++ List.replicate 32 0)) (List.replicate 32 0))
    (by decide +kernel)
  obtain ⟨hreset, hdiffer, hsecret, hbegins⟩ := of_decide_eq_true hP
  refine ⟨h, r, _, _, run, hreset, hdiffer, hsecret, hbegins.decodesUid countingPlatform, ?_⟩
  rintro ⟨after, a, before, hnil, _⟩
  exact absurd hnil.symm (by simp)

end Reset

end HathorApp
