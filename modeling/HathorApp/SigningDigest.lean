import HathorApp.ApprovalScreen

/-!
The digest an approved session signs. It is computed by the first sign command and kept; its first byte
tells whether that has happened. A digest that begins with a zero byte is therefore computed anew by
every sign command, from a hash context that holds the first hash instead of the transaction by then.
-/

namespace HathorApp

open ProgramLogic StreamDecoder TraceRun

section Digest

variable {pf : Platform} {o : Outcome}

/-- The context signs one digest for good: it is in place, or it is what the hash context leads to. -/
def SignTxCtx.Signs (pf : Platform) (tx : SignTxCtx) (digest : Bytes) : Prop :=
  (tx.sighashAll.getD 0 0 ≠ 0 → tx.sighashAll = digest) ∧
    (tx.sighashAll.getD 0 0 = 0 → ∃ x, tx.sha256 = some x ∧ pf.sha256 (pf.sha256 x) = digest)

/-- The digest is told from an absent one, or computing it again from the first hash changes nothing. -/
def Stable (pf : Platform) (m : Bytes) : Prop :=
  (pf.sha256 (pf.sha256 m)).getD 0 0 ≠ 0 ∨
    pf.sha256 (pf.sha256 (pf.sha256 m)) = pf.sha256 (pf.sha256 m)

instance (m : Bytes) : Decidable (Stable pf m) := by
  unfold Stable
  infer_instance

/-- What one sign command does to the digest when its hashes work. -/
theorem DigestStep.signs {m : Bytes} (hstable : Stable pf m) (hhash : ∀ x, o.ok (.hash x) = true)
    {tx tx' : SignTxCtx} {done : Bool} (h : DigestStep pf o tx tx' done)
    (hsigns : tx.Signs pf (pf.sha256 (pf.sha256 m))) :
    tx'.Signs pf (pf.sha256 (pf.sha256 m)) ∧ (done = true → tx'.sighashAll = pf.sha256 (pf.sha256 m)) := by
  cases h with
  | kept inPlace => exact ⟨hsigns, fun _ => hsigns.1 inPlace⟩
  | unhashed absent fails =>
      obtain ⟨x, hctx, _⟩ := hsigns.2 absent
      rw [hctx, cxHashNoThrow, hhash, if_pos rfl] at fails
      cases fails
  | half _ _ fails =>
      rw [hhash] at fails
      cases fails
  | @full x absent ctx =>
      obtain ⟨x', hctx, hdigest⟩ := hsigns.2 absent
      obtain rfl : x = x' := Option.some.inj (ctx.symm.trans hctx)
      refine ⟨⟨fun _ => hdigest, fun hzero => ⟨_, rfl, ?_⟩⟩, fun _ => hdigest⟩
      -- the digest begins with zero: it will be computed again
      have hzero' : (pf.sha256 (pf.sha256 m)).getD 0 0 = 0 := hdigest ▸ hzero
      calc
        pf.sha256 (pf.sha256 (pf.sha256 x)) = pf.sha256 (pf.sha256 (pf.sha256 m)) := by rw [hdigest]
        _ = pf.sha256 (pf.sha256 m) := hstable.resolve_left (fun h => h hzero')

theorem Sighash.signs {m : Bytes} (hstable : Stable pf m) (hhash : ∀ x, o.ok (.hash x) = true)
    {d d' : Device} {r : Option Bytes} {w : List Obs} (h : Sighash pf o d r d' w)
    (hsigns : d.tx.Signs pf (pf.sha256 (pf.sha256 m))) :
    d'.tx.Signs pf (pf.sha256 (pf.sha256 m)) ∧ ∀ x, Obs.ecdsa x ∈ w → x = pf.sha256 (pf.sha256 m) := by
  cases h with
  | keyless => exact ⟨hsigns, by simp⟩
  | undigested _ step => exact ⟨(step.signs hstable hhash hsigns).1, by simp⟩
  | unsigned _ step =>
      obtain ⟨hsigns', hdigest⟩ := step.signs hstable hhash hsigns
      exact ⟨hsigns', by simp [hdigest rfl]⟩
  | signed _ step =>
      obtain ⟨hsigns', hdigest⟩ := step.signs hstable hhash hsigns
      exact ⟨hsigns', by simp [hdigest rfl]⟩

end Digest

section Approved

variable {pf : Platform} {h : History Device Event Obs} {d d' : Device} {e : Event} {w : List Obs}

/-- Until a session is approved its digest is absent, and once it is no screen of a transaction is up. -/
structure Device.DigestAbsent (d : Device) : Prop where
  absent : d.state ≠ .approved → d.tx.sighashAll.getD 0 0 = 0
  screen : d.state = .approved → ¬d.flow.OfTx

theorem digestAbsent_of_session (hstate : d.state ≠ .approved) (h : d.tx.sighashAll.getD 0 0 = 0) : d.DigestAbsent :=
  ⟨fun _ => h, fun h => absurd h hstate⟩

theorem digestAbsent_of_none (hstate : d.state = .none) (htx : d.tx = zeroSignTxCtx) : d.DigestAbsent :=
  digestAbsent_of_session (by rw [hstate]; nofun) (by rw [htx]; rfl)

theorem SkipsTo.sighashAll {start tx : SignTxCtx} (h : SkipsTo start tx) : tx.sighashAll = start.sighashAll := by
  rw [h.frame]
  rfl

/-- The display of outputs of a session that is not approved. -/
theorem DisplayEnds.digestAbsent (h : DisplayEnds pf d d' w) (hstate : d.state ≠ .approved)
    (habsent : d.tx.sighashAll.getD 0 0 = 0) : d'.DigestAbsent ∧ d'.state ≠ .approved := by
  cases h with
  | checked check =>
      cases check with
      | parsed => exact ⟨digestAbsent_of_session nofun habsent, nofun⟩
      | foreign => exact ⟨digestAbsent_of_none rfl rfl, nofun⟩
      | more => exact ⟨digestAbsent_of_session hstate habsent, hstate⟩
  | failed => exact ⟨digestAbsent_of_none rfl rfl, nofun⟩
  | shown => exact ⟨digestAbsent_of_session hstate habsent, hstate⟩

variable {o : Outcome} {s : TxState}

theorem DecodeEffect.digestAbsent {accepted : Bool} (h : DecodeEffect pf o s d accepted d' w)
    (haccepted : accepted = true) (hstate : d.state ≠ .approved) (habsent : d.tx.sighashAll.getD 0 0 = 0) :
    d'.DigestAbsent ∧ d'.state ≠ .approved := by
  cases h with
  | rejected => exact ⟨digestAbsent_of_none rfl rfl, nofun⟩
  | broken => cases haccepted
  | awaits => exact ⟨digestAbsent_of_session hstate habsent, hstate⟩
  | displays _ _ _ _ skips _ ends =>
      refine ends.digestAbsent hstate ?_
      rw [Device.tx_withTx, skips.sighashAll]
      exact habsent

theorem DataEffect.digestAbsent {data : Bytes} {chunk : Nat} {r : Ending} (h : DataEffect pf o data chunk s d r d' w)
    (hnonneg : ∀ v, r = .ret v → 0 ≤ v) (hd : d.DigestAbsent) : d'.DigestAbsent ∧ d'.state ≠ .approved := by
  have hrecv : d.state = .recvData → d.state ≠ .approved := fun h h' => nomatch h.symm.trans h'
  cases h with
  | dropped => exact ⟨digestAbsent_of_none rfl rfl, nofun⟩
  | busy => exact ⟨digestAbsent_of_none rfl rfl, nofun⟩
  | headerUnread _ _ unread =>
      obtain ⟨_, _, _, _, _, _, _, _, rfl⟩ := unread
      exact ⟨digestAbsent_of_session nofun rfl, nofun⟩
  | started _ _ _ _ _ _ _ effect => exact effect.digestAbsent (accepted_of_nonneg hnonneg) nofun rfl
  | notHashed _ state => exact ⟨hd, hrecv state⟩
  | notCopied _ state => exact ⟨digestAbsent_of_session (hrecv state) (hd.absent (hrecv state)), hrecv state⟩
  | continued _ state _ _ effect =>
      exact effect.digestAbsent (accepted_of_nonneg hnonneg) (hrecv state) (hd.absent (hrecv state))

theorem Aside.digestAbsent {d₁ : Device} {w₁ : List Obs} (h : Aside d d₁ w₁) (hd : d.DigestAbsent) :
    d₁.DigestAbsent := by
  rcases h.session with hkept | hdropped
  · refine ⟨?_, ?_⟩
    · rw [hkept.state, hkept.tx]
      exact hd.absent
    · intro hstate
      rcases h.screen with hscreen | hreplaced
      · rw [hscreen.flow]
        exact hd.screen (hkept.state.symm.trans hstate)
      · exact hreplaced.flow
  · exact digestAbsent_of_none hdropped.state hdropped.tx

theorem digestAbsent_entered (hd : d.DigestAbsent) : d.entered.DigestAbsent := by
  refine ⟨?_, ?_⟩
  · rw [entered_state, entered_tx]
    exact hd.absent
  · rw [entered_state, entered_flow]
    exact hd.screen

theorem Settles.digestAbsent {d₁ : Device} {r : Ending} (h : Settles d₁ r d' w)
    (hd : (∀ v, r = .ret v → 0 ≤ v) → d₁.DigestAbsent) : d'.DigestAbsent := by
  cases h with
  | resumes nonneg => exact ⟨(hd nonneg).absent, (hd nonneg).screen⟩
  | restarts => exact digestAbsent_of_none rfl rfl

theorem Moves.digestAbsent (hmoves : Moves pf s d e d' w) (hd : d.DigestAbsent) : d'.DigestAbsent := by
  cases hmoves with
  | aside _ effect => exact effect.digestAbsent hd
  | restarts => exact digestAbsent_of_none rfl rfl
  | registers _ _ effect settles =>
      have hregistered := (aside_composable.trans (aside_wake d) effect.aside).digestAbsent hd
      exact settles.digestAbsent fun _ => ⟨hregistered.absent, hregistered.screen⟩
  | data _ _ _ effect settles =>
      exact settles.digestAbsent fun hnonneg => (effect.digestAbsent hnonneg (digestAbsent_entered hd)).1
  | sign _ _ _ effect settles =>
      refine settles.digestAbsent fun _ => ?_
      have hentered := digestAbsent_entered hd
      obtain ⟨path, tx, rfl, htx⟩ := effect.frame
      refine ⟨fun hstate => ?_, hentered.screen⟩
      show tx.sighashAll.getD 0 0 = 0
      rw [htx hstate]
      exact hentered.absent hstate
  | approved flow => exact ⟨fun h => absurd rfl h, fun _ => id⟩
  | confirmed flow skips ends =>
      have hstate : d.state ≠ .approved := fun h => hd.screen h (by rw [flow]; trivial)
      refine (ends.digestAbsent hstate ?_).1
      rw [Device.tx_withTx, skips.sighashAll]
      exact hd.absent hstate

theorem run_digestAbsent (run : Run (freeSystem pf) h d) : d.DigestAbsent := by
  refine free_invariant_all (I := fun _ d => d.DigestAbsent) (fun _ => digestAbsent_of_none rfl rfl) ?_ run
  intro h d e d' w _ hd hmoves
  exact (hmoves _ d.tx.represents_someState).digestAbsent hd

/-- The hash calls of a command work. -/
def Event.HashesWork (e : Event) : Prop := ∀ o raw, e = .apdu o raw → ∀ x, o.ok (.hash x) = true

theorem Plain.no_ecdsa (hw : Plain w) {x : Bytes} : Obs.ecdsa x ∉ w := fun hmem => hw _ hmem

theorem SignEffect.signs {data m : Bytes} {v : Int} (hstable : Stable pf m) (hhash : ∀ x, o.ok (.hash x) = true)
    (h : SignEffect pf o data d v d' w) (hsigns : d.tx.Signs pf (pf.sha256 (pf.sha256 m))) :
    d'.tx.Signs pf (pf.sha256 (pf.sha256 m)) ∧ ∀ x, Obs.ecdsa x ∈ w → x = pf.sha256 (pf.sha256 m) := by
  have hreply : ∀ x signature sw, Obs.ecdsa x ≠ replyOf signature sw := by
    intro x signature sw
    unfold replyOf
    split <;> nofun
  cases h with
  | unapproved => exact ⟨hsigns, by simp⟩
  | unread => exact ⟨hsigns, by simp⟩
  | pathless => exact ⟨hsigns, by simp⟩
  | failed _ _ _ sighash =>
      obtain ⟨hsigns', hseen⟩ := sighash.signs hstable hhash hsigns
      refine ⟨hsigns', fun x hx => ?_⟩
      rcases List.mem_append.mp hx with hx | hx
      · exact hseen x hx
      · simp at hx
  | signed _ _ _ sighash =>
      obtain ⟨hsigns', hseen⟩ := sighash.signs hstable hhash hsigns
      refine ⟨hsigns', fun x hx => ?_⟩
      rcases List.mem_append.mp hx with hx | hx
      · exact hseen x hx
      · exact absurd (List.mem_singleton.mp hx) (hreply x _ _)

theorem Moves.signs {m : Bytes} (hstable : Stable pf m) (hmoves : Moves pf s d e d' w) (hd : d.DigestAbsent)
    (hwork : e.HashesWork) (hstate : d.state = .approved) (hstate' : d'.state = .approved)
    (hsigns : d.tx.Signs pf (pf.sha256 (pf.sha256 m))) :
    d'.tx.Signs pf (pf.sha256 (pf.sha256 m)) ∧ ∀ x, Obs.ecdsa x ∈ w → x = pf.sha256 (pf.sha256 m) := by
  have hscreen := hd.screen hstate
  have hkeeps : ∀ {d₁ : Device} {w₁ : List Obs}, Aside d d₁ w₁ → d₁.state = .approved →
      d₁.tx.Signs pf (pf.sha256 (pf.sha256 m)) := by
    intro d₁ w₁ haside hstate₁
    rcases haside.session with hkept | hdropped
    · rw [hkept.tx]
      exact hsigns
    · exact absurd (hdropped.state.symm.trans hstate₁) nofun
  cases hmoves with
  | aside _ effect => exact ⟨hkeeps effect hstate', fun _ hx => absurd hx effect.seen.no_ecdsa⟩
  | restarts => cases hstate'
  | registers _ _ effect settles =>
      have hregistered := aside_composable.trans (aside_wake d) effect.aside
      refine ⟨?_, fun _ hx => (List.mem_append.mp hx).elim (fun hx => absurd hx effect.aside.seen.no_ecdsa)
        fun hx => absurd hx (settles.unseen id nofun)⟩
      cases settles with
      | resumes =>
          have hkept := hkeeps hregistered hstate'
          exact hkept
      | restarts => cases hstate'
  | data _ _ _ effect settles =>
      cases settles with
      | resumes nonneg => exact absurd hstate' (effect.digestAbsent nonneg (digestAbsent_entered hd)).2
      | restarts => cases hstate'
  | sign _ _ _ effect settles =>
      have hentered : d.entered.tx.Signs pf (pf.sha256 (pf.sha256 m)) := hsigns
      obtain ⟨hsigns', hseen⟩ := effect.signs hstable (hwork _ _ rfl) hentered
      refine ⟨?_, fun x hx => ?_⟩
      · cases settles with
        | resumes => exact hsigns'
        | restarts => cases hstate'
      · rcases List.mem_append.mp hx with hx | hx
        · exact hseen x hx
        · exact absurd hx (settles.unseen id nofun)
  | approved flow => exact absurd (by rw [flow]; trivial) hscreen
  | confirmed flow => exact absurd (by rw [flow]; trivial) hscreen

/-- Every digest signed is the one given, in every sequence of commands and presses that leaves the
session approved and whose hashes work. -/
def SignsOnly (pf : Platform) (d : Device) (digest : Bytes) : Prop :=
  ∀ h' d', Run ((freeSystem pf).startedIn d) h' d' →
    (∀ r ∈ h', r.post.state = .approved ∧ r.event.HashesWork) →
      ∀ r ∈ h', ∀ x, Obs.ecdsa x ∈ r.seen → x = digest

theorem signsOnly_of_stable {m : Bytes} (run : Run (freeSystem pf) h d) (hstate : d.state = .approved)
    (hsigns : d.tx.Signs pf (pf.sha256 (pf.sha256 m))) (hstable : Stable pf m) :
    SignsOnly pf d (pf.sha256 (pf.sha256 m)) := by
  intro h' d' run' hsteps
  suffices hall : d'.state = .approved ∧ d'.tx.Signs pf (pf.sha256 (pf.sha256 m)) ∧
      ∀ r ∈ h', ∀ x, Obs.ecdsa x ∈ r.seen → x = pf.sha256 (pf.sha256 m) from hall.2.2
  induction run' with
  | @start s init =>
      have hs : s = d := init
      rw [hs]
      exact ⟨hstate, hsigns, fun r hr => absurd hr List.not_mem_nil⟩
  | @step h₁ d₁ d₂ e w run₁ _ ret ih =>
      obtain ⟨⟨hpost, hwork⟩, hrest⟩ := List.forall_mem_cons.mp hsteps
      obtain ⟨hstate₁, hsigns₁, hseen⟩ := ih hrest
      have hwhole : Run (freeSystem pf) (h₁ ++ h) d₁ := run.append run₁
      have hmoves := moves_of_ret hwhole ret d₁.tx.represents_someState
      obtain ⟨hsigns₂, hlast⟩ := hmoves.signs hstable (run_digestAbsent hwhole) hwork hstate₁ hpost hsigns₁
      exact ⟨hpost, hsigns₂, List.forall_mem_cons.mpr ⟨hlast, hseen⟩⟩

theorem apduDispatcher_signTx {cmd : Command} (hcla : cmd.cla = cla) (hins : cmd.ins = insSignTx) :
    apduDispatcher pf o cmd = dispatchSignTx pf o cmd := by
  have hversion : insSignTx ≠ insGetVersion := by decide
  have haddress : insSignTx ≠ insGetAddress := by decide
  have hxpub : insSignTx ≠ insGetXpub := by decide
  unfold apduDispatcher
  dsimp only
  rw [if_neg (not_not.mpr hcla), hins, if_neg hversion, if_neg haddress, if_neg hxpub, if_pos rfl]

theorem dispatchSignTx_sign {cmd : Command} (hp1 : cmd.p1 = 1) (hp2 : cmd.p2 = 0) (hdata : cmd.data ≠ []) :
    dispatchSignTx pf o cmd = handlerSignTx pf o (Buffer.ofData cmd.data) .sign cmd.p2 := by
  have hargs : ¬(cmd.p1 > 2 ∨ (cmd.p1 = 1 ∧ cmd.p2 ≠ 0) ∨ (cmd.p1 = 2 ∧ cmd.p2 ≠ 0)) := by
    rw [hp1, hp2]
    decide
  have hlen : ¬((cmd.p1 = 0 ∧ cmd.data = []) ∨ (cmd.p1 = 1 ∧ cmd.data = []) ∨ (cmd.p1 = 2 ∧ cmd.data ≠ [])) := by
    rw [hp1]
    rintro (⟨h, _⟩ | ⟨_, h⟩ | ⟨h, _⟩)
    · cases h
    · exact hdata h
    · cases h
  unfold dispatchSignTx
  rw [if_neg hargs, if_neg hlen, hp1, if_neg (by decide), if_pos rfl]

/-- A sign command, with what the command loop makes of its result. -/
theorem handleCommand_sign {raw : Bytes} {cmd : Command} (hparse : apduParser raw = some cmd) (hcla : cmd.cla = cla)
    (hins : cmd.ins = insSignTx) (hp1 : cmd.p1 = 1) (hp2 : cmd.p2 = 0) (hdata : cmd.data ≠ []) (d : Device) :
    wp (handleCommand pf o raw)
      (fun _ d' w => ∃ v d₁ w₁, SignEffect pf o cmd.data d.entered v d₁ w₁ ∧
        if v < 0 then d' = startApp d₁ ∧ w = w₁ ++ [.restart]
        else d' = { d₁ with gIoState := .received, exchange := .apdu } ∧ w = w₁)
      (fun _ _ _ => False) False d := by
  unfold handleCommand
  rw [wp_bind, wp_modify, wp_catchAll, hparse]
  dsimp only
  rw [wp_bind, apduDispatcher_signTx hcla hins, dispatchSignTx_sign hp1 hp2 hdata]
  refine wp_mono (handlerSignTx_sign_spec pf o cmd.data cmd.p2 (wake d)) ?_ (fun _ _ _ h => h.elim) id
  intro v d₁ w₁ heffect
  have hentered : (wake d).withTx (wake d).tx.resetCall = d.entered := by
    unfold Device.entered Device.tx
    rw [wake_gContext]
  rw [hentered] at heffect
  have hready : d₁.gIoState = .ready := by
    obtain ⟨path, tx, rfl, _⟩ := heffect.frame
    rfl
  rw [wp_ite]
  refine ⟨fun hneg => ?_, fun hnonneg => ?_⟩
  · exact ⟨v, d₁, w₁, heffect, by rw [if_pos hneg]; exact ⟨rfl, rfl⟩⟩
  · unfold ioRecvCommand
    rw [wp_bind, wp_get, hready]
    exact ⟨v, d₁, w₁, heffect, by rw [if_neg hnonneg]; exact ⟨rfl, List.append_nil _⟩⟩

/-- A SIGN_TX sign command for the first key, with the SDK at work. -/
def signOnce : Event := .apdu (.allOk []) [0xE0, 0x06, 1, 0, 5, 1, 0, 0, 0, 0]

/-- An approved session whose digest is absent, awake for a command. -/
structure Device.SignsNext (d : Device) (x : Bytes) : Prop where
  state : d.state = .approved
  awake : (wake d).gIoState = .received
  absent : d.tx.sighashAll.getD 0 0 = 0
  ctx : d.tx.sha256 = some x

/-- A sign command computes the digest from what the hash context holds, and leaves the first hash
there. -/
theorem handle_signOnce (pf : Platform) {x : Bytes} (hd : d.SignsNext x) :
    ∃ d' w, handle pf signOnce d = .ret () d' w ∧ d'.state = .approved ∧ (wake d').gIoState = .received ∧
      d'.tx.sighashAll = pf.sha256 (pf.sha256 x) ∧ d'.tx.sha256 = some (pf.sha256 x) ∧
      Obs.ecdsa (pf.sha256 (pf.sha256 x)) ∈ w := by
  have hparse : apduParser [0xE0, 0x06, 1, 0, 5, 1, 0, 0, 0, 0] =
      some ⟨cla, insSignTx, 1, 0, [1, 0, 0, 0, 0]⟩ := by decide
  have hwp : wp (handle pf signOnce) _ _ _ d := handleCommand_sign hparse rfl rfl rfl rfl (by decide) d
  obtain ⟨_, d', w, hret, v, d₁, w₁, heffect, hloop⟩ := exists_ret_of_wp hwp
  have heffect : SignEffect pf (.allOk []) [1, 0, 0, 0, 0] d.entered v d₁ w₁ := heffect
  refine ⟨d', w, hret, ?_⟩
  have hstate : d.entered.state = .approved := (entered_state d).trans hd.state
  have habsent : d.entered.tx.sighashAll.getD 0 0 = 0 := hd.absent
  have hctx : d.entered.tx.sha256 = some x := hd.ctx
  have hread : ∀ out, ∃ rest, bufferReadBip32Path (Buffer.ofData [1, 0, 0, 0, 0]) out = (true, [0], rest) :=
    fun out => ⟨_, rfl⟩
  obtain ⟨rest, hread⟩ := hread d.entered.gContext.bip32Path
  -- every call works, so the digest is computed and signed
  have hfull : ∀ {tx done}, DigestStep pf (.allOk []) d.entered.tx tx done → done = true ∧
      tx.sighashAll = pf.sha256 (pf.sha256 x) ∧ tx.sha256 = some (pf.sha256 x) := by
    intro tx done hstep
    cases hstep with
    | kept inPlace => exact absurd habsent inPlace
    | unhashed _ fails =>
        rw [hctx] at fails
        cases fails
    | half _ _ fails => cases fails
    | full _ ctx =>
        rw [hctx] at ctx
        cases ctx
        exact ⟨rfl, rfl, rfl⟩
  cases heffect with
  | unapproved h => exact absurd hstate h
  | unread _ read =>
      rw [hread] at read
      cases read
  | pathless _ read =>
      rw [hread] at read
      cases read
  | failed _ _ _ sighash =>
      cases sighash with
      | keyless key => cases key
      | undigested _ step => exact absurd (hfull step).1 (by decide)
      | unsigned _ _ fails => cases fails
  | @signed path _ _ _ _ _ _ _ sighash =>
      cases sighash with
      | @signed key tx _ step =>
          obtain ⟨_, hdigest, hfirst⟩ := hfull step
          have hreply : replyResult d.entered = 0 := by
            have hawake : d.entered.gIoState = .received := hd.awake
            unfold replyResult
            rw [hawake, if_neg (by decide)]
          have hnonneg : ¬replyResult ((d.entered.withPath path).withTx tx) < 0 := by
            show ¬replyResult d.entered < 0
            rw [hreply]
            decide
          rw [if_neg hnonneg] at hloop
          obtain ⟨rfl, rfl⟩ := hloop
          refine ⟨hstate, rfl, hdigest, hfirst, ?_⟩
          rw [← hdigest]
          simp

/-- A RESET_TOKEN_SIGNATURES command: it shows a screen and leaves the session alone. -/
def resetTokens : Event := .apdu (.allOk []) [0xE0, 0x0A, 0, 0, 0]

theorem handle_resetTokens (pf : Platform) (hio : d.gIoState = .ready) :
    ∃ d' w, handle pf resetTokens d = .ret () d' w ∧ d'.state = d.state ∧ d'.tx = d.tx ∧
      (wake d').gIoState = .received := by
  rcases d with ⟨gContext, gTokenSymbols, secret, gIoState, exchange⟩
  obtain rfl : gIoState = .ready := hio
  cases exchange with
  | apdu => exact ⟨_, _, rfl, rfl, rfl, rfl⟩
  | asynchReply => exact ⟨_, _, rfl, rfl, rfl, rfl⟩

theorem stable_of_signsOnly {m : Bytes} (hio : d.gIoState = .ready) (hstate : d.state = .approved)
    (habsent : d.tx.sighashAll.getD 0 0 = 0) (hctx : d.tx.sha256 = some m)
    (hsigns : SignsOnly pf d (pf.sha256 (pf.sha256 m))) : Stable pf m := by
  unfold Stable
  by_contra hunstable
  rw [not_or, not_not] at hunstable
  obtain ⟨hzero, hdiffers⟩ := hunstable
  obtain ⟨d₁, w₁, hret₁, hstate₁, htx₁, hawake₁⟩ := handle_resetTokens pf hio
  have hnext₁ : d₁.SignsNext m := ⟨hstate₁.trans hstate, hawake₁, htx₁ ▸ habsent, htx₁ ▸ hctx⟩
  obtain ⟨d₂, w₂, hret₂, hstate₂, hawake₂, hdigest₂, hfirst₂, _⟩ := handle_signOnce pf hnext₁
  have hnext₂ : d₂.SignsNext (pf.sha256 m) := ⟨hstate₂, hawake₂, hdigest₂ ▸ hzero, hfirst₂⟩
  obtain ⟨d₃, w₃, hret₃, hstate₃, _, _, _, hsigned⟩ := handle_signOnce pf hnext₂
  have run : Run ((freeSystem pf).startedIn d)
      [⟨d₂, signOnce, w₃, d₃⟩, ⟨d₁, signOnce, w₂, d₂⟩, ⟨d, resetTokens, w₁, d₁⟩] d₃ :=
    .step (.step (.step (.start rfl) (fun h => nomatch h) hret₁) (fun h => nomatch h) hret₂)
      (fun h => nomatch h) hret₃
  refine hdiffers (hsigns _ d₃ run ?_ _ List.mem_cons_self _ hsigned)
  intro r hr
  simp only [List.mem_cons, List.not_mem_nil, or_false] at hr
  rcases hr with rfl | rfl | rfl
  · exact ⟨hstate₃, by rintro _ _ ⟨⟩; exact fun _ => rfl⟩
  · exact ⟨hstate₂, by rintro _ _ ⟨⟩; exact fun _ => rfl⟩
  · exact ⟨hstate₁.trans hstate, by rintro _ _ ⟨⟩; exact fun _ => rfl⟩

/-- After Approve on the approval screen every sign command signs the double hash of what was hashed if and
only if the double hash does not begin with a zero byte, or hashing it once more changes nothing. -/
theorem signs_double_hash_iff {r : Step Device Event Obs} (run : Run (freeSystem pf) (r :: h) d)
    (hpress : r.event = .press o true) (hscreen : r.pre.flow = .confirmTx) {m : Bytes}
    (hhashed : d.tx.sha256 = some m) :
    SignsOnly pf d (pf.sha256 (pf.sha256 m)) ↔
      (pf.sha256 (pf.sha256 m)).getD 0 0 ≠ 0 ∨
        pf.sha256 (pf.sha256 (pf.sha256 m)) = pf.sha256 (pf.sha256 m) := by
  have hpost := run.post_eq
  have hsplit : r :: h = [] ++ r :: h := rfl
  rw [hsplit] at run
  obtain ⟨hbefore, _, ret⟩ := run.before
  have hwp := handlePress_confirmTx pf o true (run_callbackSet hbefore) hscreen
  have ret' : handlePress pf o true r.pre = .ret () r.post r.seen := by
    rw [hpress] at ret
    exact ret
  rw [wp_of_ret ret', if_pos rfl, hpost] at hwp
  obtain ⟨rfl, _⟩ := hwp
  -- the screen was up, so the session had not been approved before
  have hbefore' := run_digestAbsent hbefore
  have hstate : r.pre.state ≠ .approved := fun h => hbefore'.screen h (by rw [hscreen]; trivial)
  have habsent : r.pre.approve.tx.sighashAll.getD 0 0 = 0 := hbefore'.absent hstate
  constructor
  · exact stable_of_signsOnly rfl rfl habsent hhashed
  · refine signsOnly_of_stable run rfl ⟨fun h => absurd habsent h, fun _ => ⟨m, hhashed, rfl⟩⟩

/-- The bytes of a transaction with one output. -/
def sampleTransaction : Bytes := [0, 1, 0, 0, 1] ++ sampleOutput 7

/-- A transaction with one output, approved, under a hash that begins with zeros. -/
theorem signs_double_hash_iff_one :
    ∃ r : Step Device Event Obs, r.event = press true ∧ r.pre.flow = .confirmTx ∧
      (SignsOnly countingPlatform r.post
          (countingPlatform.sha256 (countingPlatform.sha256 sampleTransaction)) ↔
        (countingPlatform.sha256 (countingPlatform.sha256 sampleTransaction)).getD 0 0 ≠ 0 ∨
          countingPlatform.sha256 (countingPlatform.sha256 (countingPlatform.sha256 sampleTransaction)) =
            countingPlatform.sha256 (countingPlatform.sha256 sampleTransaction)) := by
  obtain ⟨h, r, hevent, run, hP⟩ := exists_step_of_play countingPlatform false []
    [signTxData 0 (0 :: sampleTransaction), press true] (press true)
    (fun _ r => r.pre.flow = .confirmTx ∧ r.post.tx.sha256 = some sampleTransaction) (by decide +kernel)
  obtain ⟨hscreen, hhashed⟩ := of_decide_eq_true hP
  exact ⟨r, hevent, hscreen, signs_double_hash_iff run hevent hscreen hhashed⟩

/-- The second signature of an approved session, under a hash that begins with zeros: the digest signed is
hashed once more. -/
theorem signs_hashed_digest :
    ∃ h r, r.event = signOnce ∧ Run (waitingSystem countingPlatform) (r :: h) r.post ∧
      (∀ r' ∈ (r :: h).take 3, r'.post.state = .approved) ∧
      (∃ r' ∈ (r :: h).take 3, r'.pre.flow = .confirmTx ∧ r'.post.tx.sha256 = some sampleTransaction) ∧
      Obs.ecdsa (countingPlatform.sha256 (countingPlatform.sha256 (countingPlatform.sha256 sampleTransaction))) ∈
        r.seen ∧
      countingPlatform.sha256 (countingPlatform.sha256 (countingPlatform.sha256 sampleTransaction)) ≠
        countingPlatform.sha256 (countingPlatform.sha256 sampleTransaction) := by
  obtain ⟨h, r, hevent, run, hP⟩ := exists_step_of_play countingPlatform true []
    [signTxData 0 (0 :: sampleTransaction), press true, press true, signOnce] signOnce
    (fun h r => (∀ r' ∈ (r :: h).take 3, r'.post.state = .approved) ∧
      (∃ r' ∈ (r :: h).take 3, r'.pre.flow = .confirmTx ∧ r'.post.tx.sha256 = some sampleTransaction) ∧
      Obs.ecdsa (countingPlatform.sha256 (countingPlatform.sha256 (countingPlatform.sha256 sampleTransaction))) ∈
        r.seen) (by decide +kernel)
  obtain ⟨happroved, hshown, hsigned⟩ := of_decide_eq_true hP
  exact ⟨h, r, hevent, run, happroved, hshown, hsigned, by decide⟩

end Approved

end HathorApp
