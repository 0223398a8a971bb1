import HathorApp.Runs

/-!
What a press on the approval screen approves. `ui_display_tx_confirm` puts the screen up in the parsed
state only, and no command changes a session without leaving that state. The callback does not look at
the state: it approves whatever is in the context by then. A press made in the parsed state therefore
approves the session the screen was put up for, and others need not.
-/

namespace HathorApp

open ProgramLogic StreamDecoder TraceRun

/-- The step puts the approval screen up. -/
def raises (r : Step Device Event Obs) : Bool := decide (Obs.display .confirmTx ∈ r.seen)

/-- The session for which the approval screen was put up last. -/
def shownSession (h : History Device Event Obs) : Option SignTxCtx := (h.find? raises).map (·.post.tx)

/-- A context holds the session for which the approval screen was put up last, all of whose outputs had
been confirmed then. Where the display is among the saved outputs does not matter: every SIGN_TX
command resets it. -/
def OfShownSession (h : History Device Event Obs) (tx : SignTxCtx) : Prop :=
  ∃ shown, shownSession h = some shown ∧ shown.confirmedOutputs = shown.outputsLen ∧
    tx.resetCall = shown.resetCall

instance (h : History Device Event Obs) (tx : SignTxCtx) : Decidable (OfShownSession h tx) :=
  match hshown : shownSession h with
  | none => isFalse fun ⟨shown, hsome, _⟩ => by rw [hshown] at hsome; cases hsome
  | some shown =>
    decidable_of_iff (shown.confirmedOutputs = shown.outputsLen ∧ tx.resetCall = shown.resetCall)
      ⟨fun h => ⟨shown, hshown, h⟩, fun ⟨shown', hsome, h⟩ => by
        rw [hshown] at hsome
        cases hsome
        exact h⟩

/-- Approve is pressed on the approval screen in the parsed state only. This is the test that
`ui_display_tx_confirm` makes and `ui_action_tx_confirm` does not. -/
def ApprovesParsed (r : Step Device Event Obs) : Prop :=
  ∀ o, r.event = .press o true → r.pre.flow = .confirmTx → r.pre.state = .parsed

section Parsed

variable {pf : Platform} {h : History Device Event Obs} {d d' : Device} {e : Event} {w : List Obs}

/-- A session in the parsed state is the one the approval screen was put up for, and no output is on
screen. -/
def ParsedShown (h : History Device Event Obs) (d : Device) : Prop :=
  d.state = .parsed → d.flow ≠ .txOutput ∧ OfShownSession h d.tx

theorem parsedShown_of_state (hstate : d.state ≠ .parsed) : ParsedShown h d := fun h => absurd h hstate

theorem shownSession_of_raises (hw : Obs.display .confirmTx ∈ w) :
    shownSession (⟨d, e, w, d'⟩ :: h) = some d'.tx := by
  have hraises : raises ⟨d, e, w, d'⟩ = true := decide_eq_true hw
  rw [shownSession, List.find?_cons_of_pos hraises]
  rfl

theorem shownSession_of_silent (hw : Obs.display .confirmTx ∉ w) :
    shownSession (⟨d, e, w, d'⟩ :: h) = shownSession h := by
  have hraises : ¬raises ⟨d, e, w, d'⟩ = true := by rwa [raises, decide_eq_true_eq]
  rw [shownSession, List.find?_cons_of_neg hraises, shownSession]

theorem Plain.no_raise (hw : Plain w) : Obs.display .confirmTx ∉ w := fun hmem => hw _ hmem

/-- A step that keeps the session and puts up no approval screen. -/
theorem ParsedShown.kept (hd : ParsedShown h d) (hstate : d'.state = d.state)
    (htx : d'.tx.resetCall = d.tx.resetCall) (hflow : d'.flow = .txOutput → d.flow = .txOutput)
    (hw : Obs.display .confirmTx ∉ w) : ParsedShown (⟨d, e, w, d'⟩ :: h) d' := by
  intro hparsed
  obtain ⟨hnot, shown, hshown, hconfirmed, hsame⟩ := hd (hstate.symm.trans hparsed)
  refine ⟨fun h => hnot (hflow h), shown, ?_, hconfirmed, htx.trans hsame⟩
  rwa [shownSession_of_silent hw]

/-- A step that puts the approval screen up for the session of the device. -/
theorem parsedShown_raised (hflow : d'.flow ≠ .txOutput) (hconfirmed : d'.tx.confirmedOutputs = d'.tx.outputsLen)
    (hw : Obs.display .confirmTx ∈ w) : ParsedShown (⟨d, e, w, d'⟩ :: h) d' :=
  fun _ => ⟨hflow, d'.tx, shownSession_of_raises hw, hconfirmed, rfl⟩

/-- The display of outputs leads to the parsed state by putting the approval screen up. -/
theorem DisplayEnds.raised {d₁ d₂ : Device} {w₁ : List Obs} (h : DisplayEnds pf d₁ d₂ w₁)
    (hstate : d₁.state ≠ .parsed) (hparsed : d₂.state = .parsed) :
    d₂.flow ≠ .txOutput ∧ d₂.tx.confirmedOutputs = d₂.tx.outputsLen ∧ Obs.display .confirmTx ∈ w₁ := by
  cases h with
  | checked check =>
      cases check with
      | parsed confirmed => exact ⟨nofun, confirmed, List.mem_cons_self⟩
      | foreign => cases hparsed
      | more => exact absurd hparsed hstate
  | failed => cases hparsed
  | shown => exact absurd hparsed hstate

variable {o : Outcome} {s : TxState}

theorem DecodeEffect.raised {accepted : Bool} {d₁ d₂ : Device} {w₁ : List Obs}
    (h : DecodeEffect pf o s d₁ accepted d₂ w₁) (hstate : d₁.state ≠ .parsed) (hparsed : d₂.state = .parsed) :
    d₂.flow ≠ .txOutput ∧ d₂.tx.confirmedOutputs = d₂.tx.outputsLen ∧ Obs.display .confirmTx ∈ w₁ := by
  cases h with
  | rejected => cases hparsed
  | broken => exact absurd hparsed hstate
  | awaits => exact absurd hparsed hstate
  | displays _ _ _ _ _ _ ends =>
      obtain ⟨hflow, hconfirmed, hmem⟩ := ends.raised hstate hparsed
      exact ⟨hflow, hconfirmed, List.mem_append_right _ hmem⟩

theorem DataEffect.raised {data : Bytes} {chunk : Nat} {r : Ending} {d₁ d₂ : Device} {w₁ : List Obs}
    (h : DataEffect pf o data chunk s d₁ r d₂ w₁) (hparsed : d₂.state = .parsed) :
    d₂.flow ≠ .txOutput ∧ d₂.tx.confirmedOutputs = d₂.tx.outputsLen ∧ Obs.display .confirmTx ∈ w₁ := by
  have hrecv : d₁.state = .recvData → d₁.state ≠ .parsed := fun h h' => nomatch h.symm.trans h'
  cases h with
  | dropped => cases hparsed
  | busy => cases hparsed
  | headerUnread => cases hparsed
  | started _ _ _ _ _ _ _ effect => exact effect.raised nofun hparsed
  | notHashed _ state => exact absurd hparsed (hrecv state)
  | notCopied _ state => exact absurd hparsed (hrecv state)
  | continued _ state _ _ effect => exact effect.raised (hrecv state) hparsed

theorem SignEffect.no_raise {data : Bytes} {v : Int} {d₁ d₂ : Device} {w₁ : List Obs}
    (h : SignEffect pf o data d₁ v d₂ w₁) : Obs.display .confirmTx ∉ w₁ := by
  have hreply : ∀ signature sw, replyOf signature sw ≠ .display .confirmTx := by
    intro signature sw
    unfold replyOf
    split <;> nofun
  cases h with
  | unapproved => simp
  | unread => simp
  | pathless => simp
  | failed _ _ _ sighash => cases sighash <;> simp
  | signed _ _ _ sighash =>
      have := hreply
      cases sighash with
      | signed => simp [Ne.symm (hreply _ _)]

theorem ParsedShown.aside {d₁ : Device} {w' : List Obs} (e : Event) (hd : ParsedShown h d) (effect : Aside d d₁ w)
    (hw' : Obs.display .confirmTx ∉ w') (hstate : d'.state = d₁.state) (htx : d'.tx = d₁.tx) (hflow : d'.flow = d₁.flow) :
    ParsedShown (⟨d, e, w ++ w', d'⟩ :: h) d' := by
  have hseen : Obs.display .confirmTx ∉ w ++ w' := fun h => (List.mem_append.mp h).elim effect.seen.no_raise hw'
  rcases effect.session with hkept | hdropped
  · refine hd.kept (hstate.trans hkept.state) (by rw [htx, hkept.tx]) (fun houtput => ?_) hseen
    have houtput₁ := hflow.symm.trans houtput
    rcases effect.screen with hscreen | hreplaced
    · exact hscreen.flow.symm.trans houtput₁
    · exact absurd (houtput₁ ▸ trivial) hreplaced.flow
  · exact parsedShown_of_state (by rw [hstate, hdropped.state]; nofun)

theorem Moves.parsedShown (hmoves : Moves pf s d e d' w) (hd : ParsedShown h d) :
    ParsedShown (⟨d, e, w, d'⟩ :: h) d' := by
  cases hmoves with
  | aside _ effect =>
      have hshown := hd.aside e effect List.not_mem_nil rfl rfl rfl
      rwa [List.append_nil] at hshown
  | restarts => exact parsedShown_of_state nofun
  | @registers _ _ _ _ d₁ _ _ w' _ _ effect settles =>
      rcases settles.part with hpart | hnone
      · have hwake := aside_composable.trans (aside_wake d) effect.aside
        have hstate : d'.state = d₁.state := Device.state_of_part hpart
        have htx : d'.tx = d₁.tx := Device.tx_of_part hpart
        have hflow : d'.flow = d₁.flow := Device.flow_of_part hpart
        exact hd.aside _ hwake (settles.unseen id nofun) hstate htx hflow
      · exact parsedShown_of_state (by rw [hnone]; nofun)
  | data _ _ _ effect settles =>
      rcases settles.part with hpart | hnone
      · intro hparsed
        obtain ⟨hflow, hconfirmed, hmem⟩ := effect.raised ((Device.state_of_part hpart).symm.trans hparsed)
        refine parsedShown_raised ?_ ?_ (List.mem_append_left _ hmem) hparsed
        · rwa [Device.flow_of_part hpart]
        · rwa [Device.tx_of_part hpart]
      · exact parsedShown_of_state (by rw [hnone]; nofun)
  | sign _ _ _ effect settles =>
      have hseen := fun hmem => (List.mem_append.mp hmem).elim effect.no_raise (settles.unseen id nofun)
      rcases settles.part with hpart | hnone
      · obtain ⟨path, tx, rfl, htx⟩ := effect.frame
        intro hparsed
        have hstate : d.entered.state = .parsed := (Device.state_of_part hpart).symm.trans hparsed
        have hsame : d'.tx = d.tx.resetCall :=
          (Device.tx_of_part hpart).trans (htx fun happroved => nomatch happroved.symm.trans hstate)
        refine hd.kept ?_ (by rw [hsame]; rfl) (fun hflow => ?_) hseen hparsed
        · exact hparsed.trans (hstate.symm.trans (entered_state d))
        · exact (Device.flow_of_part (signingPart_wake d)).symm.trans
            ((Device.flow_of_part hpart).symm.trans hflow)
      · exact parsedShown_of_state (by rw [hnone]; nofun)
  | approved => exact parsedShown_of_state nofun
  | @confirmed _ tx _ _ hflow skips ends =>
      intro hparsed
      have hstate : (d.withTx tx).state ≠ .parsed := fun h => (hd h).1 hflow
      obtain ⟨hflow', hconfirmed, hmem⟩ := ends.raised hstate hparsed
      exact parsedShown_raised hflow' hconfirmed hmem hparsed

theorem run_parsedShown (run : Run (freeSystem pf) h d) : ParsedShown h d := by
  refine free_invariant_all (fun _ => parsedShown_of_state nofun) ?_ run
  intro h d e d' w _ hd hmoves
  exact (hmoves _ d.tx.represents_someState).parsedShown hd

/-- In a run in which Approve is pressed on the approval screen in the parsed state only, a press on that
screen approves nothing but the session the screen was put up for. -/
theorem approves_shown_session (run : Run (freeSystem pf) h d) (hC : ∀ r ∈ h, ApprovesParsed r)
    {later earlier : History Device Event Obs} {r : Step Device Event Obs} (hsplit : h = later ++ r :: earlier)
    {choice : Bool} (hpress : r.event = .press o choice) (hscreen : r.pre.flow = .confirmTx) :
    if choice then r.post.state = .approved ∧ OfShownSession earlier r.post.tx
    else r.post.state ≠ .approved := by
  subst hsplit
  obtain ⟨hbefore, _, ret⟩ := run.before
  have hwp := handlePress_confirmTx pf o choice (run_callbackSet hbefore) hscreen
  have ret' : handlePress pf o choice r.pre = .ret () r.post r.seen := by
    rw [hpress] at ret
    exact ret
  rw [wp_of_ret ret'] at hwp
  cases choice with
  | true =>
      have hparsed := hC r (List.mem_append_right _ List.mem_cons_self) o hpress hscreen
      rw [if_pos rfl] at hwp ⊢
      rw [hwp.1]
      exact ⟨rfl, (run_parsedShown hbefore hparsed).2⟩
  | false =>
      rw [if_neg (by decide)] at hwp ⊢
      rw [hwp.1]
      nofun

/-- The approval screen of a transaction with one output, approved. -/
theorem approves_shown_session_one :
    ∃ (h : History Device Event Obs) (r : Step Device Event Obs), r.event = press true ∧ r.pre.flow = .confirmTx ∧
      r.post.state = .approved ∧ OfShownSession h r.post.tx := by
  obtain ⟨h, r, hevent, run, hP⟩ := exists_step_of_play countingPlatform false []
    [signTxData 0 ([0, 0, 1, 0, 0, 1] ++ sampleOutput 7), press true] (press true)
    (fun h r => r.pre.flow = .confirmTx ∧
      ∀ r' ∈ r :: h, r'.pre.flow = .confirmTx → r'.pre.state = .parsed) (by decide +kernel)
  obtain ⟨hscreen, hparsed⟩ := of_decide_eq_true hP
  have hsplit : r :: h = [] ++ r :: h := rfl
  have happroved := approves_shown_session run (fun r' hr' _ _ => hparsed r' hr') hsplit hevent hscreen
  exact ⟨h, r, hevent, hscreen, happroved⟩

/-- Approve is pressed on the approval screen after a command has cleared the context: the empty session
is approved. -/
theorem approves_cleared_session :
    ∃ h r, r.event = press true ∧ Run (freeSystem countingPlatform) (r :: h) r.post ∧
      r.pre.flow = .confirmTx ∧ r.post.state = .approved ∧ ¬OfShownSession h r.post.tx := by
  obtain ⟨h, r, hevent, run, hP⟩ := exists_step_of_play countingPlatform false []
    [signTxData 0 ([0, 0, 1, 0, 0, 1] ++ sampleOutput 7), press true, .apdu (.allOk []) [0xE0, 0x09, 0, 0, 0]]
    (press true) (fun h r => r.pre.flow = .confirmTx ∧ r.post.state = .approved ∧ ¬OfShownSession h r.post.tx)
    (by decide +kernel)
  exact ⟨h, r, hevent, run, of_decide_eq_true hP⟩

end Parsed

end HathorApp
