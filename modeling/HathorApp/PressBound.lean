import HathorApp.ConfirmationRun
import HathorApp.OneReply
import HathorApp.Patience
import HathorApp.ShownOutput

/-!
A command is not left hanging. The screen that a command puts up is answered after some approvals: an approval that is not
answered shows an output saved further behind, or asks for the approval of the whole, so that the slots for saved outputs bound
their number.
-/

namespace HathorApp

open ProgramLogic StreamDecoder TraceRun

section Cursors

variable {start tx : SignTxCtx}

/-- Each skip is of an index in the change list. -/
theorem SkipsTo.steps (h : SkipsTo start tx) (hdisplay : start.displayIndex < 256) (hconfirmed : start.confirmedOutputs < 256) :
    ∃ k, tx.displayIndex = u8 (start.displayIndex + k) ∧ tx.confirmedOutputs = u8 (start.confirmedOutputs + k) ∧
      ∀ j < k, u8 (start.confirmedOutputs + j) ∈ start.changeIndices := by
  induction h with
  | refl =>
      refine ⟨0, (u8_of_lt hdisplay).symm, (u8_of_lt hconfirmed).symm, fun j hj => absurd hj (Nat.not_lt_zero j)⟩
  | @skip tx skips inside change ih =>
      obtain ⟨k, hindex, hcount, hchanges⟩ := ih
      refine ⟨k + 1, ?_, ?_, fun j hj => ?_⟩
      · show u8 (tx.displayIndex + 1) = _
        rw [hindex]
        simp only [u8]
        omega
      · show u8 (tx.confirmedOutputs + 1) = _
        rw [hcount]
        simp only [u8]
        omega
      · rcases Nat.lt_succ_iff_lt_or_eq.mp hj with hbefore | rfl
        · exact hchanges j hbefore
        · rw [← hcount, ← skips.changeIndices]
          exact change

/-- The skips that follow an approval leave the display further behind: there are too few of them for the index to come
round again. -/
theorem SkipsTo.advances (h : SkipsTo start.advance tx) (hshort : start.changeLen ≤ 1 + txMaxTokens)
    (hbefore : start.displayIndex < outputSlots) (hslot : tx.displayIndex < outputSlots) :
    start.displayIndex < tx.displayIndex := by
  have hcount := length_changeIndices_le start.advance
  have hchanges : start.advance.changeLen = start.changeLen := rfl
  have hmax : 1 + txMaxTokens = 11 := rfl
  have hten : outputSlots = 10 := rfl
  have hstart : start.advance.displayIndex = u8 (start.displayIndex + 1) := rfl
  obtain ⟨k, hindex, _, hsteps⟩ := h.steps (Nat.mod_lt _ (by decide)) (Nat.mod_lt _ (by decide))
  have hfew := skips_le (by omega) hsteps
  simp only [hstart, u8] at hindex
  omega

end Cursors

section Screen

variable {pf : Platform} {o : Outcome} {d d' : Device} {w : List Obs}

/-- An output on screen is one of the saved ones. -/
def Device.ScreenInside (d : Device) : Prop := d.flow = .txOutput → d.tx.displayIndex < d.tx.outputs.length

theorem screenInside_of_ne (h : d'.flow ≠ .txOutput) : d'.ScreenInside := fun hscreen => absurd hscreen h

theorem screenInside_of_flow (hclosed : d.flow.asks = false) (hflow : d'.flow = d.flow) : d'.ScreenInside := by
  apply screenInside_of_ne
  intro hscreen
  rw [← hflow, hscreen] at hclosed
  cases hclosed

theorem DisplayEnds.screenInside (h : DisplayEnds pf d d' w) : d'.ScreenInside := by
  cases h with
  | checked check => cases check <;> exact screenInside_of_ne (fun h => by cases h)
  | failed => exact screenInside_of_ne (fun h => by cases h)
  | shown _ slot => exact fun _ => (List.getElem?_eq_some_iff.mp slot).1

theorem Aside.screenInside (h : Aside d d' w) (hclosed : d.flow.asks = false) : d'.ScreenInside := by
  rcases h.screen with hkept | hreplaced
  · exact screenInside_of_flow hclosed hkept.flow
  · apply screenInside_of_ne
    intro hscreen
    have hno := hreplaced.flow
    rw [hscreen] at hno
    exact hno trivial

variable {s : TxState}

theorem DecodeEffect.screenInside {accepted : Bool} (h : DecodeEffect pf o s d accepted d' w) (hclosed : d.flow.asks = false) :
    d'.ScreenInside := by
  cases h with
  | rejected => exact screenInside_of_ne (fun h => by cases h)
  | broken => exact screenInside_of_flow hclosed rfl
  | awaits => exact screenInside_of_flow hclosed rfl
  | displays _ _ _ _ _ _ ends => exact ends.screenInside

theorem DataEffect.screenInside {data : Bytes} {chunk : Nat} {r : Ending} (h : DataEffect pf o data chunk s d r d' w)
    (hclosed : d.flow.asks = false) : d'.ScreenInside := by
  cases h with
  | dropped => exact screenInside_of_ne (fun h => by cases h)
  | busy => exact screenInside_of_flow hclosed rfl
  | headerUnread => exact screenInside_of_flow hclosed rfl
  | started _ _ _ _ _ _ _ effect => exact effect.screenInside hclosed
  | notHashed => exact screenInside_of_flow hclosed rfl
  | notCopied => exact screenInside_of_flow hclosed rfl
  | continued _ _ _ _ effect => exact effect.screenInside hclosed

theorem Settles.screenInside {r : Ending} (h : Settles d r d' w) (hd : d.ScreenInside) : d'.ScreenInside := by
  cases h with
  | resumes => exact hd
  | restarts => exact screenInside_of_ne (fun h => by cases h)

/-- A command that comes while nothing is asked. -/
theorem Moves.screenInside {o : Outcome} {raw : Bytes} (h : Moves pf s d (.apdu o raw) d' w) (hclosed : d.flow.asks = false) :
    d'.ScreenInside := by
  have hwake : (wake d).flow.asks = false := by rwa [wake_flow]
  cases h with
  | aside _ effect => exact effect.screenInside hclosed
  | restarts => exact screenInside_of_ne (fun h => by cases h)
  | registers _ _ effect settles => exact settles.screenInside (effect.aside.screenInside hwake)
  | data _ _ _ effect settles => exact settles.screenInside (effect.screenInside hwake)
  | sign _ _ _ effect settles =>
      obtain ⟨path, tx, rfl, _⟩ := effect.frame
      exact settles.screenInside (screenInside_of_flow hwake rfl)

/-- A change list that is too long ends the approval. -/
theorem uiConfirmOutput_changeLen (pf : Platform) (o : Outcome) (d : Device) :
    wp (uiConfirmOutput pf o true) (fun _ _ _ => d.tx.changeLen ≤ 1 + txMaxTokens)
      (fun _ _ _ => d.tx.changeLen ≤ 1 + txMaxTokens) True d := by
  by_cases hlong : d.tx.changeLen > 1 + txMaxTokens
  · unfold uiConfirmOutput skipChangeOutputs
    rw [if_pos rfl, wp_bind, wp_modify, wp_bind, wp_bind, wp_get, wp_ite]
    refine ⟨fun hnone => ?_, fun _ => ?_⟩
    · have hnone : d.tx.changeLen = 0 := hnone
      omega
    · rw [wp_ite]
      exact ⟨fun _ => trivial, fun hno => absurd hlong hno⟩
  · have hshort : d.tx.changeLen ≤ 1 + txMaxTokens := Nat.not_lt.mp hlong
    unfold wp
    split
    · exact hshort
    · exact hshort
    · trivial

/-- So does the press that calls for it. -/
theorem handlePress_changeLen (hset : d.gValidateCallback = some .uiConfirmOutput) (hflow : d.flow = .txOutput) :
    wp (handlePress pf o true) (fun _ _ _ => d.tx.changeLen ≤ 1 + txMaxTokens) (fun _ _ _ => True) True d := by
  have hasks : (if true then d.flow.asks else d.flow.rejects) = true := by
    rw [hflow]
    rfl
  unfold handlePress
  rw [wp_bind, wp_get, if_pos hasks, hset]
  dsimp only
  rw [wp_catchAll]
  refine wp_mono (uiConfirmOutput_changeLen pf o d) (fun _ _ _ h => h) (fun _ _ _ hshort => ?_) id
  unfold wp
  split
  · exact hshort
  · trivial
  · trivial

/-- An approval that leaves an output on screen has moved on to one saved further behind. -/
theorem handlePress_advances {choice : Bool} (hcallback : d.CallbackSet) (hflow : d.flow = .txOutput)
    (hscreen : d.ScreenInside) (hslots : d.tx.outputs.length = outputSlots) :
    wp (handlePress pf o choice)
      (fun _ d' w => replies w = [] → choice = true ∧ (d'.flow = .confirmTx ∨ d'.flow = .txOutput ∧
        d.tx.displayIndex < d'.tx.displayIndex ∧ d'.tx.displayIndex < outputSlots))
      (fun _ _ _ => False) True d := by
  have hset : d.gValidateCallback = some .uiConfirmOutput := hcallback _ (by rw [hflow]; rfl)
  cases choice with
  | false =>
      refine wp_mono (handlePress_txOutput pf o false hcallback hflow) ?_ (fun _ _ _ h => h) id
      rintro _ d' w hends hsilent
      rw [if_neg (by decide)] at hends
      rw [hends.2] at hsilent
      cases hsilent
  | true =>
      refine wp_mono (wp_and (handlePress_txOutput pf o true hcallback hflow) (handlePress_changeLen hset hflow)) ?_
        (fun _ _ _ h => h.1) (fun h => h.1)
      rintro _ d' w ⟨hends, hshort⟩ hsilent
      rw [if_pos rfl] at hends
      obtain ⟨tx, hskips, hends⟩ := hends
      refine ⟨rfl, ?_⟩
      cases hends with
      | checked check =>
          cases check with
          | parsed => exact Or.inl rfl
          | foreign => cases hsilent
          | more => cases hsilent
      | failed => cases hsilent
      | @shown output amount inside slot =>
          refine Or.inr ⟨rfl, ?_⟩
          show d.tx.displayIndex < tx.displayIndex ∧ tx.displayIndex < outputSlots
          have hbefore := hscreen hflow
          have hslot : tx.displayIndex < tx.outputs.length := (List.getElem?_eq_some_iff.mp slot).1
          have houtputs : tx.outputs = d.tx.outputs := by
            rw [hskips.frame]
            rfl
          rw [houtputs, hslots] at hslot
          rw [hslots] at hbefore
          exact ⟨hskips.advances hshort hbefore hslot, hslot⟩

/-- Off the screens of a transaction a press puts none of them up. -/
theorem Moves.press_closes {choice : Bool} (h : Moves pf s d (.press o choice) d' w) (hother : ¬d.flow.OfTx) :
    ¬d'.flow.OfTx := by
  cases h with
  | aside _ effect =>
      rcases effect.screen with hkept | hreplaced
      · rw [hkept.flow]
        exact hother
      · exact hreplaced.flow
  | restarts => exact id
  | approved flow =>
      rw [flow] at hother
      exact absurd trivial hother
  | confirmed flow =>
      rw [flow] at hother
      exact absurd trivial hother

/-- An unanswered press on a screen of a transaction. -/
theorem ofTx_advances {choice : Bool} (hcallback : d.CallbackSet) (hflow : d.flow.OfTx) (hscreen : d.ScreenInside)
    (hslots : d.tx.outputs.length = outputSlots) (ret : handlePress pf o choice d = .ret () d' w) (hsilent : replies w = []) :
    d.flow = .txOutput ∧ d.tx.displayIndex < outputSlots ∧ choice = true ∧ (d'.flow = .confirmTx ∨ d'.flow = .txOutput ∧
      d.tx.displayIndex < d'.tx.displayIndex ∧ d'.tx.displayIndex < outputSlots) := by
  by_cases houtput : d.flow = .txOutput
  · have hadvances := @handlePress_advances pf o d choice hcallback houtput hscreen hslots
    rw [wp_of_ret ret] at hadvances
    obtain ⟨hchoice, hnext⟩ := hadvances hsilent
    exact ⟨houtput, hslots ▸ hscreen houtput, hchoice, hnext⟩
  · have hconfirm : d.flow = .confirmTx := by
      cases hd : d.flow with
      | confirmTx => rfl
      | txOutput => exact absurd hd houtput
      | _ =>
          rw [hd] at hflow
          exact hflow.elim
    have hends := handlePress_confirmTx pf o choice hcallback hconfirm
    rw [wp_of_ret ret] at hends
    cases choice with
    | true =>
        rw [if_pos rfl] at hends
        rw [hends.2] at hsilent
        cases hsilent
    | false =>
        rw [if_neg (by decide)] at hends
        rw [hends.2] at hsilent
        cases hsilent

end Screen

section Runs

variable {pf : Platform} {h earlier later : History Device Event Obs} {d d' : Device} {e : Event} {w : List Obs}

theorem quit_screenInside (ret : handleQuit d = .ret () d' w) (hd : d.ScreenInside) : d'.ScreenInside := by
  have hends := handleQuit_ends d
  rw [wp_of_ret ret] at hends
  rcases hends with ⟨rfl, _⟩ | ⟨_, hmenu, _⟩
  · exact hd
  · apply screenInside_of_ne
    rw [hmenu]
    decide

theorem press_screenInside {o : Outcome} {choice : Bool} (run : Run (waitingSystem pf) h d)
    (admitted : (waitingSystem pf).admits d (.press o choice)) (ret : handlePress pf o choice d = .ret () d' w)
    (hd : d.ScreenInside) : d'.ScreenInside := by
  have free := free_of_waiting run
  have hends := handlePress_ends pf o choice d
  rw [wp_of_ret ret] at hends
  cases hends with
  | ignored => exact hd
  | replied _ _ _ closed =>
      apply screenInside_of_ne
      intro hscreen
      rw [hscreen] at closed
      cases closed
  | asks _ none _ screen =>
      by_cases hoftx : d.flow.OfTx
      · obtain ⟨_, _, _, hnext⟩ := ofTx_advances (run_callbackSet free) hoftx hd (slots_invariant.run free) ret none
        have hslots : d'.tx.outputs.length = outputSlots := slots_invariant.run (free_of_waiting (.step run admitted ret))
        rcases hnext with hconfirm | ⟨_, _, hinside⟩
        · apply screenInside_of_ne
          rw [hconfirm]
          decide
        · intro _
          rw [hslots]
          exact hinside
      · have ret' : handle pf (.press o choice) d = .ret () d' w := ret
        exact absurd screen ((moves_of_ret free ret' d.tx.represents_someState).press_closes hoftx)

theorem run_screenInside (run : Run (waitingSystem pf) h d) : d.ScreenInside := by
  induction run with
  | start init =>
      obtain ⟨secret, rfl⟩ := init
      exact screenInside_of_ne (fun h => by cases h)
  | @step h d d₁ e w run admitted ret ih =>
      have ret' : handle pf e d = .ret () d₁ w := ret
      cases e with
      | apdu o raw =>
          have hfree : d.gIoState ≠ .waiting := admitted rfl o raw rfl
          have hclosed : d.flow.asks = false := Bool.eq_false_iff.mpr fun hasks => hfree ((run_disciplined run).owed.mp hasks)
          exact (moves_of_ret (free_of_waiting run) ret' d.tx.represents_someState).screenInside hclosed
      | press o choice => exact press_screenInside run admitted ret' ih
      | quit => exact quit_screenInside ret' ih

/-- An unanswered press, with a screen that asks before and after it. -/
theorem press_advances {o : Outcome} {choice : Bool} (run : Run (waitingSystem pf) h d)
    (ret : handle pf (.press o choice) d = .ret () d' w) (hasks : d.flow.asks = true) (hasks' : d'.flow.asks = true) :
    choice = false ∧ d' = d ∨ d.flow = .txOutput ∧ d.tx.displayIndex < outputSlots ∧
      (d'.flow = .confirmTx ∨ d'.flow = .txOutput ∧ d.tx.displayIndex < d'.tx.displayIndex) := by
  have free := free_of_waiting run
  have ret' : handlePress pf o choice d = .ret () d' w := ret
  have hends := handlePress_ends pf o choice d
  rw [wp_of_ret ret'] at hends
  cases hends with
  | ignored step =>
      refine Or.inl ⟨?_, rfl⟩
      cases choice with
      | true => rw [if_pos rfl, hasks] at step; cases step
      | false => rfl
  | replied _ _ _ closed =>
      rw [hasks'] at closed
      cases closed
  | asks _ none _ screen =>
      by_cases hoftx : d.flow.OfTx
      · obtain ⟨houtput, hinside, _, hnext⟩ := ofTx_advances (run_callbackSet free) hoftx (run_screenInside run)
          (slots_invariant.run free) ret' none
        refine Or.inr ⟨houtput, hinside, ?_⟩
        rcases hnext with hconfirm | ⟨hflow, hindex, _⟩
        · exact Or.inl hconfirm
        · exact Or.inr ⟨hflow, hindex⟩
      · exact absurd screen ((moves_of_ret free ret d.tx.represents_someState).press_closes hoftx)

/-- How many approvals the screen can take unanswered. -/
def Device.patience (d : Device) : Nat := if d.flow = .txOutput then outputSlots - d.tx.displayIndex else 0

def Event.approves : Event → Bool
  | .press _ choice => choice
  | _ => false

theorem patience_lowers (hflow : d.flow = .txOutput) (hinside : d.tx.displayIndex < outputSlots)
    (hnext : d'.flow = .confirmTx ∨ d'.flow = .txOutput ∧ d.tx.displayIndex < d'.tx.displayIndex) :
    d'.patience < d.patience := by
  unfold Device.patience
  rw [if_pos hflow]
  rcases hnext with hconfirm | ⟨houtput, hindex⟩
  · rw [if_neg (by rw [hconfirm]; decide)]
    omega
  · rw [if_pos houtput]
    omega

/-- What a quit or an ignored press does to the screen. -/
theorem asks_over (hcommand : ¬e.IsCommand) (ret : handle pf e d = .ret () d' w) (hclosed : d.flow.asks = false) :
    d'.flow.asks = false ∧ replies w = [] := by
  cases e with
  | apdu o raw => exact absurd ⟨o, raw, rfl⟩ hcommand
  | press o choice =>
      have ret' : handlePress pf o choice d = .ret () d' w := ret
      have hends := handlePress_ends pf o choice d
      rw [wp_of_ret ret'] at hends
      cases hends with
      | ignored => exact ⟨hclosed, rfl⟩
      | replied asked => rw [hclosed] at asked; cases asked
      | asks asked => rw [hclosed] at asked; cases asked
  | quit =>
      have ret' : handleQuit d = .ret () d' w := ret
      have hends := handleQuit_ends d
      rw [wp_of_ret ret'] at hends
      rcases hends with ⟨rfl, rfl⟩ | ⟨_, hmenu, hsilent, _⟩
      · exact ⟨hclosed, rfl⟩
      · rw [hmenu]
        exact ⟨rfl, hsilent⟩

theorem quit_keeps (ret : handle pf .quit d = .ret () d' w) (hasks : d.flow.asks = true) : d' = d ∧ w = [] := by
  have ret' : handleQuit d = .ret () d' w := ret
  have hends := handleQuit_ends d
  rw [wp_of_ret ret'] at hends
  rcases hends with hsame | ⟨hprocessing, _⟩
  · exact hsame
  · rw [hprocessing] at hasks
    cases hasks

theorem ranked_approvals (pf : Platform) : Ranked (waitingSystem pf) (fun e => ¬e.IsCommand) Event.approves
    (fun d => d.flow.asks = true) Device.patience where
  ended run hcommand ret hclosed := by
    rw [Bool.not_eq_true] at hclosed ⊢
    exact (asks_over hcommand ret hclosed).1
  lowers {h d e d' w} run hcommand ret hasks hasks' happroves := by
    cases e with
    | apdu o raw => cases happroves
    | press o choice =>
        obtain rfl : choice = true := happroves
        rcases press_advances run ret hasks hasks' with ⟨hno, _⟩ | ⟨hflow, hinside, hnext⟩
        · cases hno
        · exact patience_lowers hflow hinside hnext
    | quit => cases happroves
  keeps {h d e d' w} run hcommand ret hasks hasks' := by
    cases e with
    | apdu o raw => exact absurd ⟨o, raw, rfl⟩ hcommand
    | press o choice =>
        rcases press_advances run ret hasks hasks' with ⟨_, rfl⟩ | ⟨hflow, hinside, hnext⟩
        · exact Nat.le_refl _
        · exact Nat.le_of_lt (patience_lowers hflow hinside hnext)
    | quit =>
        obtain ⟨rfl, _⟩ := @quit_keeps pf d d' w ret hasks
        exact Nat.le_refl _

/-- A step that is no command sends a reply exactly when it ends the asking. -/
theorem replies_of_step (hcommand : ¬e.IsCommand) (ret : handle pf e d = .ret () d' w) (hasks : d.flow.asks = true) :
    (replies w).length = if d'.flow.asks then 0 else 1 := by
  cases e with
  | apdu o raw => exact absurd ⟨o, raw, rfl⟩ hcommand
  | press o choice =>
      have ret' : handlePress pf o choice d = .ret () d' w := ret
      have hends := handlePress_ends pf o choice d
      rw [wp_of_ret ret'] at hends
      cases hends with
      | ignored => rw [if_pos hasks]; rfl
      | replied _ one _ closed => rw [closed, one]; rfl
      | asks _ none _ screen => rw [if_pos (asks_of_ofTx screen), none]; rfl
  | quit =>
      obtain ⟨rfl, rfl⟩ := quit_keeps ret hasks
      rw [if_pos hasks]
      rfl

theorem replies_of_run (hasks : d.flow.asks = true) (run : Run ((waitingSystem pf).startedIn d) later d')
    (hcommands : ∀ r ∈ later, ¬r.event.IsCommand) :
    (replies (seenIn later)).length = if d'.flow.asks then 0 else 1 := by
  induction run with
  | start init =>
      obtain rfl := init
      rw [if_pos hasks]
      rfl
  | @step later d₁ d' e w run admitted ret ih =>
      obtain ⟨hlast, hrest⟩ := List.forall_mem_cons.mp hcommands
      have hreplies := ih hrest
      have hseen : seenIn (⟨d₁, e, w, d'⟩ :: later) = w ++ seenIn later := rfl
      have ret' : handle pf e d₁ = .ret () d' w := ret
      rw [hseen, replies_append, List.length_append, hreplies]
      cases hasks₁ : d₁.flow.asks with
      | true =>
          rw [replies_of_step hlast ret' hasks₁]
          rfl
      | false =>
          obtain ⟨hclosed, hsilent⟩ := asks_over hlast ret' hasks₁
          rw [hclosed, hsilent]
          rfl

theorem patience_le (d : Device) : d.patience ≤ outputSlots := by
  unfold Device.patience
  split
  · exact Nat.sub_le _ _
  · exact Nat.zero_le _

/-- From a screen that asks on, without another command: there is no reply while a screen asks, and exactly one when none does;
and after more approvals than there are slots for outputs none does. -/
theorem approvals_answer (before : Run (waitingSystem pf) earlier d) (hasks : d.flow.asks = true)
    (run : Run ((waitingSystem pf).startedIn d) later d') (hcommands : ∀ r ∈ later, ¬r.event.IsCommand) :
    (replies (seenIn later)).length = (if d'.flow.asks then 0 else 1) ∧
      (outputSlots < counted Event.approves later → d'.flow.asks = false) := by
  refine ⟨replies_of_run hasks run hcommands, fun hmany => ?_⟩
  by_contra hstill
  rw [Bool.not_eq_false] at hstill
  obtain ⟨_, hbound⟩ := (ranked_approvals pf).counted_le before run hcommands hstill
  have hpatience := patience_le d
  omega

theorem not_isCommand_of_approves (h : e.approves = true) : ¬e.IsCommand := by
  rintro ⟨o, raw, rfl⟩
  cases h

/-- Seven outputs and eleven approvals: the eighth is answered, and the last three are ignored. -/
theorem approvals_answer_seven :
    ∃ earlier later d d', Run (waitingSystem countingPlatform) earlier d ∧ d.flow = .txOutput ∧
      Run ((waitingSystem countingPlatform).startedIn d) later d' ∧ counted Event.approves later = 11 ∧
      d'.flow.asks = false ∧ (replies (seenIn later)).length = 1 := by
  obtain ⟨h, r, _, run, hP⟩ := exists_step_of_play countingPlatform true []
    (signTxData 0 ([0, 0, 1, 0, 0, 7] ++ (List.replicate 7 (sampleOutput 7)).flatten) :: List.replicate 10 (press true))
    (press true)
    (fun h r => ((r :: h).take 11).all (fun r => r.event.approves) ∧ counted Event.approves ((r :: h).take 11) = 11 ∧
      ((r :: h).drop 11).head?.any fun r' => decide (r'.post.flow = .txOutput)) (by decide +kernel)
  obtain ⟨happroved, hcounted, hhead⟩ := of_decide_eq_true hP
  rw [← List.take_append_drop 11 (r :: h)] at run
  obtain ⟨d, before, after⟩ := run.split
  have hflow : d.flow = .txOutput := by
    generalize (r :: h).drop 11 = earlier at before hhead
    cases earlier with
    | nil => cases hhead
    | cons r' _ => exact before.post_eq ▸ of_decide_eq_true hhead
  have hcommands : ∀ r' ∈ (r :: h).take 11, ¬r'.event.IsCommand := by
    intro r' hmem
    exact not_isCommand_of_approves (List.all_eq_true.mp happroved r' hmem)
  have hasks : d.flow.asks = true := by rw [hflow]; rfl
  obtain ⟨hreplies, hends⟩ := approvals_answer before hasks after hcommands
  have hclosed : r.post.flow.asks = false := hends (by rw [hcounted]; decide)
  rw [hclosed] at hreplies
  exact ⟨_, _, d, r.post, before, hflow, after, hcounted, hclosed, hreplies⟩

end Runs

end HathorApp
