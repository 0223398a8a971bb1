import HathorApp.BufferBounds

/-!
The paths handed to `derive_private_key`. The path reader stores the levels before it tests them, so a
refused path stays in the context. A request derives its path only when the reader has accepted it, and so
does a sign command. A data command derives the paths of the change list when it decodes an output, and a
session has outputs to decode only once its whole change list was accepted.
-/

namespace HathorApp

open ProgramLogic StreamDecoder TraceRun

/-- Every path handed to the derivation is one the path reader accepts. -/
def DerivesWellFormed (w : List Obs) : Prop := ∀ path, Obs.derive path ∈ w → path.WellFormed

/-- No path is handed to the derivation. -/
def Underived (w : List Obs) : Prop := ∀ path, Obs.derive path ∉ w

@[simp] theorem underived_nil : Underived [] := fun _ => List.not_mem_nil

@[simp] theorem underived_append (u v : List Obs) : Underived (u ++ v) ↔ Underived u ∧ Underived v := by
  simp only [Underived, List.mem_append, not_or, forall_and]

@[simp] theorem underived_cons (e : Obs) (w : List Obs) :
    Underived (e :: w) ↔ (∀ path, e ≠ .derive path) ∧ Underived w := by
  simp only [Underived, List.mem_cons, not_or, forall_and, ne_eq, eq_comm]

theorem Underived.derives {w : List Obs} (hw : Underived w) : DerivesWellFormed w :=
  fun path hmem => absurd hmem (hw path)

theorem DerivesWellFormed.append {u v : List Obs} (hu : DerivesWellFormed u) (hv : DerivesWellFormed v) :
    DerivesWellFormed (u ++ v) :=
  fun path hmem => (List.mem_append.mp hmem).elim (hu path) (hv path)

theorem derives_one {path : Bip32Path} (hpath : path.WellFormed) : DerivesWellFormed [.derive path] := by
  intro path' hmem
  cases List.mem_singleton.mp hmem
  exact hpath

/-- The parent of a path that is accepted would be accepted. -/
theorem Bip32Path.WellFormed.dropLast {path : Bip32Path} (h : path.WellFormed) :
    Bip32Path.WellFormed path.dropLast := by
  have hlen : path.dropLast.length = path.length - 1 := List.length_dropLast
  have hdepth := h.depth
  have hmax : maxBip32Path = 5 := rfl
  have hlevel : ∀ i, i < path.dropLast.length → path.dropLast.getD i 0 = path.getD i 0 := by
    intro i hi
    rw [List.getD_eq_getElem _ _ hi, List.getElem_dropLast, List.getD_eq_getElem _ _ (by omega)]
  refine ⟨by omega, fun hchange => ?_, fun hindex => ?_⟩
  · rw [hlevel 3 hchange]
    exact h.change (by omega)
  · exact absurd hindex (by omega)

section Underived

/-- A program in which nothing is derived. -/
def NoDerivation (_ _ : Device) (w : List Obs) : Prop := Underived w

theorem noDerivation_composable : Composable NoDerivation where
  refl _ := underived_nil
  trans h h' := (underived_append _ _).mpr ⟨h, h'⟩

theorem underived_replyOf (data : Bytes) (sw : Nat) : Underived [replyOf data sw] := by
  unfold replyOf
  split
  · simp
  · simp

theorem underived_ioSendSw (sw : Nat) : Within NoDerivation (ioSendSw sw) := by
  intro d
  rw [wp_ioSendSw]
  simp [NoDerivation]

theorem underived_ioSendResponse (data : Bytes) (sw : Nat) : Within NoDerivation (ioSendResponse data sw) := by
  intro d
  rw [wp_ioSendResponse]
  exact underived_replyOf data sw

theorem underived_uiMenuMain : Within NoDerivation uiMenuMain := by
  intro d
  rw [wp_uiMenuMain]
  simp [NoDerivation]

theorem underived_askUser (callback : Callback) (flow : Flow) : Within NoDerivation (askUser callback flow) := by
  intro d
  rw [wp_askUser]
  simp [NoDerivation]

theorem underived_bzeroAndReply (sw : Nat) : Within NoDerivation (bzeroAndReply sw) := by
  intro d
  rw [wp_bzeroAndReply]
  simp [NoDerivation]

theorem underived_modify (f : Device → Device) : Within NoDerivation (Prog.modify f) := .modify fun _ => underived_nil

theorem underived_getSecret (o : Outcome) : Within NoDerivation (getSecret o) := by
  intro d
  rw [wp_getSecret]
  exact underived_nil

theorem underived_handlerSignTokenData (cdata : Buffer) : Within NoDerivation (handlerSignTokenData cdata) := by
  have hc := noDerivation_composable
  refine .bind hc (underived_modify _) fun _ => ?_
  split
  refine .bind hc (underived_modify _) fun _ => .ite (fun _ => ?_) fun _ => underived_ioSendSw _
  refine .bind hc (.get hc) fun d => .ite (fun _ => ?_) fun _ => ?_
  · exact .bind hc (underived_bzeroAndReply _) fun _ => .pure hc _
  · exact .bind hc (underived_modify _) fun _ => .bind hc (underived_askUser _ _) fun _ => .pure hc _

variable (pf : Platform) (o : Outcome)

theorem underived_checkTokenSignatureFromApdu (cdata : Buffer) :
    Within NoDerivation (checkTokenSignatureFromApdu pf o cdata) := by
  have hc := noDerivation_composable
  unfold checkTokenSignatureFromApdu
  split
  · exact .pure hc _
  · split
    · exact .pure hc _
    · exact .bind hc (underived_getSecret o) fun _ => .pure hc _

theorem underived_replyTokenCheck (isTokenVerified : Nat) : Within NoDerivation (replyTokenCheck isTokenVerified) :=
  .ite (fun _ => underived_ioSendSw _) fun _ => underived_ioSendSw _

theorem underived_handlerVerifyTokenSignature (cdata : Buffer) :
    Within NoDerivation (handlerVerifyTokenSignature pf o cdata) := by
  have hc := noDerivation_composable
  refine .bind hc (underived_modify _) fun _ =>
    .bind hc (underived_checkTokenSignatureFromApdu pf o cdata) fun _ => ?_
  exact .ite (fun _ => underived_ioSendSw _) fun _ => underived_replyTokenCheck _

theorem underived_handlerSignTx_done (cdata : Buffer) (chunk : Nat) :
    Within NoDerivation (handlerSignTx pf o cdata .done chunk) := by
  have hc := noDerivation_composable
  refine .bind hc (underived_modify _) fun _ => .bind hc (.get hc) fun _ => ?_
  intro d
  rw [wp_bzeroMenuReply]
  simp [NoDerivation]

theorem DisplayEnds.underived {pf : Platform} {d d' : Device} {w : List Obs} (h : DisplayEnds pf d d' w) :
    Underived w := by
  cases h with
  | checked check => cases check <;> simp
  | failed => simp
  | shown => simp

theorem underived_runCallback (callback : Callback) (choice : Bool) :
    Within NoDerivation (runCallback pf o callback choice) := by
  have hc := noDerivation_composable
  have hreply : ∀ sw, Within NoDerivation (ioSendSw sw >>= fun _ => uiMenuMain) :=
    fun sw => .bind hc (underived_ioSendSw sw) fun _ => underived_uiMenuMain
  cases callback with
  | uiActionTxConfirm =>
      refine .ite (fun _ => .bind hc (underived_modify _) fun _ => .bind hc (underived_ioSendSw _) fun _ => ?_)
        fun _ => underived_bzeroAndReply _
      intro d
      rw [wp_uxFlowInit]
      simp [NoDerivation]
  | uiConfirmOutput =>
      cases choice with
      | true =>
          intro d
          refine wp_mono (uiConfirmOutput_spec pf o d) ?_ (fun _ _ _ h => h.elim) fun _ => trivial
          rintro _ d' w ⟨_, _, hends⟩
          exact hends.underived
      | false => exact underived_bzeroAndReply _
  | uiActionConfirmXpub =>
      refine .ite (fun _ => .bind hc (.bind hc (.get hc) fun d => ?_) fun _ => underived_uiMenuMain)
        fun _ => underived_bzeroAndReply _
      exact underived_ioSendResponse _ _
  | uiActionConfirmAddress => exact .ite (fun _ => hreply _) fun _ => underived_bzeroAndReply _
  | uiConfirmResetTokenSignatures =>
      exact .ite (fun _ => .bind hc (underived_modify _) fun _ => hreply _) fun _ => hreply _
  | uiActionSignTokenData =>
      refine .ite (fun _ => .bind hc (.bind hc (underived_getSecret o) fun _ => .bind hc (.get hc) fun d => ?_)
        fun _ => underived_uiMenuMain) fun _ => underived_bzeroAndReply _
      exact underived_ioSendResponse _ _

theorem Registers.underived {pf : Platform} {o : Outcome} {first : Bool} {cdata : Buffer} {d d' : Device}
    {w : List Obs} (h : Registers pf o first cdata d d' w) : Underived w := by
  cases h <;> simp

theorem Settles.underived {d d' : Device} {r : Ending} {w : List Obs} (h : Settles d r d' w) : Underived w := by
  have hreply : Underived r.reply := by
    cases r <;> simp [Ending.reply]
  cases h with
  | resumes => exact hreply
  | restarts => exact (underived_append _ _).mpr ⟨hreply, by simp⟩

end Underived

section Requests

variable (pf : Platform) (o : Outcome)

theorem readContextPath_spec (cdata : Buffer) (d : Device) :
    wp (readContextPath cdata) (fun read d' w => w = [] ∧ (read = true → d'.gContext.bip32Path.WellFormed))
      (fun _ _ _ => False) False d := by
  unfold readContextPath
  obtain ⟨⟨read, path, rest⟩, hread⟩ : ∃ r, bufferReadBip32Path cdata d.gContext.bip32Path = r := ⟨_, rfl⟩
  simp only [wp_bind, wp_get, wp_modify, wp_pure, hread]
  refine ⟨rfl, fun haccepted => ?_⟩
  subst haccepted
  exact bufferReadBip32Path_wellFormed hread

theorem deriveAddress_derives {d : Device} (hpath : d.gContext.bip32Path.WellFormed) :
    wp (deriveAddress pf o) (fun _ d' w => d'.gContext.bip32Path.WellFormed ∧ DerivesWellFormed w)
      (fun _ _ w => DerivesWellFormed w) False d := by
  unfold deriveAddress
  rw [wp_bind, wp_get, wp_bind, wp_emit]
  split
  · exact derives_one hpath
  · exact ⟨hpath, derives_one hpath⟩

theorem uiDisplayConfirmAddress_derives {d : Device} (hpath : d.gContext.bip32Path.WellFormed) :
    wp (uiDisplayConfirmAddress pf o) (fun _ _ w => DerivesWellFormed w) (fun _ _ w => DerivesWellFormed w) False
      d := by
  unfold uiDisplayConfirmAddress
  rw [wp_bind, wp_get, wp_ite]
  refine ⟨fun _ => ?_, fun _ => ?_⟩
  · simp only [wp_bind, wp_modify, wp_ioSendSw]
    exact Underived.derives (by simp)
  · simp only [wp_bind, wp_modify, wp_emit]
    split
    · simp only [wp_bind, wp_bzeroAndReply, wp_pure]
      exact (derives_one hpath).append (Underived.derives (by simp))
    · simp only [wp_bind, wp_modify, wp_askUser, wp_pure]
      exact (derives_one hpath).append (Underived.derives (by simp))

/-- A request starts over with a path of its own. -/
theorem readPath_then {p : App Int} {cdata : Buffer} {reqType : RequestType} {F : Prop}
    (hp : ∀ d : Device, d.gContext.bip32Path.WellFormed →
      wp p (fun _ _ w => DerivesWellFormed w) (fun _ _ w => DerivesWellFormed w) F d) (d : Device) :
    wp (do
        Prog.modify (initRequest reqType)
        if ← readContextPath cdata then p else ioSendSw swWrongDataLength)
      (fun _ _ w => DerivesWellFormed w) (fun _ _ w => DerivesWellFormed w) F d := by
  rw [wp_bind, wp_modify, wp_bind]
  refine wp_mono (readContextPath_spec cdata _) ?_ (fun _ _ _ h => h.elim) False.elim
  rintro read d' w ⟨rfl, hread⟩
  rw [wp_ite]
  refine ⟨fun haccepted => hp d' (hread haccepted), fun _ => ?_⟩
  rw [wp_ioSendSw]
  exact Underived.derives (by simp)

theorem handlerGetAddress_derives (cdata : Buffer) (d : Device) :
    wp (handlerGetAddress pf o cdata) (fun _ _ w => DerivesWellFormed w) (fun _ _ w => DerivesWellFormed w) False
      d := by
  refine readPath_then (fun d hpath => ?_) d
  rw [wp_bind]
  refine wp_mono (deriveAddress_derives pf o hpath) ?_ (fun _ _ _ h => h) id
  rintro _ d' w ⟨hpath', hw⟩
  exact wp_mono (uiDisplayConfirmAddress_derives pf o hpath') (fun _ _ _ h => hw.append h)
    (fun _ _ _ h => hw.append h) id

/-- A derivation that fails at the root stops the request before the parent is asked for. -/
theorem deriveXpubKey_derives {d : Device} (hpath : d.gContext.bip32Path.WellFormed) :
    wp (deriveXpubKey pf o)
      (fun _ d' w => d'.gContext.bip32Path.WellFormed ∧
        (d'.gContext.bip32Path = [] → o.ok (.deriveBip32 []) = true) ∧ DerivesWellFormed w)
      (fun _ _ w => DerivesWellFormed w) False d := by
  unfold deriveXpubKey
  rw [wp_bind, wp_get, wp_bind, wp_emit]
  cases hkey : derivePrivateKey pf o d.gContext.bip32Path with
  | none => exact derives_one hpath
  | some key =>
      have hroot : d.gContext.bip32Path = [] → o.ok (.deriveBip32 []) = true := by
        intro hnil
        by_contra hfails
        rw [hnil, derivePrivateKey, if_neg hfails] at hkey
        cases hkey
      dsimp only
      split
      · exact derives_one hpath
      · exact ⟨hpath, hroot, derives_one hpath⟩

theorem deriveXpubParent_derives {d : Device} (hpath : d.gContext.bip32Path.WellFormed) :
    wp (deriveXpubParent pf o) (fun _ _ w => DerivesWellFormed w) (fun _ _ w => DerivesWellFormed w)
      (d.gContext.bip32Path = []) d := by
  unfold deriveXpubParent
  rw [wp_bind, wp_get, wp_ite]
  refine ⟨fun hempty => List.length_eq_zero_iff.mp hempty, fun _ => ?_⟩
  rw [wp_bind, wp_emit]
  split
  · exact derives_one hpath.dropLast
  · exact derives_one hpath.dropLast

theorem uiDisplayXpubConfirm_derives (d : Device) :
    wp uiDisplayXpubConfirm (fun _ _ w => DerivesWellFormed w) (fun _ _ w => DerivesWellFormed w) False d := by
  unfold uiDisplayXpubConfirm
  rw [wp_bind, wp_get, wp_ite]
  refine ⟨fun _ => ?_, fun _ => ?_⟩
  · simp only [wp_bind, wp_modify, wp_ioSendSw]
    exact Underived.derives (by simp)
  · simp only [wp_bind, wp_askUser, wp_pure]
    exact Underived.derives (by simp)

theorem handlerGetXpub_derives (cdata : Buffer) (d : Device) :
    wp (handlerGetXpub pf o cdata) (fun _ _ w => DerivesWellFormed w) (fun _ _ w => DerivesWellFormed w)
      (o.ok (.deriveBip32 []) = true) d := by
  refine readPath_then (fun d hpath => ?_) d
  rw [wp_bind]
  refine wp_mono (deriveXpubKey_derives pf o hpath) ?_ (fun _ _ _ h => h) False.elim
  rintro _ d₁ w ⟨hpath₁, hroot, hw⟩
  rw [wp_bind]
  refine wp_mono (deriveXpubParent_derives pf o hpath₁) ?_ (fun _ _ _ h => hw.append h) hroot
  intro _ d₂ w₂ hw₂
  exact wp_mono (uiDisplayXpubConfirm_derives d₂) (fun _ _ _ h => hw.append (hw₂.append h))
    (fun _ _ _ h => hw.append (hw₂.append h)) False.elim

end Requests

section Data

/-- The paths of the change list of a session that has outputs were accepted. -/
def SignTxCtx.PathsAccepted (tx : SignTxCtx) : Prop := tx.outputsLen ≠ 0 → ∀ info ∈ tx.changes, info.path.WellFormed

theorem paths_invariant (pf : Platform) : DecodedInvariant pf SignTxCtx.PathsAccepted where
  zero h := absurd rfl h
  same := by
    intro tx tx' htx hsame
    have hpaths := congrArg SignTxCtx.PathsAccepted hsame
    exact (iff_of_eq hpaths).mpr htx
  unread := by
    rintro tx ⟨_, _, _, _, _, _, _, _, rfl⟩ h
    exact absurd rfl h
  started paths _ _ := paths
  continued htx _ := htx

/-- The decoder derives the paths of the change list, and only when there are outputs. -/
def DerivesChanges (tx tx' : SignTxCtx) (w : List Obs) : Prop :=
  tx'.changes = tx.changes ∧ tx'.outputsLen = tx.outputsLen ∧
    ∀ path, Obs.derive path ∈ w → tx.outputsLen ≠ 0 ∧ ∃ info ∈ tx.changes, info.path = path

theorem derivesChanges_composable : Composable DerivesChanges where
  refl _ := ⟨rfl, rfl, fun _ hmem => absurd hmem List.not_mem_nil⟩
  trans := by
    rintro tx₁ tx₂ tx₃ u v ⟨hchanges, houtputs, hu⟩ ⟨hchanges', houtputs', hv⟩
    refine ⟨hchanges'.trans hchanges, houtputs'.trans houtputs, fun path hmem => ?_⟩
    rcases List.mem_append.mp hmem with hmem | hmem
    · exact hu path hmem
    · rw [← hchanges, ← houtputs]
      exact hv path hmem

theorem derivesChanges_quiet {tx tx' : SignTxCtx} {w : List Obs} (hchanges : tx'.changes = tx.changes)
    (houtputs : tx'.outputsLen = tx.outputsLen) (hw : Underived w) : DerivesChanges tx tx' w :=
  ⟨hchanges, houtputs, fun path hmem => absurd hmem (hw path)⟩

variable (verify : ChangeOutputInfo → TxOutput → Option Bool) (registry : TokenDataCtx)

theorem verifyChangeEntries_derives (output : TxOutput) (changes : List ChangeOutputInfo) :
    Within (fun tx tx' w => tx' = tx ∧ ∀ path, Obs.derive path ∈ w → ∃ info ∈ changes, info.path = path)
      (verifyChangeEntries verify output changes) := by
  induction changes with
  | nil => exact fun tx => ⟨rfl, fun _ hmem => absurd hmem List.not_mem_nil⟩
  | cons info rest ih =>
      have hrest : ∀ tx, wp (verifyChangeEntries verify output rest)
          (fun _ tx' w => tx' = tx ∧ ∀ path, Obs.derive path ∈ w → ∃ i ∈ info :: rest, i.path = path)
          (fun _ tx' w => tx' = tx ∧ ∀ path, Obs.derive path ∈ w → ∃ i ∈ info :: rest, i.path = path) True tx := by
        intro tx
        have hlater : ∀ {w : List Obs}, (∀ path, Obs.derive path ∈ w → ∃ i ∈ rest, i.path = path) →
            ∀ path, Obs.derive path ∈ w → ∃ i ∈ info :: rest, i.path = path := by
          intro w hw path hmem
          obtain ⟨i, hi, hpath⟩ := hw path hmem
          exact ⟨i, List.mem_cons_of_mem info hi, hpath⟩
        exact wp_mono (ih tx) (fun _ _ _ h => ⟨h.1, hlater h.2⟩) (fun _ _ _ h => ⟨h.1, hlater h.2⟩) id
      have hc : Composable fun (tx tx' : SignTxCtx) (w : List Obs) =>
          tx' = tx ∧ ∀ path, Obs.derive path ∈ w → ∃ i ∈ info :: rest, i.path = path := by
        refine ⟨fun _ => ⟨rfl, fun _ hmem => absurd hmem List.not_mem_nil⟩, ?_⟩
        rintro tx₁ tx₂ tx₃ u v ⟨rfl, hu⟩ ⟨rfl, hv⟩
        exact ⟨rfl, fun path hmem => (List.mem_append.mp hmem).elim (hu path) (hv path)⟩
      have hemit : Within (fun (tx tx' : SignTxCtx) (w : List Obs) =>
          tx' = tx ∧ ∀ path, Obs.derive path ∈ w → ∃ i ∈ info :: rest, i.path = path)
          (Prog.emit (.derive info.path)) := by
        refine .emit fun tx => ⟨rfl, fun path hmem => ⟨info, List.mem_cons_self, ?_⟩⟩
        cases List.mem_singleton.mp hmem
        rfl
      refine .ite (fun _ => .bind hc hemit fun _ => ?_) fun _ => hrest
      split
      · exact .throw hc _
      · exact .throw hc _
      · exact hrest

theorem decodeOutput_derives {tx : SignTxCtx} (hpending : tx.currentOutput < tx.outputsLen) :
    wp (decodeOutput verify tx) (fun _ tx' w => DerivesChanges tx tx' w) (fun _ tx' w => DerivesChanges tx tx' w)
      True tx := by
  have hquiet : ∀ {tx'}, tx'.changes = tx.changes → tx'.outputsLen = tx.outputsLen → DerivesChanges tx tx' [] :=
    fun hchanges houtputs => derivesChanges_quiet hchanges houtputs underived_nil
  have houtputs : tx.outputsLen ≠ 0 := by omega
  unfold decodeOutput
  split
  · exact hquiet rfl rfl
  · rw [wp_ite]
    refine ⟨fun _ => hquiet rfl rfl, fun _ => ?_⟩
    rw [wp_ite]
    refine ⟨fun _ => hquiet rfl rfl, fun _ => ?_⟩
    rw [wp_bind, wp_modify, wp_bind]
    refine wp_mono (verifyChangeEntries_derives verify _ tx.changes _) ?_ ?_ id
    · rintro _ tx' w ⟨rfl, hw⟩
      have hderives : DerivesChanges tx tx w := ⟨rfl, rfl, fun path hmem => ⟨houtputs, hw path hmem⟩⟩
      have hthen : ∀ {tx' u}, tx'.changes = tx.changes → tx'.outputsLen = tx.outputsLen → Underived u →
          DerivesChanges tx tx' (w ++ u) :=
        fun hchanges houtputs hu => derivesChanges_composable.trans hderives (derivesChanges_quiet hchanges houtputs hu)
      rw [wp_bind, wp_modify, wp_ite]
      refine ⟨fun _ => hthen rfl rfl underived_nil, fun _ => ?_⟩
      rw [wp_bind, wp_modify, wp_emit]
      exact hthen rfl rfl (by simp)
    · rintro e tx' w ⟨rfl, hw⟩
      exact ⟨rfl, rfl, fun path hmem => ⟨houtputs, hw path hmem⟩⟩

theorem _decodeElements_derives : Within DerivesChanges (_decodeElements verify registry) := by
  intro tx
  have hquiet : ∀ {tx'}, tx'.changes = tx.changes → tx'.outputsLen = tx.outputsLen → DerivesChanges tx tx' [] :=
    fun hchanges houtputs => derivesChanges_quiet hchanges houtputs underived_nil
  unfold _decodeElements
  simp only [wp_bind, wp_get, wp_ite, wp_pure, wp_throw, List.nil_append, List.append_nil]
  refine ⟨fun _ => ?_, fun _ => ⟨fun _ => ?_, fun _ => ⟨fun hpending => ?_, fun _ => hquiet rfl rfl⟩⟩⟩
  · unfold decodeTokenUid
    rw [wp_ite]
    refine ⟨fun _ => hquiet rfl rfl, fun _ => ?_⟩
    split
    · exact hquiet rfl rfl
    · rw [wp_ite]
      exact ⟨fun _ => hquiet rfl rfl, fun _ => trivial⟩
  · unfold decodeInput
    rw [wp_ite]
    refine ⟨fun _ => hquiet rfl rfl, fun _ => ?_⟩
    rw [wp_ite]
    exact ⟨fun _ => hquiet rfl rfl, fun _ => hquiet rfl rfl⟩
  · exact decodeOutput_derives verify hpending

theorem decodeLoop_derives (fuel : Nat) : Within DerivesChanges (decodeLoop verify registry fuel) := by
  have hc := derivesChanges_composable
  induction fuel with
  | zero => exact .pure hc _
  | succ fuel ih =>
      exact .bind hc (_decodeElements_derives verify registry) fun _ => .ite (fun _ => ih) fun _ => .pure hc _

theorem decodeElements_derives : Within DerivesChanges (decodeElements verify registry) := by
  have hc := derivesChanges_composable
  refine .bind hc (.get hc) fun tx => .catchAll hc ?_ fun _ => .pure hc _
  exact .bind hc (decodeLoop_derives verify registry _) fun _ => .ite (fun _ => .pure hc _) fun _ => .overrun

/-- Every context the loop comes to has the change list it started with. -/
theorem LoopReaches.changes {tx tx₁ : SignTxCtx} (h : LoopReaches verify registry tx tx₁) :
    tx₁.changes = tx.changes ∧ tx₁.outputsLen = tx.outputsLen := by
  induction h with
  | start => exact ⟨rfl, rfl⟩
  | @iterate tx₁ _ _ _ again ih =>
      have hderives := _decodeElements_derives verify registry tx₁
      rw [wp_of_ret again] at hderives
      exact ⟨hderives.1.trans ih.1, hderives.2.1.trans ih.2⟩

variable (pf : Platform) (o : Outcome)

theorem decodeChunk_derives {d : Device} (hd : d.tx.PathsAccepted) :
    wp (decodeChunk pf o) (fun _ _ w => DerivesWellFormed w) (fun _ _ w => DerivesWellFormed w) True d := by
  unfold decodeChunk
  rw [wp_bind, wp_get, wp_bind, wp_onTx]
  have hw : ∀ {tx' w}, DerivesChanges d.tx tx' w → DerivesWellFormed w := by
    rintro tx' w ⟨_, _, hw⟩ path hmem
    obtain ⟨houtputs, info, hinfo, rfl⟩ := hw path hmem
    exact hd houtputs info hinfo
  refine wp_mono (decodeElements_derives (verifyChange pf o) d.gTokenSymbols d.tx) ?_ (fun _ _ _ h => hw h) id
  intro result tx' w hderives
  have hquiet : ∀ {u}, Underived u → DerivesWellFormed ([] ++ (w ++ u)) := fun hu => (hw hderives).append hu.derives
  rw [wp_ite]
  refine ⟨fun _ => ?_, fun _ => ?_⟩
  · rw [wp_bind, wp_bzeroAndReply, wp_pure]
    exact hquiet (by simp)
  · rw [wp_ite]
    refine ⟨fun _ => ?_, fun _ => ?_⟩
    · rw [wp_bind, wp_get, wp_ite]
      refine ⟨fun _ => ?_, fun _ => ?_⟩
      · rw [wp_bind]
        refine wp_mono (uiDisplayTxOutputs_spec pf o _) ?_ (fun _ _ _ h => h.elim) fun _ => trivial
        rintro ret d' u ⟨_, _, _, _, hends⟩
        rw [wp_pure]
        exact hquiet (by simp [hends.underived])
      · rw [wp_bind, wp_ioSendSw, wp_pure]
        exact hquiet (by simp)
    · rw [wp_pure]
      exact hquiet (by simp)

/-- The change list that is in place once a chunk is taken was accepted. -/
theorem takeChunk_paths {data : Bytes} (hdata : data.length ≤ decodeBufferLen) (chunk : Nat) {d : Device}
    (hd : d.tx.PathsAccepted) :
    wp (takeChunk o (Buffer.ofData data) chunk) (fun _ d₁ w => w = [] ∧ d₁.tx.PathsAccepted)
      (fun _ _ w => w = []) False d := by
  rcases Nat.eq_zero_or_pos chunk with rfl | hlater
  · by_cases hstate : d.state = .recvData
    · unfold takeChunk
      rw [if_pos rfl, wp_bind, wp_get, if_pos hstate]
      rfl
    · refine wp_mono (takeChunk_first_spec o hdata d hstate) ?_ ?_ id
      · rintro _ d₁ w ⟨rfl, changeLen, changeInfo, offset, _, hpaths, _, _, rfl⟩
        exact ⟨rfl, fun _ => hpaths⟩
      · rintro e d₁ w ⟨rfl, _⟩
        rfl
  · rw [takeChunk_later o hlater]
    cases cxHashNoThrow o d.tx.sha256 data with
    | none => rfl
    | some m =>
        dsimp only
        split
        · rfl
        · exact ⟨rfl, hd⟩

theorem handlerSignTx_data_derives {data : Bytes} (hdata : data.length ≤ decodeBufferLen) (chunk : Nat) {d : Device}
    (hd : d.tx.PathsAccepted) :
    wp (handlerSignTx pf o (Buffer.ofData data) .data chunk) (fun _ _ w => DerivesWellFormed w)
      (fun _ _ w => DerivesWellFormed w) True d := by
  unfold handlerSignTx
  rw [wp_bind, wp_modify, wp_bind, wp_get]
  have hreset : (d.withTx d.tx.resetCall).tx.PathsAccepted := hd
  generalize d.withTx d.tx.resetCall = d at hreset
  dsimp only
  rw [wp_ite]
  refine ⟨fun _ => ?_, fun _ => ?_⟩
  · rw [wp_bzeroMenuReply]
    exact Underived.derives (by simp)
  · rw [wp_ite]
    refine ⟨fun _ => ?_, fun _ => ?_⟩
    · rw [wp_bzeroMenuReply]
      exact Underived.derives (by simp)
    · rw [wp_accepted, receiveData, wp_bind]
      refine wp_mono (takeChunk_paths o hdata chunk hreset) ?_ ?_ False.elim
      · rintro _ d₁ w ⟨rfl, hd₁⟩
        exact decodeChunk_derives pf o hd₁
      · rintro e d₁ w rfl
        exact underived_nil.derives

end Data

section Sign

variable {pf : Platform} {o : Outcome}

theorem Sighash.derives {d d' : Device} {signature : Option Bytes} {w : List Obs}
    (h : Sighash pf o d signature d' w) (hpath : d.gContext.bip32Path.WellFormed) : DerivesWellFormed w := by
  have hthen : ∀ digest, DerivesWellFormed [.derive d.gContext.bip32Path, .ecdsa digest] :=
    fun digest => (derives_one hpath).append (Underived.derives (w := [.ecdsa digest]) (by simp))
  cases h with
  | keyless => exact derives_one hpath
  | undigested => exact derives_one hpath
  | unsigned => exact hthen _
  | signed => exact hthen _

theorem SignEffect.derives {data : Bytes} {d d' : Device} {v : Int} {w : List Obs}
    (h : SignEffect pf o data d v d' w) : DerivesWellFormed w := by
  cases h with
  | unapproved => exact Underived.derives (by simp)
  | unread => exact Underived.derives (by simp)
  | pathless => exact Underived.derives (by simp)
  | failed _ read _ sighash =>
      exact (sighash.derives (bufferReadBip32Path_wellFormed read)).append (Underived.derives (by simp))
  | signed _ read _ sighash =>
      exact (sighash.derives (bufferReadBip32Path_wellFormed read)).append
        (Underived.derives (underived_replyOf _ _))

end Sign

section Runs

variable {pf : Platform} {o : Outcome}

/-- A command derives what its handler derives. -/
theorem handleCommand_derives {raw : Bytes} {cmd : Command} {F : Prop} {d : Device}
    (hparse : apduParser raw = some cmd)
    (h : wp (apduDispatcher pf o cmd) (fun _ _ w => DerivesWellFormed w) (fun _ _ w => DerivesWellFormed w) F
      (wake d)) :
    wp (handleCommand pf o raw) (fun _ _ w => DerivesWellFormed w) (fun _ _ _ => False) F d := by
  unfold handleCommand
  rw [wp_bind, wp_modify, wp_catchAll, hparse]
  dsimp only
  rw [wp_bind]
  refine wp_mono h ?_ ?_ id
  · intro v d₁ w hw
    rw [wp_ite]
    refine ⟨fun _ => ?_, fun hnonneg => ?_⟩
    · rw [wp_restartApp]
      exact hw.append (Underived.derives (by simp))
    · refine wp_mono (ioRecvCommand_settles (Int.not_lt.mp hnonneg) d₁) ?_ (fun _ _ _ h => h.elim) False.elim
      exact fun _ _ _ hsettles => hw.append hsettles.underived.derives
  · intro e d₁ w hw
    refine wp_mono (replyException_settles e d₁) ?_ (fun _ _ _ h => h) False.elim
    exact fun _ _ _ hsettles => hw.append hsettles.underived.derives

theorem handle_derives (e : Event) {d : Device} (hd : d.tx.PathsAccepted) :
    wp (handle pf e) (fun _ _ w => DerivesWellFormed w) (fun _ _ w => DerivesWellFormed w) True d := by
  have hquiet : ∀ {p : App Int}, Within NoDerivation p → ∀ d,
      wp p (fun _ _ w => DerivesWellFormed w) (fun _ _ w => DerivesWellFormed w) True d :=
    fun hp d => wp_mono (hp d) (fun _ _ _ h => h.derives) (fun _ _ _ h => h.derives) id
  cases e with
  | apdu o raw =>
      cases hparse : apduParser raw with
      | none =>
          show wp (handleCommand pf o raw) _ _ _ _
          unfold handleCommand
          rw [wp_bind, wp_modify, wp_catchAll, hparse]
          dsimp only
          rw [wp_bind, wp_ioSendSw]
          refine wp_mono (ioRecvCommand_settles (Int.le_refl 0) _) ?_ (fun _ _ _ h => h.elim) fun _ => trivial
          exact fun _ _ w hsettles => Underived.derives (by simp [hsettles.underived])
      | some cmd =>
          have hlimit : decodeBufferLen = 300 := rfl
          have hfits : cmd.data.length ≤ 255 := apduParser_fits hparse
          have hlen : cmd.data.length ≤ decodeBufferLen := by omega
          have hwake : (wake d).tx.PathsAccepted := by
            unfold Device.tx
            rwa [wake_gContext]
          refine wp_mono (handleCommand_derives (F := True) hparse ?_) (fun _ _ _ h => h) (fun _ _ _ h => h.elim) id
          have hdispatches := apduDispatcher_dispatches pf o cmd
          generalize apduDispatcher pf o cmd = p at hdispatches
          cases hdispatches with
          | refused => exact hquiet (underived_ioSendSw _) _
          | getVersion => exact hquiet (underived_ioSendResponse _ _) _
          | getAddress =>
              exact wp_mono (handlerGetAddress_derives pf o _ _) (fun _ _ _ h => h) (fun _ _ _ h => h) False.elim
          | getXpub =>
              exact wp_mono (handlerGetXpub_derives pf o _ _) (fun _ _ _ h => h) (fun _ _ _ h => h) fun _ => trivial
          | signTxData => exact handlerSignTx_data_derives pf o hlen _ hwake
          | signTxSign =>
              refine wp_mono (handlerSignTx_sign_spec pf o _ _ _) ?_ (fun _ _ _ h => h.elim) False.elim
              exact fun _ _ _ heffect => heffect.derives
          | signTxDone => exact hquiet (underived_handlerSignTx_done pf o _ _) _
          | signTokenData => exact hquiet (underived_handlerSignTokenData _) _
          | sendTokenData =>
              refine wp_mono (handlerSendTokenData_spec pf o _ _ _) ?_ (fun _ _ _ h => h.elim) False.elim
              exact fun _ _ _ hregisters => hregisters.underived.derives
          | verifyTokenSignature => exact hquiet (underived_handlerVerifyTokenSignature pf o _) _
          | resetTokenSignatures =>
              have hc := noDerivation_composable
              exact hquiet (.bind hc (underived_askUser _ _) fun _ => .pure hc _) _
  | press o choice =>
      have hc := noDerivation_composable
      have hpress : Within NoDerivation (handlePress pf o choice) := by
        refine .bind hc (.get hc) fun d => .ite (fun _ => ?_) fun _ => .pure hc _
        split
        · exact .overrun
        · refine .catchAll hc (underived_runCallback pf o _ _) fun e d => ?_
          refine wp_mono (replyException_settles e d) ?_ (fun _ _ _ h => h.elim) False.elim
          exact fun _ _ _ hsettles => hsettles.underived
      exact wp_mono (hpress d) (fun _ _ _ h => h.derives) (fun _ _ _ h => h.derives) id
  | quit =>
      have hc := noDerivation_composable
      have hquit : Within NoDerivation handleQuit := by
        refine .bind hc (.get hc) fun d => .ite (fun _ => ?_) fun _ => .pure hc _
        exact .bind hc (underived_modify _) fun _ => underived_uiMenuMain
      exact wp_mono (hquit d) (fun _ _ _ h => h.derives) (fun _ _ _ h => h.derives) id

/-- The command asks for a key of its own path. -/
def Command.AsksKey (cmd : Command) : Prop := cmd.Is insGetAddress ∨ cmd.Is insGetXpub

theorem handle_derives_request {raw : Bytes} {cmd : Command} {o : Outcome} (hparse : apduParser raw = some cmd)
    (hasks : cmd.AsksKey) (hroot : o.ok (.deriveBip32 []) = false) (d : Device) :
    wp (handle pf (.apdu o raw)) (fun _ _ w => DerivesWellFormed w) (fun _ _ _ => False) False d := by
  have hother : ∀ {ins}, cmd.Is ins → ins ≠ insGetAddress → ins ≠ insGetXpub → False := by
    intro ins his haddress hxpub
    rcases hasks with hasks | hasks
    · exact haddress (his.2.symm.trans hasks.2)
    · exact hxpub (his.2.symm.trans hasks.2)
  refine handleCommand_derives hparse ?_
  have hdispatches := apduDispatcher_dispatches pf o cmd
  generalize apduDispatcher pf o cmd = p at hdispatches
  cases hdispatches with
  | refused =>
      rw [wp_ioSendSw]
      exact Underived.derives (by simp)
  | getAddress => exact handlerGetAddress_derives pf o _ _
  | getXpub =>
      refine wp_mono (handlerGetXpub_derives pf o _ _) (fun _ _ _ h => h) (fun _ _ _ h => h) fun hworks => ?_
      exact Bool.false_ne_true (hroot.symm.trans hworks)
  | getVersion is => exact (hother is (by decide) (by decide)).elim
  | signTxData is => exact (hother is (by decide) (by decide)).elim
  | signTxSign is => exact (hother is (by decide) (by decide)).elim
  | signTxDone is => exact (hother is (by decide) (by decide)).elim
  | signTokenData is => exact (hother is (by decide) (by decide)).elim
  | sendTokenData sends => exact (hother sends.1 (by decide) (by decide)).elim
  | verifyTokenSignature is => exact (hother is (by decide) (by decide)).elim
  | resetTokenSignatures is => exact (hother is (by decide) (by decide)).elim

/-- In every run every path handed to the derivation is one the path reader accepts. A request stays within
its memory when the derivation fails at the root, and in whatever context the decoder comes to, of a call
that leaves its memory too, the change paths it may derive were accepted. -/
theorem derived_paths_wellFormed {h : History Device Event Obs} {d : Device} (run : Run (freeSystem pf) h d) :
    (∀ r ∈ h, ∀ path, Obs.derive path ∈ r.seen → path.WellFormed) ∧
      (∀ o raw cmd, apduParser raw = some cmd → cmd.AsksKey → o.ok (.deriveBip32 []) = false →
        wp (handle pf (.apdu o raw)) (fun _ _ w => ∀ path, Obs.derive path ∈ w → path.WellFormed)
          (fun _ _ _ => False) False d) ∧
      ∀ e o d₁ tx, TakesChunk d e o d₁ → LoopReaches (verifyChange pf o) d₁.gTokenSymbols d₁.tx tx →
        tx.outputsLen ≠ 0 → ∀ info ∈ tx.changes, info.path.WellFormed := by
  refine ⟨fun r hr => ?_, fun o raw cmd hparse hasks hroot => handle_derives_request hparse hasks hroot d, ?_⟩
  · obtain ⟨later, earlier, rfl⟩ := List.append_of_mem hr
    obtain ⟨hbefore, _, ret⟩ := run.before
    have ret' : handle pf r.event r.pre = .ret () r.post r.seen := ret
    have hderives : wp (handle pf r.event) (fun _ _ w => DerivesWellFormed w) (fun _ _ w => DerivesWellFormed w) True
        r.pre := handle_derives r.event ((paths_invariant pf).run hbefore)
    rwa [wp_of_ret ret'] at hderives
  · rintro e o d₁ tx ⟨raw, cmd, _, hparse, _, _, _, _, _, ret⟩ hreaches
    have hlimit : decodeBufferLen = 300 := rfl
    have hfits : cmd.data.length ≤ 255 := apduParser_fits hparse
    have hentered : d.entered.tx.PathsAccepted := by
      rw [entered_tx]
      exact (paths_invariant pf).run run
    have htaken := takeChunk_paths o (show cmd.data.length ≤ decodeBufferLen by omega) cmd.p2 hentered
    rw [wp_of_ret ret] at htaken
    obtain ⟨hchanges, houtputs⟩ := hreaches.changes
    rw [hchanges, houtputs]
    exact htaken.2

/-- An address is asked for at a path of five levels. -/
theorem derived_paths_wellFormed_address :
    ∃ h r, Run (freeSystem countingPlatform) (r :: h) r.post ∧
      Obs.derive [0x8000002C, 0x80000118, 0x80000000, 0, 5] ∈ r.seen ∧
      Bip32Path.WellFormed [0x8000002C, 0x80000118, 0x80000000, 0, 5] := by
  obtain ⟨h, r, _, run, hP⟩ := exists_step_of_play countingPlatform false [] []
    (.apdu (.allOk []) ([0xE0, 0x04, 0, 0, 21, 5, 0x80, 0, 0, 0x2C, 0x80, 0, 1, 0x18, 0x80, 0, 0, 0] ++
      [0, 0, 0, 0, 0, 0, 0, 5]))
    (fun _ r => Obs.derive [0x8000002C, 0x80000118, 0x80000000, 0, 5] ∈ r.seen) (by decide +kernel)
  have hmem := of_decide_eq_true hP
  exact ⟨h, r, run, hmem, (derived_paths_wellFormed run).1 r List.mem_cons_self _ hmem⟩

end Runs

end HathorApp
