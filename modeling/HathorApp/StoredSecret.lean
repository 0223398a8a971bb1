import HathorApp.Footprint

/-!
The stored secret. It is generated when a token is signed or checked for the first time, and from then on no
command changes it: only a press that approves a reset puts another one in its place.
-/

namespace HathorApp

open ProgramLogic TraceRun

/-- A secret has been generated. -/
def Device.HasSecret (d : Device) : Prop := d.secret.any (· ≠ 0) = true

instance (d : Device) : Decidable d.HasSecret := by
  unfold Device.HasSecret
  infer_instance

/-- The random bytes of an event make a secret. -/
def Outcome.MakesSecret (o : Outcome) : Prop := (o.rng.take secretLen).any (· ≠ 0) = true

instance (o : Outcome) : Decidable o.MakesSecret := by
  unfold Outcome.MakesSecret
  infer_instance

theorem secretFor_of_hasSecret (o : Outcome) {d : Device} (h : d.HasSecret) : secretFor o d = d.secret := if_pos h

/-- Whatever is stored, what `get_secret` returns is a secret. -/
theorem any_secretFor {o : Outcome} (hrng : o.MakesSecret) (d : Device) :
    (secretFor o d).any (· ≠ 0) = true := by
  unfold secretFor
  split
  · assumption
  · exact hrng

/-- A secret that is there stays. -/
def SecretStays (d d' : Device) (_ : List Obs) : Prop := d.HasSecret → d'.secret = d.secret

theorem secretStays_composable : Composable SecretStays where
  refl _ _ := rfl
  trans {d₁ d₂ d₃ _ _} h h' hd := by
    have hd₂ : d₂.HasSecret := by
      unfold Device.HasSecret
      rwa [h hd]
    calc
      d₃.secret = d₂.secret := h' hd₂
      _ = d₁.secret := h hd

/-- A program on the transaction context has no way to the secret. -/
theorem secretStays_onTx {α : Type} (p : Decoder α) : Within (OnTx SecretStays) p := by
  intro tx
  unfold wp
  split
  · exact fun _ _ => rfl
  · exact fun _ _ => rfl
  · trivial

theorem secretStays_footprint (pf : Platform) (o : Outcome) : Footprint pf o SecretStays where
  composable := secretStays_composable
  outside _ _ _ hsecret := fun _ => hsecret
  context _ _ _ := fun _ => rfl
  registry _ _ := fun _ => rfl
  secret _ := fun hd => secretFor_of_hasSecret o hd
  decode _ := secretStays_onTx _

section Runs

variable {pf : Platform}

/-- One step leaves a secret alone, but for a reset. -/
theorem secret_stays_step {e : Event} {d d' : Device} {w : List Obs} (hreset : ¬d.Resets e)
    (ret : handle pf e d = .ret () d' w) (hd : d.HasSecret) : d'.secret = d.secret := by
  have hstays := (secretStays_footprint pf e.outcome).handle hreset
  rw [wp_of_ret ret] at hstays
  exact hstays hd

/-- From one step of a run to its end the secret stays, as long as no reset is approved. -/
theorem secret_stays {later earlier : History Device Event Obs} {r : Step Device Event Obs} {d : Device}
    (run : Run (freeSystem pf) (later ++ r :: earlier) d) (hr : r.post.HasSecret)
    (hquiet : ∀ r' ∈ later, ¬r'.pre.Resets r'.event) : d.secret = r.post.secret := by
  induction later generalizing d with
  | nil =>
      cases run
      rfl
  | cons r' later ih =>
      obtain ⟨hlast, hrest⟩ := List.forall_mem_cons.mp hquiet
      rw [List.cons_append] at run
      cases run with
      | step run _ ret =>
          have hpre := ih run hrest
          have hsecret := secret_stays_step hlast ret (by rwa [Device.HasSecret, hpre])
          rw [hsecret]
          exact hpre

end Runs

end HathorApp
