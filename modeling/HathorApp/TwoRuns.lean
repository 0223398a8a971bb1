import HathorApp.TraceRun
import Mathlib.Data.Set.Basic

/-!
Two runs of one program. A relation of states says what the outside cannot tell apart. A program is blind to it when its
runs from related states end alike: with the same value or the same code after the same events, in related states. Where the
programs of a system are blind to a relation, what is seen of its runs from related states is the same.
-/

namespace ProgramLogic

variable {σ τ ω α β : Type}

/-- Two endings that are alike. -/
inductive Res.Alike (Q : α → σ → σ → Prop) (T : σ → σ → Prop) : Res σ ω α → Res σ ω α → Prop where
  | ret {a : α} {s s' : σ} {w : List ω} (related : Q a s s') : Alike Q T (.ret a s w) (.ret a s' w)
  | throw {e : Nat} {s s' : σ} {w : List ω} (related : T s s') : Alike Q T (.throw e s w) (.throw e s' w)
  | overrun : Alike Q T .overrun .overrun

/-- The runs from related states end alike. -/
def Twice (R : σ → σ → Prop) (p : Prog σ ω α) (Q : α → σ → σ → Prop) (T : σ → σ → Prop) : Prop :=
  ∀ s s', R s s' → (p s).Alike Q T (p s')

/-- A program that cannot tell related states apart, and keeps them related. -/
def Blind (R : σ → σ → Prop) (p : Prog σ ω α) : Prop := Twice R p (fun _ => R) R

section Rules

variable {R T T' : σ → σ → Prop} {Q Q' : α → σ → σ → Prop}

theorem Res.Alike.after {r r' : Res σ ω α} (h : r.Alike Q T r') (w : List ω) : (r.after w).Alike Q T (r'.after w) := by
  cases h with
  | ret related => exact .ret related
  | throw related => exact .throw related
  | overrun => exact .overrun

/-- Consequence. -/
theorem Res.Alike.mono {r r' : Res σ ω α} (h : r.Alike Q T r') (hQ : ∀ a s s', Q a s s' → Q' a s s')
    (hT : ∀ s s', T s s' → T' s s') : r.Alike Q' T' r' := by
  cases h with
  | ret related => exact .ret (hQ _ _ _ related)
  | throw related => exact .throw (hT _ _ related)
  | overrun => exact .overrun

/-- What is known of each of the two runs. -/
theorem Res.Alike.strengthen {p p' : Prog σ ω α} {s s' : σ} {P P' : α → σ → Prop} (h : (p s).Alike Q T (p' s'))
    (hp : wp p (fun a s₁ _ => P a s₁) (fun _ _ _ => True) True s)
    (hp' : wp p' (fun a s₁ _ => P' a s₁) (fun _ _ _ => True) True s') :
    (p s).Alike (fun a s₁ s₁' => Q a s₁ s₁' ∧ P a s₁ ∧ P' a s₁') (fun _ _ => True) (p' s') := by
  unfold wp at hp hp'
  generalize p s = r at h hp
  generalize p' s' = r' at h hp'
  cases h with
  | ret related => exact .ret ⟨related, hp, hp'⟩
  | throw => exact .throw trivial
  | overrun => exact .overrun

theorem Twice.pure {a : α} (h : ∀ s s', R s s' → Q a s s') : Twice R (Pure.pure a : Prog σ ω α) Q T :=
  fun s s' hR => .ret (h s s' hR)

theorem Twice.modify {Q : Unit → σ → σ → Prop} {f : σ → σ} (h : ∀ s s', R s s' → Q () (f s) (f s')) :
    Twice R (Prog.modify f : Prog σ ω Unit) Q T := fun s s' hR => .ret (h s s' hR)

theorem Twice.bind {Q' : β → σ → σ → Prop} {p : Prog σ ω α} {f : α → Prog σ ω β} (hp : Twice R p Q T)
    (hf : ∀ a, Twice (Q a) (f a) Q' T) : Twice R (p >>= f) Q' T := by
  intro s s' hR
  have hends := hp s s' hR
  show (p.andThen f s).Alike Q' T (p.andThen f s')
  unfold Prog.andThen
  generalize p s = r at hends
  generalize p s' = r' at hends
  cases hends with
  | ret related => exact (hf _ _ _ related).after _
  | throw related => exact .throw related
  | overrun => exact .overrun

theorem get_bind (f : σ → Prog σ ω β) (s : σ) : (Prog.get >>= f) s = f s s := by
  show (f s s).after [] = f s s
  rw [Res.after_nil]

/-- A program that reads the state and goes on with nothing but what the relation shows of it. -/
theorem Twice.get {Q : β → σ → σ → Prop} {f : σ → Prog σ ω β} (hread : ∀ s s', R s s' → f s = f s')
    (hf : ∀ s, Twice R (f s) Q T) : Twice R (Prog.get >>= f) Q T := by
  intro s s' hR
  rw [get_bind, get_bind, ← hread s s' hR]
  exact hf s s s' hR

theorem Twice.ite {c : Prop} [Decidable c] {p q : Prog σ ω α} (hp : Twice R p Q T) (hq : Twice R q Q T) :
    Twice R (if c then p else q) Q T := by
  by_cases hc : c
  · rw [if_pos hc]
    exact hp
  · rw [if_neg hc]
    exact hq

theorem Twice.overrun : Twice R (Prog.overrun : Prog σ ω α) Q T := fun _ _ _ => .overrun

theorem Blind.pure (a : α) : Blind R (Pure.pure a : Prog σ ω α) := Twice.pure fun _ _ => id

theorem Blind.bind {p : Prog σ ω α} {f : α → Prog σ ω β} (hp : Blind R p) (hf : ∀ a, Blind R (f a)) : Blind R (p >>= f) :=
  Twice.bind hp hf

theorem Blind.ite {c : Prop} [Decidable c] {p q : Prog σ ω α} (hp : Blind R p) (hq : Blind R q) :
    Blind R (if c then p else q) := Twice.ite hp hq

theorem Blind.overrun : Blind R (Prog.overrun : Prog σ ω α) := Twice.overrun

theorem Blind.throw (code : Nat) : Blind R (Prog.throw code : Prog σ ω α) := fun _ _ hR => .throw hR

theorem Blind.emit (e : ω) : Blind R (Prog.emit e) := fun _ _ hR => .ret hR

theorem Blind.catchAll {p : Prog σ ω α} {handler : Nat → Prog σ ω α} (hp : Blind R p) (hh : ∀ e, Blind R (handler e)) :
    Blind R (p.catchAll handler) := by
  intro s s' hR
  have hends := hp s s' hR
  unfold Prog.catchAll
  generalize p s = r at hends
  generalize p s' = r' at hends
  cases hends with
  | ret related => exact .ret related
  | throw related => exact (hh _ _ _ related).after _
  | overrun => exact .overrun

/-- A program on a part of the state that the relation shows. -/
theorem Blind.zoom {view : σ → τ} {put : τ → σ → σ} (p : Prog τ ω α) (hview : ∀ s s', R s s' → view s = view s')
    (hput : ∀ t s s', R s s' → R (put t s) (put t s')) : Blind R (p.zoom view put) := by
  intro s s' hR
  unfold Prog.zoom
  rw [← hview s s' hR]
  cases p (view s) with
  | ret => exact .ret (hput _ _ _ hR)
  | throw => exact .throw (hput _ _ _ hR)
  | overrun => exact .overrun

end Rules

end ProgramLogic

namespace TraceRun

open ProgramLogic

variable {σ ε ω : Type} {S : System σ ε ω}

/-- What is seen of the runs of a system, newest step first. -/
def Traces (S : System σ ε ω) : Set (List (ε × List ω)) :=
  { t | ∃ h s, Run S h s ∧ h.map (fun r => (r.event, r.seen)) = t }

/-- Every run from a state has one from a related state that looks the same. -/
theorem traces_subset {R : σ → σ → Prop} {s₀ s₀' : σ} (hstart : R s₀ s₀')
    (hadmits : ∀ s s' e, R s s' → S.admits s e → S.admits s' e)
    (hhandle : ∀ s s' e, R s s' → S.admits s e → (S.handle e s).Alike (fun _ => R) (fun _ _ => True) (S.handle e s')) :
    Traces (S.startedIn s₀) ⊆ Traces (S.startedIn s₀') := by
  have hruns : ∀ h s, Run (S.startedIn s₀) h s → ∃ h' s', Run (S.startedIn s₀') h' s' ∧
      h'.map (fun r => (r.event, r.seen)) = h.map (fun r => (r.event, r.seen)) ∧ R s s' := by
    intro h s run
    induction run with
    | start init =>
        cases init
        exact ⟨[], s₀', .start rfl, rfl, hstart⟩
    | @step h s s₁ e w run admitted ret ih =>
        obtain ⟨h', s', run', hseen, hR⟩ := ih
        have hends := hhandle s s' e hR admitted
        have ret₁ : S.handle e s = .ret () s₁ w := ret
        rw [ret₁] at hends
        generalize hres : S.handle e s' = r at hends
        cases hends with
        | ret related =>
            refine ⟨_, _, .step run' (hadmits _ _ _ hR admitted) hres, ?_, related⟩
            rw [List.map_cons, List.map_cons, hseen]
  rintro t ⟨h, s, run, rfl⟩
  obtain ⟨h', s', run', hseen, _⟩ := hruns h s run
  exact ⟨h', s', run', hseen⟩

/-- Runs from related states look the same. -/
theorem traces_eq {R : σ → σ → Prop} {s₀ s₀' : σ} (hsymm : ∀ s s', R s s' → R s' s) (hstart : R s₀ s₀')
    (hadmits : ∀ s s' e, R s s' → S.admits s e → S.admits s' e)
    (hhandle : ∀ s s' e, R s s' → S.admits s e → (S.handle e s).Alike (fun _ => R) (fun _ _ => True) (S.handle e s')) :
    Traces (S.startedIn s₀) = Traces (S.startedIn s₀') := by
  apply Set.Subset.antisymm
  · exact traces_subset hstart hadmits hhandle
  · exact traces_subset (hsymm _ _ hstart) hadmits hhandle

end TraceRun
