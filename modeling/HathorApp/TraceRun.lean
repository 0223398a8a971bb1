import HathorApp.ProgramLogic

/-!
Runs of a reactive program. A system starts in an initial state and handles one event after the
other, each by a program of `ProgramLogic`; an event is admitted in some states only. A run keeps its
history, the newest step first, so that an invariant can speak of what the outside has seen and done.

The steps of a run are those whose program returns: a program that throws or leaves its memory ends
the run.
-/

namespace TraceRun

open ProgramLogic

variable {σ ε ω : Type}

/-- One step: the state it starts in, its event, what the outside sees and the state it ends in. -/
structure Step (σ ε ω : Type) where
  pre : σ
  event : ε
  seen : List ω
  post : σ

/-- The steps of a run, newest first. -/
abbrev History (σ ε ω : Type) := List (Step σ ε ω)

structure System (σ ε ω : Type) where
  init : σ → Prop
  admits : σ → ε → Prop
  handle : ε → Prog σ ω Unit

namespace System

/-- The same system started in one state. -/
def startedIn (S : System σ ε ω) (s : σ) : System σ ε ω := { S with init := (· = s) }

end System

/-- The runs of a system with the state they end in. -/
inductive Run (S : System σ ε ω) : History σ ε ω → σ → Prop where
  | start {s : σ} (init : S.init s) : Run S [] s
  | step {h : History σ ε ω} {s s' : σ} {e : ε} {w : List ω} (run : Run S h s) (admitted : S.admits s e)
      (ret : S.handle e s = .ret () s' w) : Run S (⟨s, e, w, s'⟩ :: h) s'

variable {S : System σ ε ω}

/-- The invariant rule, for runs whose steps all meet a condition: what holds at the start and is kept
by every such step holds at the end of the run. -/
theorem Run.invariant {C : Step σ ε ω → Prop} {I : History σ ε ω → σ → Prop}
    (hinit : ∀ s, S.init s → I [] s)
    (hstep : ∀ h s e, Run S h s → (∀ r ∈ h, C r) → I h s → S.admits s e →
      wp (S.handle e) (fun _ s' w => C ⟨s, e, w, s'⟩ → I (⟨s, e, w, s'⟩ :: h) s') (fun _ _ _ => True) True s)
    {h : History σ ε ω} {s : σ} (run : Run S h s) (hC : ∀ r ∈ h, C r) : I h s := by
  induction run with
  | start init => exact hinit _ init
  | @step h s s' e w run admitted ret ih =>
      obtain ⟨hlast, hrest⟩ := List.forall_mem_cons.mp hC
      have hwp := hstep h s e run hrest (ih hrest) admitted
      rw [wp_of_ret ret] at hwp
      exact hwp hlast

/-- The invariant rule for all runs. -/
theorem Run.invariant_all {I : History σ ε ω → σ → Prop} (hinit : ∀ s, S.init s → I [] s)
    (hstep : ∀ h s e, Run S h s → I h s → S.admits s e →
      wp (S.handle e) (fun _ s' w => I (⟨s, e, w, s'⟩ :: h) s') (fun _ _ _ => True) True s)
    {h : History σ ε ω} {s : σ} (run : Run S h s) : I h s := by
  refine Run.invariant (C := fun _ => True) hinit (fun h s e run _ hI admitted => ?_) run
    (fun _ _ => trivial)
  exact wp_mono (hstep h s e run hI admitted) (fun _ _ _ h _ => h) (fun _ _ _ _ => trivial)
    (fun _ => trivial)

/-- A run of a system that admits less is a run of the system. -/
theorem Run.mono {S' : System σ ε ω} (hinit : ∀ s, S.init s → S'.init s)
    (hadmits : ∀ s e, S.admits s e → S'.admits s e) (hhandle : S.handle = S'.handle)
    {h : History σ ε ω} {s : σ} (run : Run S h s) : Run S' h s := by
  induction run with
  | start init => exact .start (hinit _ init)
  | step run admitted ret ih => exact .step ih (hadmits _ _ admitted) (hhandle ▸ ret)

/-- A run goes on with a run that starts where it ends. -/
theorem Run.append {h h' : History σ ε ω} {s s' : σ} (run : Run S h s) (run' : Run (S.startedIn s) h' s') :
    Run S (h' ++ h) s' := by
  induction run' with
  | start init => exact init ▸ run
  | step _ admitted ret ih => exact .step ih admitted ret

/-- A run up to somewhere, and one that goes on from there. -/
theorem Run.split {h later : History σ ε ω} {s' : σ} (run : Run S (later ++ h) s') :
    ∃ s, Run S h s ∧ Run (S.startedIn s) later s' := by
  induction later generalizing s' with
  | nil => exact ⟨s', run, .start rfl⟩
  | cons r later ih =>
      cases run with
      | step run admitted ret =>
          obtain ⟨s, before, after⟩ := ih run
          exact ⟨s, before, .step after admitted ret⟩

theorem Run.post_eq {h : History σ ε ω} {r : Step σ ε ω} {s : σ} (run : Run S (r :: h) s) : r.post = s := by
  cases run
  rfl

/-- What precedes a step of a run is a run up to it. -/
theorem Run.before {h h' : History σ ε ω} {r : Step σ ε ω} {s : σ} (run : Run S (h' ++ r :: h) s) :
    Run S h r.pre ∧ S.admits r.pre r.event ∧ S.handle r.event r.pre = .ret () r.post r.seen := by
  induction h' generalizing s with
  | nil =>
      cases run with
      | step run admitted ret => exact ⟨run, admitted, ret⟩
  | cons _ _ ih =>
      cases run with
      | step run _ _ => exact ih run

end TraceRun
