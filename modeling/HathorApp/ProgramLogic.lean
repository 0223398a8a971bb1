import Mathlib.Data.List.Basic

/-!
Programs over a global state. A program reads and assigns the state, emits events the outside can
see, throws a numeric code, or leaves the memory it owns. A throw keeps the state it was reached in,
as a `longjmp` does: nothing is rolled back. An access outside an array has no defined result, so it
ends the run and nothing is said about what follows.

`wp` is the weakest precondition of a program for three postconditions, one per way of ending. The
simp set unfolds it along the program text; `wp_mono` is the rule of consequence by which a proved
specification of a subprogram is used in its callers.
-/

namespace ProgramLogic

/-- What a program run ends with. -/
inductive Res (σ ω α : Type) where
  | ret (value : α) (state : σ) (events : List ω)
  | throw (code : Nat) (state : σ) (events : List ω)
  | overrun

namespace Res

variable {σ ω α : Type}

/-- The same ending after some earlier events. -/
def after (earlier : List ω) : Res σ ω α → Res σ ω α
  | .ret a s w => .ret a s (earlier ++ w)
  | .throw e s w => .throw e s (earlier ++ w)
  | .overrun => .overrun

@[simp] theorem after_nil (r : Res σ ω α) : r.after [] = r := by
  cases r <;> rfl

end Res

def Prog (σ ω α : Type) := σ → Res σ ω α

variable {σ τ ω α β : Type}

namespace Prog

def ret (a : α) : Prog σ ω α := fun s => .ret a s []

def andThen (p : Prog σ ω α) (f : α → Prog σ ω β) : Prog σ ω β := fun s =>
  match p s with
  | .ret a s' w => (f a s').after w
  | .throw e s' w => .throw e s' w
  | .overrun => .overrun

instance : Monad (Prog σ ω) where
  pure := ret
  bind := andThen

def get : Prog σ ω σ := fun s => .ret s s []

def modify (f : σ → σ) : Prog σ ω Unit := fun s => .ret () (f s) []

def emit (e : ω) : Prog σ ω Unit := fun s => .ret () s [e]

def throw (code : Nat) : Prog σ ω α := fun s => .throw code s []

/-- An access outside an array. -/
def overrun : Prog σ ω α := fun _ => .overrun

/-- Run a handler on a thrown code, in the state of the throw. -/
def catchAll (p : Prog σ ω α) (handler : Nat → Prog σ ω α) : Prog σ ω α := fun s =>
  match p s with
  | .throw e s' w => (handler e s').after w
  | r => r

/-- A program on a part of the state, run on the whole. -/
def zoom (view : σ → τ) (put : τ → σ → σ) (p : Prog τ ω α) : Prog σ ω α := fun s =>
  match p (view s) with
  | .ret a t w => .ret a (put t s) w
  | .throw e t w => .throw e (put t s) w
  | .overrun => .overrun

end Prog

/-- The program ends in `R` when it returns, in `T` when it throws and in `F` when it overruns. -/
def wp (p : Prog σ ω α) (R : α → σ → List ω → Prop) (T : Nat → σ → List ω → Prop) (F : Prop)
    (s : σ) : Prop :=
  match p s with
  | .ret a s' w => R a s' w
  | .throw e s' w => T e s' w
  | .overrun => F

section Rules

variable {R R' : α → σ → List ω → Prop} {T T' : Nat → σ → List ω → Prop} {F F' : Prop} {s : σ}

theorem wp_of_ret {p : Prog σ ω α} {a : α} {s' : σ} {w : List ω} (h : p s = .ret a s' w) :
    wp p R T F s ↔ R a s' w := by
  simp only [wp, h]

theorem wp_of_throw {p : Prog σ ω α} {e : Nat} {s' : σ} {w : List ω} (h : p s = .throw e s' w) :
    wp p R T F s ↔ T e s' w := by
  simp only [wp, h]

theorem wp_of_overrun {p : Prog σ ω α} (h : p s = .overrun) : wp p R T F s ↔ F := by
  simp only [wp, h]

/-- A specification of a run on a given state can be tested. -/
instance [∀ a s' w, Decidable (R a s' w)] [∀ e s' w, Decidable (T e s' w)] [Decidable F] (p : Prog σ ω α) (s : σ) :
    Decidable (wp p R T F s) :=
  match h : p s with
  | .ret a s' w => decidable_of_iff (R a s' w) (wp_of_ret h).symm
  | .throw e s' w => decidable_of_iff (T e s' w) (wp_of_throw h).symm
  | .overrun => decidable_of_iff F (wp_of_overrun h).symm

theorem exists_ret_of_wp {p : Prog σ ω α} (h : wp p R (fun _ _ _ => False) False s) :
    ∃ a s' w, p s = .ret a s' w ∧ R a s' w := by
  unfold wp at h
  cases hp : p s with
  | ret a s' w =>
      rw [hp] at h
      exact ⟨a, s', w, rfl, h⟩
  | throw e s' w => rw [hp] at h; exact h.elim
  | overrun => rw [hp] at h; exact h.elim

/-- A specification that leaves one ending is the run. -/
theorem eq_of_wp {p : Prog σ ω α} {r : Res σ ω α}
    (h : wp p (fun a s' w => .ret a s' w = r) (fun e s' w => .throw e s' w = r) (.overrun = r) s) : p s = r := by
  unfold wp at h
  cases hp : p s <;> rw [hp] at h <;> exact h

theorem eq_ret_of_wp {p : Prog σ ω α} {a : α} {s' : σ} {w : List ω}
    (h : wp p (fun b t v => b = a ∧ t = s' ∧ v = w) (fun _ _ _ => False) False s) : p s = .ret a s' w := by
  obtain ⟨b, t, v, hp, rfl, rfl, rfl⟩ := exists_ret_of_wp h
  exact hp

@[simp] theorem wp_pure (a : α) : wp (pure a : Prog σ ω α) R T F s ↔ R a s [] := Iff.rfl

@[simp] theorem wp_get {R : σ → σ → List ω → Prop} :
    wp (Prog.get : Prog σ ω σ) R T F s ↔ R s s [] := Iff.rfl

@[simp] theorem wp_modify {R : Unit → σ → List ω → Prop} (f : σ → σ) :
    wp (Prog.modify f : Prog σ ω Unit) R T F s ↔ R () (f s) [] := Iff.rfl

@[simp] theorem wp_emit {R : Unit → σ → List ω → Prop} (e : ω) :
    wp (Prog.emit e : Prog σ ω Unit) R T F s ↔ R () s [e] := Iff.rfl

@[simp] theorem wp_throw (code : Nat) :
    wp (Prog.throw code : Prog σ ω α) R T F s ↔ T code s [] := Iff.rfl

@[simp] theorem wp_overrun : wp (Prog.overrun : Prog σ ω α) R T F s ↔ F := Iff.rfl

theorem wp_after {p : Prog σ ω α} {u : List ω} :
    (match (p s).after u with
      | .ret a s' w => R a s' w
      | .throw e s' w => T e s' w
      | .overrun => F) ↔
      wp p (fun a s' w => R a s' (u ++ w)) (fun e s' w => T e s' (u ++ w)) F s := by
  unfold wp
  cases p s <;> rfl

@[simp] theorem wp_bind {R : β → σ → List ω → Prop} (p : Prog σ ω α) (f : α → Prog σ ω β) :
    wp (p >>= f) R T F s ↔
      wp p (fun a s' w => wp (f a) (fun b s'' w' => R b s'' (w ++ w'))
        (fun e s'' w' => T e s'' (w ++ w')) F s') T F s := by
  show wp (p.andThen f) R T F s ↔ _
  unfold wp Prog.andThen
  cases p s with
  | ret a s' w => exact wp_after
  | throw e s' w => rfl
  | overrun => rfl

@[simp] theorem wp_catchAll (p : Prog σ ω α) (handler : Nat → Prog σ ω α) :
    wp (p.catchAll handler) R T F s ↔
      wp p R (fun e s' w => wp (handler e) (fun b s'' w' => R b s'' (w ++ w'))
        (fun e' s'' w' => T e' s'' (w ++ w')) F s') F s := by
  unfold wp Prog.catchAll
  cases p s with
  | ret a s' w => rfl
  | throw e s' w => exact wp_after
  | overrun => rfl

@[simp] theorem wp_zoom (view : σ → τ) (put : τ → σ → σ) (p : Prog τ ω α) :
    wp (p.zoom view put) R T F s ↔
      wp p (fun a t w => R a (put t s) w) (fun e t w => T e (put t s) w) F (view s) := by
  unfold wp Prog.zoom
  cases p (view s) <;> rfl

@[simp] theorem wp_ite (c : Prop) [Decidable c] (p q : Prog σ ω α) :
    wp (if c then p else q) R T F s ↔ (c → wp p R T F s) ∧ (¬c → wp q R T F s) := by
  by_cases hc : c <;> simp [hc]

/-- Consequence. -/
theorem wp_mono {p : Prog σ ω α} (h : wp p R T F s) (hret : ∀ a s' w, R a s' w → R' a s' w)
    (hthrow : ∀ e s' w, T e s' w → T' e s' w) (hoverrun : F → F') : wp p R' T' F' s := by
  unfold wp at h ⊢
  cases hp : p s <;> simp only [hp] at h ⊢
  · exact hret _ _ _ h
  · exact hthrow _ _ _ h
  · exact hoverrun h

/-- Two specifications of one run hold together. -/
theorem wp_and {p : Prog σ ω α} (h : wp p R T F s) (h' : wp p R' T' F' s) :
    wp p (fun a s' w => R a s' w ∧ R' a s' w) (fun e s' w => T e s' w ∧ T' e s' w) (F ∧ F') s := by
  unfold wp at h h' ⊢
  cases hp : p s <;> simp only [hp] at h h' ⊢ <;> exact ⟨h, h'⟩

/-- A specification of a run, with the run itself. -/
theorem wp_self {p : Prog σ ω α} (h : wp p R T F s) :
    wp p (fun a s' w => p s = .ret a s' w ∧ R a s' w) (fun e s' w => p s = .throw e s' w ∧ T e s' w) F s := by
  unfold wp at h ⊢
  cases hp : p s <;> simp only [hp] at h ⊢
  · exact ⟨trivial, h⟩
  · exact ⟨trivial, h⟩
  · exact h

end Rules

/-! ### Programs within a relation

A program is within a relation when every run of it relates the state it starts in to the state it
ends in and the events between, whether it returns or throws. For a relation that is closed under
doing nothing and doing one thing after another, the program text tells what has to be checked. -/

/-- A relation of states and events that can be composed. -/
structure Composable (r : σ → σ → List ω → Prop) : Prop where
  refl : ∀ s, r s s []
  trans : ∀ {s₁ s₂ s₃ u v}, r s₁ s₂ u → r s₂ s₃ v → r s₁ s₃ (u ++ v)

def Within (r : σ → σ → List ω → Prop) (p : Prog σ ω α) : Prop :=
  ∀ s, wp p (fun _ s' w => r s s' w) (fun _ s' w => r s s' w) True s

section Within

variable {r : σ → σ → List ω → Prop}

theorem Within.pure (hr : Composable r) (a : α) : Within r (Pure.pure a : Prog σ ω α) := hr.refl

theorem Within.throw (hr : Composable r) (code : Nat) : Within r (Prog.throw code : Prog σ ω α) := hr.refl

theorem Within.get (hr : Composable r) : Within r (Prog.get : Prog σ ω σ) := hr.refl

theorem Within.overrun : Within r (Prog.overrun : Prog σ ω α) := fun _ => trivial

theorem Within.modify {f : σ → σ} (h : ∀ s, r s (f s) []) : Within r (Prog.modify f : Prog σ ω Unit) := h

theorem Within.emit {e : ω} (h : ∀ s, r s s [e]) : Within r (Prog.emit e : Prog σ ω Unit) := h

theorem Within.bind (hr : Composable r) {p : Prog σ ω α} {f : α → Prog σ ω β} (hp : Within r p)
    (hf : ∀ a, Within r (f a)) : Within r (p >>= f) := by
  intro s
  rw [wp_bind]
  refine wp_mono (hp s) (fun a s' w h => ?_) (fun _ _ _ h => h) (fun _ => trivial)
  exact wp_mono (hf a s') (fun _ _ _ h' => hr.trans h h') (fun _ _ _ h' => hr.trans h h') (fun _ => trivial)

theorem Within.ite {c : Prop} [Decidable c] {p q : Prog σ ω α} (hp : c → Within r p) (hq : ¬c → Within r q) :
    Within r (if c then p else q) := by
  by_cases hc : c
  · rw [if_pos hc]
    exact hp hc
  · rw [if_neg hc]
    exact hq hc

theorem Within.catchAll (hr : Composable r) {p : Prog σ ω α} {handler : Nat → Prog σ ω α} (hp : Within r p)
    (hh : ∀ e, Within r (handler e)) : Within r (p.catchAll handler) := by
  intro s
  rw [wp_catchAll]
  refine wp_mono (hp s) (fun _ _ _ h => h) (fun e s' w h => ?_) (fun _ => trivial)
  exact wp_mono (hh e s') (fun _ _ _ h' => hr.trans h h') (fun _ _ _ h' => hr.trans h h') (fun _ => trivial)

end Within

/-- No run of the program accesses anything outside an array. -/
def InBounds (p : Prog σ ω α) : Prop := ∀ s, wp p (fun _ _ _ => True) (fun _ _ _ => True) False s

section InBounds

theorem InBounds.of_wp {p : Prog σ ω α} {R : α → σ → List ω → Prop} {T : Nat → σ → List ω → Prop} {s : σ}
    (h : wp p R T False s) : wp p (fun _ _ _ => True) (fun _ _ _ => True) False s :=
  wp_mono h (fun _ _ _ _ => trivial) (fun _ _ _ _ => trivial) id

theorem InBounds.pure (a : α) : InBounds (Pure.pure a : Prog σ ω α) := fun _ => trivial

theorem InBounds.throw (code : Nat) : InBounds (Prog.throw code : Prog σ ω α) := fun _ => trivial

theorem InBounds.get : InBounds (Prog.get : Prog σ ω σ) := fun _ => trivial

theorem InBounds.modify (f : σ → σ) : InBounds (Prog.modify f : Prog σ ω Unit) := fun _ => trivial

theorem InBounds.emit (e : ω) : InBounds (Prog.emit e : Prog σ ω Unit) := fun _ => trivial

theorem InBounds.bind {p : Prog σ ω α} {f : α → Prog σ ω β} (hp : InBounds p) (hf : ∀ a, InBounds (f a)) :
    InBounds (p >>= f) := by
  intro s
  rw [wp_bind]
  exact wp_mono (hp s) (fun a s' _ _ => hf a s') (fun _ _ _ h => h) id

theorem InBounds.ite {c : Prop} [Decidable c] {p q : Prog σ ω α} (hp : InBounds p) (hq : InBounds q) :
    InBounds (if c then p else q) := by
  by_cases hc : c
  · rw [if_pos hc]
    exact hp
  · rw [if_neg hc]
    exact hq

theorem InBounds.catchAll {p : Prog σ ω α} {handler : Nat → Prog σ ω α} (hp : InBounds p) (hh : ∀ e, InBounds (handler e)) :
    InBounds (p.catchAll handler) := by
  intro s
  rw [wp_catchAll]
  exact wp_mono (hp s) (fun _ _ _ h => h) (fun e s' _ _ => hh e s') id

end InBounds

end ProgramLogic
