import HathorApp.TraceRun

/-!
How long a run waits. While a condition lasts, the events that count lower a rank and the other ones do not raise it, so only so
many of them can come before the condition ends.
-/

namespace TraceRun

variable {σ ε ω : Type}

/-- A rank of the states that wait: an event that counts lowers it or ends the wait, and once the wait is over no event of the
kind in question starts it again. The states are those that a run can reach. -/
structure Ranked (S : System σ ε ω) (concerned : ε → Prop) (counts : ε → Bool) (waits : σ → Prop) (rank : σ → Nat) : Prop where
  ended : ∀ {h s e s' w}, Run S h s → concerned e → S.handle e s = .ret () s' w → ¬waits s → ¬waits s'
  lowers : ∀ {h s e s' w}, Run S h s → concerned e → S.handle e s = .ret () s' w → waits s → waits s' → counts e = true →
    rank s' < rank s
  keeps : ∀ {h s e s' w}, Run S h s → concerned e → S.handle e s = .ret () s' w → waits s → waits s' → rank s' ≤ rank s

/-- The steps of the events that count. -/
def counted (counts : ε → Bool) (h : History σ ε ω) : Nat := (h.filter fun r => counts r.event).length

section Ranked

variable {S : System σ ε ω} {concerned : ε → Prop} {counts : ε → Bool} {waits : σ → Prop} {rank : σ → Nat}

theorem counted_cons (r : Step σ ε ω) (h : History σ ε ω) :
    counted counts (r :: h) = counted counts h + if counts r.event then 1 else 0 := by
  unfold counted
  rw [List.filter_cons]
  split
  · rfl
  · rfl

/-- As long as a run waits, the events that counted are paid for by the rank. -/
theorem Ranked.counted_le (ranked : Ranked S concerned counts waits rank) {earlier later : History σ ε ω} {s s' : σ}
    (before : Run S earlier s) (run : Run (S.startedIn s) later s') (hconcerned : ∀ r ∈ later, concerned r.event)
    (hwaits : waits s') : waits s ∧ counted counts later + rank s' ≤ rank s := by
  induction run with
  | start init =>
      obtain rfl := init
      exact ⟨hwaits, by simp [counted]⟩
  | @step later s₁ s' e w run admitted ret ih =>
      obtain ⟨hlast, hrest⟩ := List.forall_mem_cons.mp hconcerned
      have reached := before.append run
      by_cases hwaits₁ : waits s₁
      · obtain ⟨hstart, hbound⟩ := ih hrest hwaits₁
        refine ⟨hstart, ?_⟩
        rw [counted_cons]
        have hkeeps := ranked.keeps reached hlast ret hwaits₁ hwaits
        by_cases hcounts : counts e = true
        · have hlowers := ranked.lowers reached hlast ret hwaits₁ hwaits hcounts
          rw [if_pos hcounts]
          omega
        · rw [if_neg hcounts]
          omega
      · exact absurd hwaits (ranked.ended reached hlast ret hwaits₁)

end Ranked

end TraceRun
