/-!
Decoding a stream that arrives in pieces. A decoder takes one element after the other from the front
of the symbols at hand. Its verdict on an element is stable: symbols that arrive later change neither
an element that is complete nor one that is refused. What has arrived can then be decoded piece by
piece, the undecoded tail kept in between, with the result of decoding it all at once.
-/

namespace StreamDecoder

variable {σ α : Type}

/-- What the symbols at hand say about the next element: it is not complete, it is refused, or it is
the first `length` of them and leads to another state. -/
inductive Next (σ : Type) where
  | more
  | fail
  | element (state : σ) (length : Nat)

/-- A decoder with stable verdicts. Every element takes at least one symbol. -/
structure Machine (σ α : Type) where
  next : σ → List α → Next σ
  pos : ∀ {s l s' n}, next s l = .element s' n → 0 < n
  le : ∀ {s l s' n}, next s l = .element s' n → n ≤ l.length
  element_append : ∀ {s l s' n} (r), next s l = .element s' n → next s (l ++ r) = .element s' n
  fail_append : ∀ {s l} (r), next s l = .fail → next s (l ++ r) = .fail

/-- The outcome of decoding: a refusal, or the state reached and the undecoded tail. -/
inductive Verdict (σ α : Type) where
  | rejected
  | rest (state : σ) (tail : List α)

namespace Machine

/-- Decode while there are symbols left and the next element is complete. -/
def run (M : Machine σ α) (s : σ) (l : List α) : Verdict σ α :=
  match l with
  | [] => .rest s []
  | a :: t =>
    match _h : M.next s (a :: t) with
    | .more => .rest s (a :: t)
    | .fail => .rejected
    | .element s' n => run M s' ((a :: t).drop n)
termination_by l.length
decreasing_by
  have := M.pos ‹_›
  simp only [List.length_drop, List.length_cons]
  omega

@[simp] theorem run_nil (M : Machine σ α) (s : σ) : M.run s [] = .rest s [] := by
  rw [run]

/-- The states and tails that taking elements leads to. -/
inductive Reaches (M : Machine σ α) (s : σ) (l : List α) : σ → List α → Prop where
  | refl : Reaches M s l s l
  | element {s₁ s₂ : σ} {l₁ : List α} {n : Nat} (reaches : Reaches M s l s₁ l₁)
      (next : M.next s₁ l₁ = .element s₂ n) : Reaches M s l s₂ (l₁.drop n)

variable {M : Machine σ α}

theorem Reaches.head {s s₁ s' : σ} {l l' : List α} {n : Nat} (next : M.next s l = .element s₁ n)
    (reaches : M.Reaches s₁ (l.drop n) s' l') : M.Reaches s l s' l' := by
  induction reaches with
  | refl => exact .element .refl next
  | element _ next' ih => exact .element ih next'

/-- Nothing is taken, or an element first. -/
theorem Reaches.head_cases {s s' : σ} {l l' : List α} (h : M.Reaches s l s' l') :
    s' = s ∧ l' = l ∨ ∃ s₁ n, M.next s l = .element s₁ n ∧ M.Reaches s₁ (l.drop n) s' l' := by
  induction h with
  | refl => exact Or.inl ⟨rfl, rfl⟩
  | element _ next ih =>
      rcases ih with ⟨rfl, rfl⟩ | ⟨s₁, n, hnext, hreaches⟩
      · exact Or.inr ⟨_, _, next, .refl⟩
      · exact Or.inr ⟨s₁, n, hnext, .element hreaches next⟩

theorem Reaches.of_nil {s s' : σ} {l' : List α} (h : M.Reaches s [] s' l') : l' = [] := by
  induction h with
  | refl => rfl
  | element _ _ ih => rw [ih, List.drop_nil]

theorem run_of_more {s : σ} {l : List α} (h : M.next s l = .more) : M.run s l = .rest s l := by
  cases l with
  | nil => rw [run_nil]
  | cons a t =>
      rw [run]
      split
      · rfl
      · rename_i h'; rw [h] at h'; cases h'
      · rename_i h'; rw [h] at h'; cases h'

theorem run_of_fail {s : σ} {l : List α} (hl : l ≠ []) (h : M.next s l = .fail) :
    M.run s l = .rejected := by
  cases l with
  | nil => exact absurd rfl hl
  | cons a t =>
      rw [run]
      split
      · rename_i h'; rw [h] at h'; cases h'
      · rfl
      · rename_i h'; rw [h] at h'; cases h'

theorem run_of_element {s s' : σ} {l : List α} {n : Nat} (h : M.next s l = .element s' n) :
    M.run s l = M.run s' (l.drop n) := by
  cases l with
  | nil =>
      have hpos := M.pos h
      have hle := M.le h
      simp only [List.length_nil] at hle
      omega
  | cons a t =>
      rw [run]
      split
      · rename_i h'; rw [h] at h'; cases h'
      · rename_i h'; rw [h] at h'; cases h'
      · rename_i h'
        rw [h] at h'
        cases h'
        rfl

/-- Induction along a run: a property of the state and the symbols left that every element keeps holds
where the run stops. -/
theorem run_invariant {P : σ → List α → Prop}
    (step : ∀ s l s' n, P s l → M.next s l = .element s' n → P s' (l.drop n)) {s s' : σ} {l t : List α}
    (h : P s l) (hrun : M.run s l = .rest s' t) : P s' t := by
  induction hlen : l.length using Nat.strongRecOn generalizing s l with
  | _ len ih =>
      by_cases hl : l = []
      · subst hl
        rw [run_nil] at hrun
        cases hrun
        exact h
      · cases hnext : M.next s l with
        | more =>
            rw [run_of_more hnext] at hrun
            cases hrun
            exact h
        | fail =>
            rw [run_of_fail hl hnext] at hrun
            cases hrun
        | element s₁ n =>
            rw [run_of_element hnext] at hrun
            have hpos := M.pos hnext
            have hpositive := List.length_pos_iff.mpr hl
            have hshorter : (l.drop n).length < len := by rw [List.length_drop]; omega
            exact ih _ hshorter (step s l s₁ n h hnext) hrun rfl

/-- A run stops at the end of the symbols or at an element that is not complete. -/
theorem run_stops {s s' : σ} {l t : List α} (hrun : M.run s l = .rest s' t) :
    t = [] ∨ M.next s' t = .more := by
  induction hlen : l.length using Nat.strongRecOn generalizing s l with
  | _ len ih =>
      by_cases hl : l = []
      · subst hl
        rw [run_nil] at hrun
        cases hrun
        exact Or.inl rfl
      · cases hnext : M.next s l with
        | more =>
            rw [run_of_more hnext] at hrun
            cases hrun
            exact Or.inr hnext
        | fail =>
            rw [run_of_fail hl hnext] at hrun
            cases hrun
        | element s₁ n =>
            rw [run_of_element hnext] at hrun
            have hpos := M.pos hnext
            have hpositive := List.length_pos_iff.mpr hl
            have hshorter : (l.drop n).length < len := by rw [List.length_drop]; omega
            exact ih _ hshorter hrun rfl

variable (M)

/-- Decoding that asks for an element also when no symbols are left. -/
def ask (s : σ) (l : List α) : Verdict σ α :=
  match M.next s l with
  | .more => .rest s l
  | .fail => .rejected
  | .element s' n => M.run s' (l.drop n)

theorem ask_eq_run {s : σ} {l : List α} (h : l ≠ [] ∨ M.next s l = .more) : M.ask s l = M.run s l := by
  unfold ask
  cases hnext : M.next s l with
  | more => rw [run_of_more hnext]
  | fail =>
      have hl : l ≠ [] := h.resolve_right (by rw [hnext]; exact fun h => by cases h)
      rw [run_of_fail hl hnext]
  | element s' n => rw [run_of_element hnext]

variable {M} in
theorem run_of_ask {s s' : σ} {l t : List α} (h : M.ask s l = .rest s' t) : M.run s l = .rest s' t := by
  by_cases hl : l = []
  · subst hl
    cases hnext : M.next s [] with
    | more => rwa [ask_eq_run M (Or.inr hnext)] at h
    | fail =>
        rw [ask, hnext] at h
        cases h
    | element s₁ n =>
        have hpos := M.pos hnext
        have hle := M.le hnext
        simp only [List.length_nil] at hle
        omega
  · rwa [ask_eq_run M (Or.inl hl)] at h

/-- Decoding one more piece after the tail of the earlier ones. -/
def feed (v : Verdict σ α) (chunk : List α) : Verdict σ α :=
  match v with
  | .rejected => .rejected
  | .rest s t => M.run s (t ++ chunk)

@[simp] theorem feed_rest (s : σ) (t chunk : List α) : M.feed (.rest s t) chunk = M.run s (t ++ chunk) := rfl

/-- Decoding a stream is decoding its first part and then what that leaves together with the second
part. -/
theorem run_append (s : σ) (a b : List α) : M.run s (a ++ b) = M.feed (M.run s a) b := by
  induction hlen : a.length using Nat.strongRecOn generalizing s a with
  | _ len ih =>
      by_cases ha : a = []
      · subst ha
        rw [run_nil]
        rfl
      · have hab : a ++ b ≠ [] := by simp [ha]
        cases hnext : M.next s a with
        | more => rw [run_of_more hnext, feed]
        | fail => rw [run_of_fail ha hnext, run_of_fail hab (M.fail_append b hnext), feed]
        | element s₁ n =>
            have hpos := M.pos hnext
            have hle := M.le hnext
            have hpositive := List.length_pos_iff.mpr ha
            have hshorter : (a.drop n).length < len := by rw [List.length_drop]; omega
            rw [run_of_element hnext, run_of_element (M.element_append b hnext),
              List.drop_append_of_le_length hle]
            exact ih _ hshorter s₁ _ rfl

variable {M} in
/-- An element is asked for as long as it is not complete. -/
theorem next_of_cut {s s' : σ} {l r : List α} {n : Nat} (h : M.next s (l ++ r) = .element s' n) (hcut : l.length < n) :
    M.next s l = .more := by
  cases hnext : M.next s l with
  | more => rfl
  | fail =>
      rw [M.fail_append r hnext] at h
      cases h
  | element s₁ n₁ =>
      have hle := M.le hnext
      rw [M.element_append r hnext] at h
      cases h
      omega

end Machine

end StreamDecoder
