import Mathlib.Data.List.Induction

namespace RtoAutotrader

/-- A machine that answers each input with some outputs, run over a list of inputs:
the last state and all outputs in order. -/
def runFrom {σ ι ρ : Type} (step : σ → ι → σ × List ρ) (s : σ) : List ι → σ × List ρ
  | [] => (s, [])
  | i :: inputs =>
    ((runFrom step (step s i).1 inputs).1, (step s i).2 ++ (runFrom step (step s i).1 inputs).2)

@[simp] theorem runFrom_nil {σ ι ρ : Type} (step : σ → ι → σ × List ρ) (s : σ) :
    runFrom step s [] = (s, []) := rfl

@[simp] theorem runFrom_cons {σ ι ρ : Type} (step : σ → ι → σ × List ρ) (s : σ) (i : ι)
    (inputs : List ι) : runFrom step s (i :: inputs) =
      ((runFrom step (step s i).1 inputs).1,
        (step s i).2 ++ (runFrom step (step s i).1 inputs).2) := rfl

theorem runFrom_append {σ ι ρ : Type} (step : σ → ι → σ × List ρ) (s : σ)
    (first second : List ι) : runFrom step s (first ++ second) =
      ((runFrom step (runFrom step s first).1 second).1,
        (runFrom step s first).2 ++ (runFrom step (runFrom step s first).1 second).2) := by
  induction first generalizing s with
  | nil => rfl
  | cons i first ih => simp only [List.cons_append, runFrom_cons, ih, List.append_assoc]

theorem runFrom_concat {σ ι ρ : Type} (step : σ → ι → σ × List ρ) (s : σ) (inputs : List ι)
    (i : ι) : runFrom step s (inputs ++ [i]) =
      ((step (runFrom step s inputs).1 i).1,
        (runFrom step s inputs).2 ++ (step (runFrom step s inputs).1 i).2) := by
  simp [runFrom_append]

theorem runFrom_earlier {σ ι ρ : Type} (step : σ → ι → σ × List ρ) (s : σ)
    (first second : List ι) : (runFrom step s first).2 <+: (runFrom step s (first ++ second)).2 := by
  rw [runFrom_append]
  exact List.prefix_append _ _

theorem runFrom_fixed {σ ι ρ : Type} {step : σ → ι → σ × List ρ} {s : σ} {inputs : List ι}
    (h : ∀ i ∈ inputs, step s i = (s, [])) : runFrom step s inputs = (s, []) := by
  induction inputs with
  | nil => rfl
  | cons i inputs ih =>
    have hrest := ih fun j hj => h j (List.mem_cons_of_mem i hj)
    rw [runFrom_cons, h i List.mem_cons_self, hrest]
    rfl

/-- A relation between state and output log that every step on an input of a list
keeps is kept by the run over the list. -/
theorem runFrom_invariant {σ ι ρ : Type} {step : σ → ι → σ × List ρ} {I : σ → List ρ → Prop}
    {s : σ} {log : List ρ} {inputs : List ι} (start : I s log)
    (keep : ∀ s log, ∀ i ∈ inputs, I s log → I (step s i).1 (log ++ (step s i).2)) :
    I (runFrom step s inputs).1 (log ++ (runFrom step s inputs).2) := by
  induction inputs generalizing s log with
  | nil => simpa using start
  | cons i inputs ih =>
    have hstep := keep s log i List.mem_cons_self start
    have hrest := ih hstep fun s log j hj => keep s log j (List.mem_cons_of_mem i hj)
    simpa only [runFrom_cons, List.append_assoc] using hrest

theorem runFrom_holds {σ ι ρ : Type} {step : σ → ι → σ × List ρ} {I : σ → List ρ → Prop}
    {s : σ} {inputs : List ι} (start : I s [])
    (keep : ∀ s log, ∀ i ∈ inputs, I s log → I (step s i).1 (log ++ (step s i).2)) :
    I (runFrom step s inputs).1 (runFrom step s inputs).2 :=
  runFrom_invariant start keep

theorem runFrom_outputs {σ ι ρ : Type} {step : σ → ι → σ × List ρ} {P : ρ → Prop}
    (h : ∀ s i, ∀ r ∈ (step s i).2, P r) (s : σ) (inputs : List ι) :
    ∀ r ∈ (runFrom step s inputs).2, P r := by
  induction inputs generalizing s with
  | nil => simp
  | cons i inputs ih =>
    intro r hr
    rcases List.mem_append.mp hr with hfirst | hrest
    · exact h s i r hfirst
    · exact ih _ r hrest

/-- Inputs that a machine has no answer for may be left out. -/
theorem runFrom_filterMap {σ ι κ ρ : Type} {step : σ → ι → σ × List ρ} {f : κ → Option ι}
    {answer : σ → κ → σ × List ρ} (known : ∀ s k i, f k = some i → answer s k = step s i)
    (unknown : ∀ s k, f k = none → answer s k = (s, [])) (s : σ) (inputs : List κ) :
    runFrom answer s inputs = runFrom step s (inputs.filterMap f) := by
  induction inputs generalizing s with
  | nil => rfl
  | cons k inputs ih =>
    cases hk : f k with
    | none =>
      rw [List.filterMap_cons_none hk, runFrom_cons, unknown s k hk, ih]
      rfl
    | some i => rw [List.filterMap_cons_some hk, runFrom_cons, runFrom_cons, known s k i hk, ih]

/-- A machine that may refuse an action, run over a list of actions. -/
def playFrom {σ α : Type} (step : σ → α → Option σ) (s : σ) : List α → Option σ
  | [] => some s
  | a :: actions => (step s a).bind fun s' => playFrom step s' actions

theorem playFrom_append {σ α : Type} (step : σ → α → Option σ) (s : σ) (first second : List α) :
    playFrom step s (first ++ second) =
      (playFrom step s first).bind fun s' => playFrom step s' second := by
  induction first generalizing s with
  | nil => rfl
  | cons a first ih =>
    simp only [List.cons_append, playFrom, ih, Option.bind_assoc]

theorem playFrom_split {σ α : Type} {step : σ → α → Option σ} {s s' : σ} {first second : List α}
    (h : playFrom step s (first ++ second) = some s') :
    ∃ middle, playFrom step s first = some middle ∧ playFrom step middle second = some s' := by
  rw [playFrom_append] at h
  exact Option.bind_eq_some_iff.mp h

theorem playFrom_invariant {σ α : Type} {step : σ → α → Option σ} {I : List α → σ → Prop} {s : σ}
    (start : I [] s)
    (keep : ∀ before s a s', I before s → step s a = some s' → I (before ++ [a]) s')
    (actions : List α) {s' : σ} (h : playFrom step s actions = some s') : I actions s' := by
  induction actions using List.reverseRecOn generalizing s' with
  | nil =>
    cases h
    exact start
  | append_singleton before a ih =>
    obtain ⟨middle, hbefore, hlast⟩ := playFrom_split h
    have hstep : step middle a = some s' := by
      simpa [playFrom, Option.bind_eq_some_iff] using hlast
    exact keep before middle a s' (ih hbefore) hstep

/-- An invariant that steps keep within a limit, when a run within it was so all along. -/
theorem playFrom_invariant_within {σ α : Type} {step : σ → α → Option σ} {P : σ → Prop}
    {I : List α → σ → Prop} {s : σ} (start : I [] s)
    (earlier : ∀ s a s', step s a = some s' → P s' → P s)
    (keep : ∀ before s a s', I before s → step s a = some s' → P s' → I (before ++ [a]) s')
    (actions : List α) {s' : σ} (h : playFrom step s actions = some s') (hwithin : P s') :
    I actions s' := by
  refine playFrom_invariant (I := fun before s => P s → I before s) (fun _ => start) ?_ actions h hwithin
  intro before s a s' hold hstep hnow
  exact keep before s a s' (hold (earlier s a s' hstep hnow)) hstep hnow

theorem playFrom_mono {σ α : Type} {step step' : σ → α → Option σ}
    (weaker : ∀ s a s', step s a = some s' → step' s a = some s') {s s' : σ} (actions : List α)
    (h : playFrom step s actions = some s') : playFrom step' s actions = some s' := by
  induction actions generalizing s with
  | nil => exact h
  | cons a actions ih =>
    obtain ⟨middle, hfirst, hlater⟩ := Option.bind_eq_some_iff.mp h
    rw [playFrom, weaker s a middle hfirst]
    exact ih hlater

/-- Steps that each lower a measure come to an end. -/
theorem playFrom_bounded {σ α : Type} {step : σ → α → Option σ} {I : σ → Prop} {measure : σ → Nat}
    (fall : ∀ s a s', I s → step s a = some s' → I s' ∧ measure s' < measure s)
    {s : σ} (start : I s) (actions : List α) {s' : σ} (h : playFrom step s actions = some s') :
    I s' ∧ actions.length + measure s' ≤ measure s := by
  induction actions generalizing s with
  | nil =>
    cases h
    exact ⟨start, by simp⟩
  | cons a actions ih =>
    obtain ⟨middle, hfirst, hlater⟩ := Option.bind_eq_some_iff.mp h
    obtain ⟨hmiddle, hlower⟩ := fall s a middle start hfirst
    obtain ⟨hlast, hbound⟩ := ih hmiddle hlater
    refine ⟨hlast, ?_⟩
    rw [List.length_cons]
    omega

end RtoAutotrader
