import Mathlib.Data.List.Forall2
import RtoAutotrader.Program

namespace RtoAutotrader

namespace Program

variable {κ : Type} {reply : κ → Type} {ε ε' α β σ : Type}

/-- Every call of a program meets a condition on itself and on what happened before it. -/
def Obeys (P : List (Event κ reply) → κ → Prop) :
    List (Event κ reply) → Program κ reply ε α → Prop
  | _, done _ => True
  | _, threw _ => True
  | log, ask c next => P log c ∧ ∀ r, (next r).Obeys P (log ++ [⟨c, r⟩])

variable {P : List (Event κ reply) → κ → Prop} {log : List (Event κ reply)}

theorem Obeys.call {c : κ} (h : P log c) :
    (call c : Program κ reply ε (reply c)).Obeys P log := ⟨h, fun _ => trivial⟩

theorem Obeys.throwIf (condition : Prop) [Decidable condition] (error : ε) :
    (throwIf condition error : Program κ reply ε Unit).Obeys P log := by
  unfold Program.throwIf
  split <;> exact trivial

theorem Obeys.orThrow (value : Option α) (error : ε) :
    (orThrow value error : Program κ reply ε α).Obeys P log := by
  cases value <;> exact trivial

theorem Obeys.bind {p : Program κ reply ε α} {f : α → Program κ reply ε β} (h : p.Obeys P log)
    (hnext : ∀ events value, Runs p events (.ok value) → (f value).Obeys P (log ++ events)) :
    (p.bind f).Obeys P log := by
  induction p generalizing log with
  | done value =>
    have hfirst := hnext [] value (.done value)
    rwa [List.append_nil] at hfirst
  | threw error => exact trivial
  | ask c next ih =>
    refine ⟨h.1, fun r => ih r (h.2 r) ?_⟩
    intro events value hrun
    have hlater := hnext (⟨c, r⟩ :: events) value (.ask c next r hrun)
    rwa [List.append_assoc]

theorem Obeys.handle {p : Program κ reply ε α} {handler : ε → Program κ reply ε' α}
    (h : p.Obeys P log)
    (hnext : ∀ events error, Runs p events (.error error) →
      (handler error).Obeys P (log ++ events)) : (p.handle handler).Obeys P log := by
  induction p generalizing log with
  | done value => exact trivial
  | threw error =>
    have hfirst := hnext [] error (.threw error)
    rwa [List.append_nil] at hfirst
  | ask c next ih =>
    refine ⟨h.1, fun r => ih r (h.2 r) ?_⟩
    intro events error hrun
    have hlater := hnext (⟨c, r⟩ :: events) error (.ask c next r hrun)
    rwa [List.append_assoc]

theorem Obeys.check {condition : Prop} [Decidable condition] {error : ε}
    {f : Unit → Program κ reply ε α} (h : ¬condition → (f ()).Obeys P log) :
    ((Program.throwIf condition error).bind f).Obeys P log := by
  unfold Program.throwIf
  split
  next => exact trivial
  next hpassed => exact h hpassed

/-- The rule of consequence, with an invariant of the log that the calls keep. -/
theorem Obeys.imp {p : Program κ reply ε α} {Q : List (Event κ reply) → κ → Prop}
    {I : List (Event κ reply) → Prop} (h : p.Obeys P log) (hlog : I log)
    (keep : ∀ log c r, I log → P log c → I (log ++ [⟨c, r⟩]))
    (himp : ∀ log c, I log → P log c → Q log c) : p.Obeys Q log := by
  induction p generalizing log with
  | done value => exact trivial
  | threw error => exact trivial
  | ask c next ih => exact ⟨himp log c hlog h.1, fun r => ih r (h.2 r) (keep log c r hlog h.1)⟩

/-- The rule for loops: an invariant of the log under which the body obeys. -/
theorem Obeys.iterate {body : σ → Program κ reply ε σ} {I : List (Event κ reply) → σ → Prop}
    (hbody : ∀ log s, I log s → (body s).Obeys P log)
    (keep : ∀ log s events s', I log s → Runs (body s) events (.ok s') → I (log ++ events) s')
    (n : Nat) {s : σ} (h : I log s) : (iterate body n s).Obeys P log := by
  induction n generalizing log s with
  | zero => exact trivial
  | succ n ih =>
    apply (hbody log s h).bind
    intro events s' hrun
    exact ih (keep log s events s' h hrun)

theorem Obeys.runs {p : Program κ reply ε α} {events : List (Event κ reply)}
    {result : Except ε α} (h : p.Obeys P log) (hrun : Runs p events result) :
    ∀ earlier event later, events = earlier ++ event :: later →
      P (log ++ earlier) event.call := by
  induction hrun generalizing log with
  | done value => simp
  | threw error => simp
  | ask c next r rest ih =>
    intro earlier event later hsplit
    cases earlier with
    | nil =>
      obtain ⟨rfl, _⟩ := List.cons.inj hsplit
      simpa using h.1
    | cons first earlier =>
      obtain ⟨rfl, hlater⟩ := List.cons.inj hsplit
      simpa using ih (h.2 r) earlier event later hlater

/-- A program does not tell certain replies to a call apart. -/
def Blind (same : (c : κ) → reply c → reply c → Prop) : Program κ reply ε α → Prop
  | done _ => True
  | threw _ => True
  | ask c next => (∀ r r', same c r r' → next r = next r') ∧ ∀ r, (next r).Blind same

variable {same : (c : κ) → reply c → reply c → Prop}

theorem Blind.call {c : κ} (h : ∀ r r', ¬same c r r') :
    (call c : Program κ reply ε (reply c)).Blind same :=
  ⟨fun r r' hsame => absurd hsame (h r r'), fun _ => trivial⟩

theorem Blind.throwIf (condition : Prop) [Decidable condition] (error : ε) :
    (throwIf condition error : Program κ reply ε Unit).Blind same := by
  unfold Program.throwIf
  split <;> exact trivial

theorem Blind.orThrow (value : Option α) (error : ε) :
    (orThrow value error : Program κ reply ε α).Blind same := by
  cases value <;> exact trivial

theorem Blind.bind {p : Program κ reply ε α} {f : α → Program κ reply ε β} (h : p.Blind same)
    (hnext : ∀ value, (f value).Blind same) : (p.bind f).Blind same := by
  induction p with
  | done value => exact hnext value
  | threw error => exact trivial
  | ask c next ih =>
    refine ⟨?_, fun r => ih r (h.2 r)⟩
    intro r r' hsame
    exact congrArg (Program.bind · f) (h.1 r r' hsame)

/-- A call of which only a check is made that does not tell the replies apart. -/
theorem Blind.checked {c : κ} {bad : reply c → Prop} [DecidablePred bad] {error : ε}
    (h : ∀ r r', same c r r' → (bad r ↔ bad r')) :
    ((Program.call c).bind fun r => Program.throwIf (bad r) error).Blind same := by
  refine ⟨?_, fun r => Blind.throwIf (bad r) error⟩
  intro r r' hsame
  change Program.throwIf (bad r) error = Program.throwIf (bad r') error
  unfold Program.throwIf
  simp only [h r r' hsame]

/-- What comes after an unused reply does not depend on it. -/
theorem Blind.ignore {c : κ} {p : Program κ reply ε β} (h : p.Blind same) :
    ((Program.call c).bind fun _ => p).Blind same := ⟨fun _ _ _ => rfl, fun _ => h⟩

theorem Blind.handle {p : Program κ reply ε α} {handler : ε → Program κ reply ε' α}
    (h : p.Blind same) (hnext : ∀ error, (handler error).Blind same) :
    (p.handle handler).Blind same := by
  induction p with
  | done value => exact trivial
  | threw error => exact hnext error
  | ask c next ih =>
    refine ⟨?_, fun r => ih r (h.2 r)⟩
    intro r r' hsame
    exact congrArg (Program.handle handler) (h.1 r r' hsame)

theorem Blind.iterate {body : σ → Program κ reply ε σ} (h : ∀ s, (body s).Blind same) (n : Nat)
    (s : σ) : (iterate body n s).Blind same := by
  induction n generalizing s with
  | zero => exact trivial
  | succ n ih => exact (h s).bind ih

/-- Two events that differ at most in replies which are not told apart. -/
inductive Alike (same : (c : κ) → reply c → reply c → Prop) :
    Event κ reply → Event κ reply → Prop
  | refl (event : Event κ reply) : Alike same event event
  | same (c : κ) (r r' : reply c) (h : same c r r') : Alike same ⟨c, r⟩ ⟨c, r'⟩

/-- Replies that are not told apart make no other run. -/
theorem Blind.runs {p : Program κ reply ε α} {events events' : List (Event κ reply)}
    {result : Except ε α} (h : p.Blind same) (hrun : Runs p events result)
    (halike : List.Forall₂ (Alike same) events events') : Runs p events' result := by
  induction hrun generalizing events' with
  | done value =>
    cases halike
    exact .done value
  | threw error =>
    cases halike
    exact .threw error
  | ask c next r rest ih =>
    cases halike with
    | cons hfirst hlater =>
      cases hfirst with
      | refl => exact .ask c next r (ih (h.2 r) hlater)
      | same _ _ r' hsame =>
        have hrest := ih (h.2 r) hlater
        rw [h.1 r r' hsame] at hrest
        exact .ask c next r' hrest

/-- A program throws nothing but what a faulty reply provokes, and then at once. What a fault is
may depend on what happened before. -/
def Provoked (fault : List (Event κ reply) → Event κ reply → Option ε) :
    List (Event κ reply) → Program κ reply ε α → Prop
  | _, done _ => True
  | _, threw _ => False
  | log, ask c next => ∀ r, (∀ error, fault log ⟨c, r⟩ = some error → next r = threw error) ∧
      (fault log ⟨c, r⟩ = none → (next r).Provoked fault (log ++ [⟨c, r⟩]))

def Faultless (fault : List (Event κ reply) → Event κ reply → Option ε)
    (log events : List (Event κ reply)) : Prop :=
  ∀ earlier event later, events = earlier ++ event :: later → fault (log ++ earlier) event = none

variable {fault : List (Event κ reply) → Event κ reply → Option ε}

theorem Faultless.cons {event : Event κ reply} {events : List (Event κ reply)}
    (hfirst : fault log event = none) (h : Faultless fault (log ++ [event]) events) :
    Faultless fault log (event :: events) := by
  intro earlier event' later hsplit
  cases earlier with
  | nil =>
    obtain ⟨rfl, _⟩ := List.cons.inj hsplit
    rw [List.append_nil]
    exact hfirst
  | cons first earlier =>
    obtain ⟨rfl, hlater⟩ := List.cons.inj hsplit
    have hrest := h earlier event' later hlater
    rwa [List.append_assoc] at hrest

theorem Provoked.bind {p : Program κ reply ε α} {f : α → Program κ reply ε β}
    (h : p.Provoked fault log)
    (hnext : ∀ events value, Runs p events (.ok value) → (f value).Provoked fault (log ++ events)) :
    (p.bind f).Provoked fault log := by
  induction p generalizing log with
  | done value =>
    have hfirst := hnext [] value (.done value)
    rwa [List.append_nil] at hfirst
  | threw error => cases h
  | ask c next ih =>
    intro r
    refine ⟨?_, fun hfine => ih r ((h r).2 hfine) ?_⟩
    · intro error hfault
      exact congrArg (Program.bind · f) ((h r).1 error hfault)
    · intro events value hrun
      have hlater := hnext (⟨c, r⟩ :: events) value (.ask c next r hrun)
      rwa [List.append_assoc]

theorem Provoked.harmless {c : κ} {f : reply c → Program κ reply ε α}
    (hfine : ∀ r, fault log ⟨c, r⟩ = none)
    (hnext : ∀ r, (f r).Provoked fault (log ++ [⟨c, r⟩])) :
    ((Program.call c).bind f).Provoked fault log := by
  intro r
  refine ⟨?_, fun _ => hnext r⟩
  intro error hfault
  cases (hfine r).symm.trans hfault

/-- A call whose reply is checked right away. -/
theorem Provoked.checked {c : κ} {bad : reply c → Prop} [DecidablePred bad] {error : ε}
    {f : reply c → Program κ reply ε α}
    (hfault : ∀ r, fault log ⟨c, r⟩ = if bad r then some error else none)
    (hnext : ∀ r, (f r).Provoked fault (log ++ [⟨c, r⟩])) :
    ((Program.call c).bind fun r => (Program.throwIf (bad r) error).bind fun _ => f r).Provoked
      fault log := by
  intro r
  change (∀ e, _ → (Program.throwIf (bad r) error).bind (fun _ => f r) = threw e) ∧
    (_ → ((Program.throwIf (bad r) error).bind fun _ => f r).Provoked fault _)
  rw [hfault r]
  by_cases hbad : bad r
  · rw [if_pos hbad, throwIf_pos hbad]
    refine ⟨?_, fun hfine => by cases hfine⟩
    intro e heq
    cases heq
    rfl
  · rw [if_neg hbad, throwIf_neg hbad]
    refine ⟨?_, fun _ => hnext r⟩
    intro e heq
    cases heq

theorem Provoked.iterate {body : σ → Program κ reply ε σ}
    (h : ∀ log s, (body s).Provoked fault log) (n : Nat) (log : List (Event κ reply)) (s : σ) :
    (iterate body n s).Provoked fault log := by
  induction n generalizing log s with
  | zero => exact trivial
  | succ n ih => exact (h log s).bind fun _ _ _ => ih _ _

/-- A run ends in an error at its first faulty reply, and goes on as long as there is none. -/
theorem Provoked.runs {p : Program κ reply ε α} {events : List (Event κ reply)}
    {result : Except ε α} (h : p.Provoked fault log) (hrun : Runs p events result) :
    match result with
    | .ok _ => Faultless fault log events
    | .error error => ∃ earlier last, events = earlier ++ [last] ∧
        fault (log ++ earlier) last = some error ∧ Faultless fault log earlier := by
  induction hrun generalizing log with
  | done value => simp [Faultless]
  | threw error => cases h
  | @ask c next r events result rest ih =>
    cases hfault : fault log ⟨c, r⟩ with
    | some error =>
      rw [(h r).1 error hfault] at rest
      cases rest
      exact ⟨[], ⟨c, r⟩, rfl, by rw [List.append_nil, hfault], by simp [Faultless]⟩
    | none =>
      have hlater := ih ((h r).2 hfault)
      cases result with
      | ok value => exact hlater.cons hfault
      | error error =>
        obtain ⟨earlier, last, rfl, hlast, hnone⟩ := hlater
        rw [List.append_assoc] at hlast
        exact ⟨⟨c, r⟩ :: earlier, last, rfl, hlast, hnone.cons hfault⟩

end Program

end RtoAutotrader
