import Mathlib.Data.List.Induction

namespace RtoAutotrader

/-- A program that makes calls, each of which it is given a reply to. It ends with a value
or an error. -/
inductive Program (κ : Type) (reply : κ → Type) (ε α : Type) : Type
  | done (value : α)
  | threw (error : ε)
  | ask (call : κ) (next : reply call → Program κ reply ε α)

namespace Program

variable {κ : Type} {reply : κ → Type} {ε ε' α β σ : Type}

def bind : Program κ reply ε α → (α → Program κ reply ε β) → Program κ reply ε β
  | done value, f => f value
  | threw error, _ => threw error
  | ask call next, f => ask call fun r => (next r).bind f

instance : Monad (Program κ reply ε) where
  pure := done
  bind := bind

def call (c : κ) : Program κ reply ε (reply c) := ask c done

def throwIf (condition : Prop) [Decidable condition] (error : ε) : Program κ reply ε Unit :=
  if condition then threw error else done ()

def orThrow (value : Option α) (error : ε) : Program κ reply ε α :=
  match value with
  | some value => done value
  | none => threw error

/-- A program whose errors are all taken care of. -/
def handle (handler : ε → Program κ reply ε' α) : Program κ reply ε α → Program κ reply ε' α
  | done value => done value
  | threw error => handler error
  | ask call next => ask call fun r => (next r).handle handler

/-- An endless loop up to its n-th pass. -/
def iterate (body : σ → Program κ reply ε σ) : Nat → σ → Program κ reply ε σ
  | 0, s => done s
  | n + 1, s => (body s).bind (iterate body n)

structure Event (κ : Type) (reply : κ → Type) where
  call : κ
  reply : reply call

/-- What a program does, whatever it is told: its calls with their replies, and its end. -/
inductive Runs : Program κ reply ε α → List (Event κ reply) → Except ε α → Prop
  | done (value : α) : Runs (done value) [] (.ok value)
  | threw (error : ε) : Runs (threw error) [] (.error error)
  | ask (call : κ) (next : reply call → Program κ reply ε α) (r : reply call)
    {events : List (Event κ reply)} {result : Except ε α} (rest : Runs (next r) events result) :
    Runs (ask call next) (⟨call, r⟩ :: events) result

/-- The run in surroundings that reply according to what has happened so far. -/
def run (world : List (Event κ reply) → (c : κ) → reply c) :
    List (Event κ reply) → Program κ reply ε α → List (Event κ reply) × Except ε α
  | _, done value => ([], .ok value)
  | _, threw error => ([], .error error)
  | history, ask c next =>
    let event : Event κ reply := ⟨c, world history c⟩
    let rest := (next event.reply).run world (history ++ [event])
    (event :: rest.1, rest.2)

theorem run_runs (world : List (Event κ reply) → (c : κ) → reply c)
    (history : List (Event κ reply)) (p : Program κ reply ε α) :
    Runs p (p.run world history).1 (p.run world history).2 := by
  induction p generalizing history with
  | done value => exact .done value
  | threw error => exact .threw error
  | ask c next ih => exact .ask c next (world history c) (ih (world history c) _)

/-- In a run every reply is the one its surroundings give to what happened before. -/
theorem run_replies (world : List (Event κ reply) → (c : κ) → reply c)
    (history : List (Event κ reply)) (p : Program κ reply ε α) {earlier later : List (Event κ reply)}
    {event : Event κ reply} (h : (p.run world history).1 = earlier ++ event :: later) :
    event.reply = world (history ++ earlier) event.call := by
  induction p generalizing history earlier with
  | done value => simp [run] at h
  | threw error => simp [run] at h
  | ask c next ih =>
    cases earlier with
    | nil =>
      obtain ⟨rfl, _⟩ := List.cons.inj h
      rw [List.append_nil]
    | cons first earlier =>
      obtain ⟨rfl, hlater⟩ := List.cons.inj h
      have hrest := ih _ _ hlater
      rwa [List.append_assoc] at hrest

theorem throwIf_pos {condition : Prop} [Decidable condition] (h : condition) (error : ε) :
    (throwIf condition error : Program κ reply ε Unit) = threw error := if_pos h

theorem throwIf_neg {condition : Prop} [Decidable condition] (h : ¬condition) (error : ε) :
    (throwIf condition error : Program κ reply ε Unit) = done () := if_neg h

theorem bind_assoc {γ : Type} (p : Program κ reply ε α) (f : α → Program κ reply ε β)
    (g : β → Program κ reply ε γ) : (p.bind f).bind g = p.bind fun value => (f value).bind g := by
  induction p with
  | done value => rfl
  | threw error => rfl
  | ask c next ih => exact congrArg (ask c) (funext ih)

variable {p : Program κ reply ε α} {events : List (Event κ reply)}

theorem runs_done {value : α} {result : Except ε α}
    (h : Runs (.done value : Program κ reply ε α) events result) :
    events = [] ∧ result = .ok value := by
  cases h
  exact ⟨rfl, rfl⟩

theorem runs_call {c : κ} {f : reply c → Program κ reply ε α} {result : Except ε α}
    (h : Runs ((call c).bind f) events result) :
    ∃ r rest, events = ⟨c, r⟩ :: rest ∧ Runs (f r) rest result := by
  cases h with
  | ask _ _ r rest => exact ⟨r, _, rfl, rest⟩

/-- A check is passed, or the program ends in its error. -/
theorem runs_throwIf {condition : Prop} [Decidable condition] {error : ε}
    {f : Unit → Program κ reply ε α} {result : Except ε α}
    (h : Runs ((throwIf condition error).bind f) events result) :
    (condition ∧ events = [] ∧ result = .error error) ∨ ¬condition ∧ Runs (f ()) events result := by
  by_cases hc : condition
  · rw [throwIf_pos hc] at h
    cases h
    exact Or.inl ⟨hc, rfl, rfl⟩
  · rw [throwIf_neg hc] at h
    exact Or.inr ⟨hc, h⟩

theorem runs_throwIf_ok {condition : Prop} [Decidable condition] {error : ε}
    {f : Unit → Program κ reply ε α} {value : α}
    (h : Runs ((throwIf condition error).bind f) events (.ok value)) :
    ¬condition ∧ Runs (f ()) events (.ok value) := by
  rcases runs_throwIf h with ⟨_, _, herror⟩ | hpassed
  · cases herror
  · exact hpassed

theorem runs_orThrow_ok {found : Option α} {error : ε} {f : α → Program κ reply ε β} {value : β}
    (h : Runs ((orThrow found error).bind f) events (.ok value)) :
    ∃ x, found = some x ∧ Runs (f x) events (.ok value) := by
  cases found with
  | none => cases h
  | some x => exact ⟨x, rfl, h⟩

/-- A sequence of two programs gets to the second one or ends in an error of the first. -/
theorem runs_bind {f : α → Program κ reply ε β} {result : Except ε β}
    (h : Runs (p.bind f) events result) :
    (∃ value first second, events = first ++ second ∧ Runs p first (.ok value) ∧
      Runs (f value) second result) ∨
    ∃ error, result = .error error ∧ Runs p events (.error error) := by
  induction p generalizing events with
  | done value => exact Or.inl ⟨value, [], events, rfl, .done value, h⟩
  | threw error =>
    cases h
    exact Or.inr ⟨error, rfl, .threw error⟩
  | ask c next ih =>
    cases h with
    | ask _ _ r rest =>
      rcases ih r rest with ⟨value, first, second, rfl, hfirst, hsecond⟩ | ⟨error, rfl, herror⟩
      · exact Or.inl ⟨value, _, second, rfl, .ask c next r hfirst, hsecond⟩
      · exact Or.inr ⟨error, rfl, .ask c next r herror⟩

theorem runs_bind_ok {f : α → Program κ reply ε β} {last : β}
    (h : Runs (p.bind f) events (.ok last)) :
    ∃ value first second, events = first ++ second ∧ Runs p first (.ok value) ∧
      Runs (f value) second (.ok last) := by
  rcases runs_bind h with hboth | ⟨_, herror, _⟩
  · exact hboth
  · cases herror

theorem runs_handle {handler : ε → Program κ reply ε' α} {result : Except ε' α}
    (h : Runs (p.handle handler) events result) :
    (∃ value, result = .ok value ∧ Runs p events (.ok value)) ∨
    ∃ error first second, events = first ++ second ∧ Runs p first (.error error) ∧
      Runs (handler error) second result := by
  induction p generalizing events with
  | done value =>
    cases h
    exact Or.inl ⟨value, rfl, .done value⟩
  | threw error => exact Or.inr ⟨error, [], events, rfl, .threw error, h⟩
  | ask c next ih =>
    cases h with
    | ask _ _ r rest =>
      rcases ih r rest with ⟨value, rfl, hvalue⟩ | ⟨error, first, second, rfl, hfirst, hsecond⟩
      · exact Or.inl ⟨value, rfl, .ask c next r hvalue⟩
      · exact Or.inr ⟨error, _, second, rfl, .ask c next r hfirst, hsecond⟩

end Program

end RtoAutotrader
