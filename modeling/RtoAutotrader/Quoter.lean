import RtoAutotrader.Transducer

namespace RtoAutotrader

/-- A price to quote at from now on, and whether a new quote is allowed. -/
structure Tick (α : Type) where
  price : α
  allowed : Bool
  deriving DecidableEq, Repr

inductive QuoteAction (α : Type)
  | place (price : α)
  | withdraw
  deriving DecidableEq, Repr

namespace Tick

variable {α : Type} [DecidableEq α]

/-- A quote is kept at its price, withdrawn at any other, and placed when there is none. -/
def quote (held : Option α) (t : Tick α) : Option α × List (QuoteAction α) :=
  if held = some t.price then (held, [])
  else
    let withdrawn := if held = none then [] else [.withdraw]
    if t.allowed then (some t.price, withdrawn ++ [.place t.price]) else (none, withdrawn)

/-- What is left to do at the end. -/
def closing (held : Option α) : List (QuoteAction α) := if held = none then [] else [.withdraw]

/-- Neighbours at one price made one, allowed if one of them is. -/
def blocks : List (Tick α) → List (Tick α)
  | [] => []
  | t :: ticks =>
    match blocks ticks with
    | [] => [t]
    | block :: later =>
      if t.price = block.price then ⟨t.price, t.allowed || block.allowed⟩ :: later
      else t :: block :: later

def life (t : Tick α) : List (QuoteAction α) :=
  if t.allowed then [.place t.price, .withdraw] else []

theorem quote_same (t : Tick α) : quote (some t.price) t = (some t.price, []) := if_pos rfl

theorem quote_none (t : Tick α) :
    quote none t = if t.allowed then (some t.price, [.place t.price]) else (none, []) := by
  rw [quote, if_neg (Option.some_ne_none t.price).symm]
  rfl

theorem quote_other {price : α} {t : Tick α} (h : price ≠ t.price) :
    quote (some price) t = ((quote none t).1, .withdraw :: (quote none t).2) := by
  have hheld : some price ≠ some t.price := fun heq => h (Option.some.inj heq)
  rw [quote_none, quote, if_neg hheld, if_neg (Option.some_ne_none price)]
  split <;> rfl

/-- The first block is at the first tick's price. -/
theorem blocks_head (t : Tick α) (ticks : List (Tick α)) :
    ∃ allowed later, blocks (t :: ticks) = ⟨t.price, allowed⟩ :: later := by
  rw [blocks]
  split
  next => exact ⟨t.allowed, [], rfl⟩
  next block later _ =>
    split
    next => exact ⟨_, later, rfl⟩
    next => exact ⟨t.allowed, block :: later, rfl⟩

theorem blocks_merge {first second : Tick α} (h : first.price = second.price)
    (ticks : List (Tick α)) : blocks (first :: second :: ticks) =
      blocks (⟨first.price, first.allowed || second.allowed⟩ :: ticks) := by
  obtain ⟨price, allowed⟩ := first
  obtain ⟨price', allowed'⟩ := second
  obtain rfl : price = price' := h
  cases hlater : blocks ticks with
  | nil => simp [blocks, hlater]
  | cons block later =>
    by_cases hprice : price = block.price
    · simp [blocks, hlater, hprice, Bool.or_assoc]
    · simp [blocks, hlater, hprice]

theorem blocks_apart {first second : Tick α} (h : first.price ≠ second.price)
    (ticks : List (Tick α)) :
    blocks (first :: second :: ticks) = first :: blocks (second :: ticks) := by
  obtain ⟨allowed, later, hsecond⟩ := blocks_head second ticks
  rw [blocks, hsecond]
  exact if_neg h

/-- A tick that allows nothing leaves no trace in front. -/
theorem blocks_idle {t : Tick α} (h : t.allowed = false) (ticks : List (Tick α)) :
    (blocks (t :: ticks)).flatMap life = (blocks ticks).flatMap life := by
  obtain ⟨price, allowed⟩ := t
  obtain rfl : allowed = false := h
  cases hlater : blocks ticks with
  | nil => simp [blocks, hlater, life]
  | cons block later =>
    by_cases hprice : price = block.price
    · simp [blocks, hlater, hprice, life]
    · simp [blocks, hlater, hprice, life]

/-- The actions of a quoter that is stopped at the end: one quote for each block of ticks at one
price that allows one, placed and withdrawn once. -/
theorem quote_blocks (ticks : List (Tick α)) :
    (runFrom quote none ticks).2 ++ closing (runFrom quote none ticks).1 =
      (blocks ticks).flatMap life ∧
    ∀ price, .place price :: ((runFrom quote (some price) ticks).2 ++
      closing (runFrom quote (some price) ticks).1) = (blocks (⟨price, true⟩ :: ticks)).flatMap life := by
  induction ticks with
  | nil => exact ⟨rfl, fun _ => rfl⟩
  | cons t ticks ih =>
    obtain ⟨hempty, hheld⟩ := ih
    have hnone : (runFrom quote none (t :: ticks)).2 ++ closing (runFrom quote none (t :: ticks)).1 =
        (blocks (t :: ticks)).flatMap life := by
      obtain ⟨price, allowed⟩ := t
      rw [runFrom_cons, quote_none]
      cases allowed with
      | true => exact hheld price
      | false =>
        rw [blocks_idle rfl]
        exact hempty
    refine ⟨hnone, ?_⟩
    intro price
    by_cases hprice : price = t.price
    · subst hprice
      have hsame : (Tick.mk t.price true).price = t.price := rfl
      rw [runFrom_cons, quote_same, blocks_merge hsame, Bool.true_or]
      exact hheld t.price
    · rw [runFrom_cons, quote_other hprice, blocks_apart hprice, List.flatMap_cons, ← hnone]
      rfl

/-- What a rule may hold after a tick: nothing but the tick's price, with no new quote where none
is allowed, and always one where it is. -/
def MayHold (before : Option α) (t : Tick α) (after : Option α) : Prop :=
  if t.allowed then after = some t.price
  else after = none ∨ (after = before ∧ before = some t.price)

/-- The quotes that some rule holds after each of the ticks. -/
inductive Held : Option α → List (Tick α) → List (Option α) → Prop
  | nil (before : Option α) : Held before [] []
  | cons {before after : Option α} {t : Tick α} {ticks : List (Tick α)} {later : List (Option α)} :
      MayHold before t after → Held after ticks later → Held before (t :: ticks) (after :: later)

def move (before after : Option α) : List (QuoteAction α) :=
  if before = after then [] else closing before ++ (after.map .place).toList

def moves (before : Option α) : List (Option α) → List (QuoteAction α)
  | [] => []
  | after :: later => move before after ++ moves after later

theorem quote_mayHold (held : Option α) (t : Tick α) :
    MayHold held t (quote held t).1 ∧ move held (quote held t).1 = (quote held t).2 := by
  unfold quote MayHold move closing
  by_cases hheld : held = some t.price
  · simp [hheld]
  · cases hallowed : t.allowed with
    | true => simp [hheld]
    | false => by_cases hnone : held = none <;> simp [hheld, hnone]

theorem quote_held (held : Option α) (ticks : List (Tick α)) :
    ∃ later, Held held ticks later ∧ moves held later = (runFrom quote held ticks).2 := by
  induction ticks generalizing held with
  | nil => exact ⟨[], .nil held, rfl⟩
  | cons t ticks ih =>
    obtain ⟨later, hlater, hmoves⟩ := ih (quote held t).1
    obtain ⟨hhold, hmove⟩ := quote_mayHold held t
    refine ⟨(quote held t).1 :: later, .cons hhold hlater, ?_⟩
    rw [moves, hmove, hmoves, runFrom_cons]

/-- A quote that the quoter has kept and the rule has not. -/
def kept (held before : Option α) : Nat := if before = held then 0 else 1

theorem quote_fewer {held before after : Option α} {t : Tick α}
    (hbefore : before = none ∨ before = held) (h : MayHold before t after) :
    (after = none ∨ after = (quote held t).1) ∧
      (quote held t).2.length + kept (quote held t).1 after ≤
        (move before after).length + kept held before := by
  unfold MayHold at h
  unfold quote move closing kept
  by_cases hheld : held = some t.price
  · cases hallowed : t.allowed with
    | true =>
      obtain rfl : after = some t.price := by simpa [hallowed] using h
      simp [hheld]
    | false =>
      have hafter : after = none ∨ (after = before ∧ before = some t.price) := by
        simpa [hallowed] using h
      rcases hafter with rfl | ⟨rfl, rfl⟩
      · rcases hbefore with rfl | rfl <;> simp [hheld]
      · simp [hheld]
  · have hmoved : before ≠ some t.price := by
      rcases hbefore with rfl | rfl
      · exact (Option.some_ne_none t.price).symm
      · exact hheld
    cases hallowed : t.allowed with
    | true =>
      obtain rfl : after = some t.price := by simpa [hallowed] using h
      rcases hbefore with rfl | rfl
      · by_cases hnone : held = none <;> simp [hheld, hnone, eq_comm]
      · simp [hheld]
    | false =>
      obtain rfl : after = none := by simpa [hallowed, hmoved] using h
      rcases hbefore with rfl | rfl
      · by_cases hnone : held = none <;> simp [hheld, hnone, eq_comm]
      · by_cases hnone : before = none <;> simp [hheld, hnone]

/-- No rule takes fewer actions than the quoter. -/
theorem quote_fewest {held before : Option α} {ticks : List (Tick α)} {later : List (Option α)}
    (hbefore : before = none ∨ before = held) (h : Held before ticks later) :
    (runFrom quote held ticks).2.length ≤ (moves before later).length + kept held before := by
  induction h generalizing held with
  | nil before => exact Nat.zero_le _
  | cons hhold _ ih =>
    obtain ⟨hafter, hstep⟩ := quote_fewer hbefore hhold
    have hrest := ih hafter
    simp only [runFrom_cons, moves, List.length_append]
    omega

end Tick

end RtoAutotrader
