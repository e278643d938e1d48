import RtoAutotrader.OrderLog

namespace RtoAutotrader

/-- An order at the exchange with the volume it has left to trade. -/
structure LiveOrder where
  order : Order
  remaining : Int
  positive : 0 < remaining
  within : remaining ≤ order.volume
  deriving DecidableEq, Repr

def Order.accept (order : Order) : List LiveOrder :=
  if h : 0 < order.volume then [⟨order, order.volume, h, Int.le_refl _⟩] else []

def LiveOrder.less (live : LiveOrder) (volume : Int) : List LiveOrder :=
  if h : 0 < volume ∧ volume < live.remaining then
    [⟨live.order, live.remaining - volume, by omega, by have := live.within; omega⟩]
  else []

def Side.signed : Side → Int → Int
  | .buy, volume => volume
  | .sell, volume => -volume

structure Exchange where
  orders : List LiveOrder
  position : Int
  deriving DecidableEq, Repr

namespace Exchange

def start : Exchange := ⟨[], 0⟩

def process (e : Exchange) : Command → Exchange
  | .insertOrder id side price volume lifespan =>
    { e with orders := e.orders ++ (Order.mk id side price volume lifespan).accept }
  | .cancelOrder id => { e with orders := e.orders.filter fun live => live.order.id ≠ id }

theorem process_position (e : Exchange) (command : Command) :
    (e.process command).position = e.position := by
  cases command <;> rfl

/-- A live order trades a volume, up to what it has left. -/
def fill (e : Exchange) (k : Nat) (volume : Int) : Option Exchange :=
  match e.orders[k]? with
  | none => none
  | some live =>
    if 0 < volume ∧ volume ≤ live.remaining then
      some ⟨e.orders.take k ++ live.less volume ++ e.orders.drop (k + 1),
        e.position + live.order.side.signed volume⟩
    else none

theorem fill_cases {e e' : Exchange} {k : Nat} {volume : Int} (h : e.fill k volume = some e') :
    ∃ before live after, e.orders = before ++ live :: after ∧ e.orders[k]? = some live ∧
      0 < volume ∧ volume ≤ live.remaining ∧
      e' = ⟨before ++ live.less volume ++ after, e.position + live.order.side.signed volume⟩ := by
  unfold fill at h
  split at h
  next => cases h
  next live hlive =>
    split_ifs at h with hvolume
    obtain ⟨hk, hget⟩ := List.getElem?_eq_some_iff.mp hlive
    refine ⟨e.orders.take k, live, e.orders.drop (k + 1), ?_, hlive, hvolume.1, hvolume.2,
      (Option.some.inj h).symm⟩
    rw [← hget, List.getElem_cons_drop, List.take_append_drop]

def book (e : Exchange) : List Order := e.orders.map LiveOrder.order

theorem less_cases {live : LiveOrder} {volume : Int} (hvolume : 0 < volume)
    (hle : volume ≤ live.remaining) :
    (volume = live.remaining ∧ live.less volume = []) ∨
      ∃ rest : LiveOrder, live.less volume = [rest] ∧ rest.order = live.order ∧
        rest.remaining = live.remaining - volume := by
  unfold LiveOrder.less
  split_ifs with h
  · exact Or.inr ⟨_, rfl, rfl, rfl⟩
  · exact Or.inl ⟨by omega, rfl⟩

theorem process_book {e : Exchange} {command : Command}
    (h : ∀ id side price volume lifespan, command = .insertOrder id side price volume lifespan →
      0 < volume) : (e.process command).book = applyEntry Order.id e.book command.entry := by
  cases command with
  | insertOrder id side price volume lifespan =>
    have hvolume := h id side price volume lifespan rfl
    simp [process, book, Order.accept, Command.entry, applyEntry, hvolume]
  | cancelOrder id => simp [process, book, Command.entry, applyEntry, List.filter_map,
      Function.comp_def]

theorem fill_book {e e' : Exchange} {k : Nat} {volume : Int} (h : e.fill k volume = some e') :
    ∃ before live after, e.orders = before ++ live :: after ∧ e.orders[k]? = some live ∧
      ((volume = live.remaining ∧ e'.book = before.map LiveOrder.order ++
        after.map LiveOrder.order) ∨ (volume ≠ live.remaining ∧ e'.book = e.book)) := by
  obtain ⟨before, live, after, horders, hlive, hvolume, hle, rfl⟩ := fill_cases h
  refine ⟨before, live, after, horders, hlive, ?_⟩
  rcases less_cases hvolume hle with ⟨hall, hless⟩ | ⟨rest, hless, horder, hrest⟩
  · exact Or.inl ⟨hall, by simp [book, hless]⟩
  · have hpositive := rest.positive
    exact Or.inr ⟨by omega, by simp [book, hless, horder, horders]⟩

theorem fill_book_sublist {e e' : Exchange} {k : Nat} {volume : Int}
    (h : e.fill k volume = some e') : e'.book.Sublist e.book := by
  obtain ⟨before, live, after, horders, _, ⟨_, hbook⟩ | ⟨_, hbook⟩⟩ := fill_book h
  · rw [hbook, book, horders, List.map_append, List.map_cons]
    exact (List.Sublist.refl _).append (List.sublist_cons_self _ _)
  · rw [hbook]

inductive Event
  | processed (command : Command)
  | filled (k : Nat) (volume : Int)
  deriving DecidableEq, Repr

def step (e : Exchange) : Event → Option Exchange
  | .processed command => some (e.process command)
  | .filled k volume => e.fill k volume

def Event.command? : Event → Option Command
  | .processed command => some command
  | .filled _ _ => none

def commands (events : List Event) : List Command := events.filterMap Event.command?

/-- However orders fill, those that live were inserted and not cancelled. -/
theorem run_book_sublist {events : List Event} {e : Exchange}
    (h : playFrom step start events = some e)
    (hvolumes : ∀ id side price volume lifespan,
      .insertOrder id side price volume lifespan ∈ commands events → 0 < volume) :
    e.book.Sublist (replay Order.id ((commands events).map Command.entry)) := by
  refine playFrom_invariant (s := start) (I := fun before e =>
    (∀ id side price volume lifespan,
      .insertOrder id side price volume lifespan ∈ commands before → 0 < volume) →
    e.book.Sublist (replay Order.id ((commands before).map Command.entry)))
    (fun _ => List.Sublist.refl _) ?_ events h hvolumes
  intro before e event e' hold hstep hpositive
  cases event with
  | filled k volume =>
    have hsame : commands (before ++ [.filled k volume]) = commands before := by
      simp [commands, Event.command?]
    rw [hsame] at hpositive ⊢
    exact (fill_book_sublist hstep).trans (hold hpositive)
  | processed command =>
    cases hstep
    have hmore : commands (before ++ [.processed command]) = commands before ++ [command] := by
      simp [commands, Event.command?]
    rw [hmore] at hpositive ⊢
    have hbefore := hold fun id side price volume lifespan hmem =>
      hpositive id side price volume lifespan (List.mem_append_left _ hmem)
    rw [process_book fun id side price volume lifespan heq =>
      hpositive id side price volume lifespan (by simp [heq]), List.map_append, replay_append]
    exact applyEntry_sublist hbefore command.entry

end Exchange

end RtoAutotrader
