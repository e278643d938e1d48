import RtoAutotrader.Exchange
import RtoAutotrader.ExecutorRuns

namespace RtoAutotrader

/-- A trading program: what it sends when it is driven, and what reports do to it. -/
structure Client (σ ι : Type) where
  act : σ → ι → σ × List Request
  receive : σ → Callback → σ

inductive Action (ι : Type)
  | act (input : ι)
  | process (fees : Int)
  | fill (k : Nat) (volume fees future_position : Int)
  | report (future_position : Int)
  | deliver (k : Nat)
  deriving DecidableEq, Repr

/-- A program and the exchange with all that is under way between them. For each insert
the exchange accepted, `accepted` has its position then and that of the program when
the insert was sent. -/
structure Market (σ : Type) where
  client : σ
  processed : List Request
  inFlight : List Request
  exchange : Exchange
  reports : List Callback
  delivered : List Callback
  accepted : List (Int × Int)
  deriving DecidableEq, Repr

def LiveOrder.cancelled (live : LiveOrder) (fees : Int) : Callback :=
  .onOrderStatusUpdate live.order.id (live.order.volume - live.remaining) 0 fees

def LiveOrder.traded (live : LiveOrder) (volume fees : Int) : Callback :=
  .onOrderStatusUpdate live.order.id (live.order.volume - (live.remaining - volume))
    (live.remaining - volume) fees

namespace Exchange

/-- The reports of a command, which come from cancels only. -/
def cancelReports (e : Exchange) (fees : Int) : Command → List Callback
  | .insertOrder _ _ _ _ _ => []
  | .cancelOrder id =>
    (e.orders.filter fun live => live.order.id = id).map fun live => live.cancelled fees

end Exchange

namespace Market

variable {σ ι : Type}

def start (s : σ) : Market σ := ⟨s, [], [], .start, [], [], []⟩

def sent (m : Market σ) : List Request := m.processed ++ m.inFlight

def acceptedBy (m : Market σ) (r : Request) : List (Int × Int) :=
  match r.command with
  | .insertOrder _ _ _ _ _ => [(m.exchange.position, r.position)]
  | .cancelOrder _ => []

def step (client : Client σ ι) (m : Market σ) : Action ι → Option (Market σ)
  | .act input =>
    some { m with
      client := (client.act m.client input).1
      inFlight := m.inFlight ++ (client.act m.client input).2 }
  | .process fees =>
    match m.inFlight with
    | [] => none
    | r :: rest =>
      some { m with
        processed := m.processed ++ [r]
        inFlight := rest
        exchange := m.exchange.process r.command
        reports := m.reports ++ m.exchange.cancelReports fees r.command
        accepted := m.accepted ++ m.acceptedBy r }
  | .fill k volume fees future_position =>
    match m.exchange.orders[k]?, m.exchange.fill k volume with
    | some live, some exchange =>
      some { m with
        exchange := exchange
        reports := m.reports ++
          [live.traded volume fees, .onPositionUpdate future_position exchange.position] }
    | _, _ => none
  | .report future_position =>
    some { m with reports := m.reports ++ [.onPositionUpdate future_position m.exchange.position] }
  | .deliver k =>
    match m.reports[k]? with
    | none => none
    | some report =>
      some { m with
        client := client.receive m.client report
        reports := m.reports.eraseIdx k
        delivered := m.delivered ++ [report] }

/-- All that an action can do, with what lets it happen. -/
theorem step_cases {client : Client σ ι} {m m' : Market σ} {action : Action ι}
    (h : m.step client action = some m') :
    (∃ input, action = .act input ∧ m' = { m with
      client := (client.act m.client input).1
      inFlight := m.inFlight ++ (client.act m.client input).2 }) ∨
    (∃ fees r rest, action = .process fees ∧ m.inFlight = r :: rest ∧ m' = { m with
      processed := m.processed ++ [r]
      inFlight := rest
      exchange := m.exchange.process r.command
      reports := m.reports ++ m.exchange.cancelReports fees r.command
      accepted := m.accepted ++ m.acceptedBy r }) ∨
    (∃ k volume fees future_position live exchange,
      action = .fill k volume fees future_position ∧ m.exchange.orders[k]? = some live ∧
      m.exchange.fill k volume = some exchange ∧ m' = { m with
        exchange := exchange
        reports := m.reports ++
          [live.traded volume fees, .onPositionUpdate future_position exchange.position] }) ∨
    (∃ future_position, action = .report future_position ∧ m' = { m with
      reports := m.reports ++ [.onPositionUpdate future_position m.exchange.position] }) ∨
    ∃ k report, action = .deliver k ∧ m.reports[k]? = some report ∧ m' = { m with
      client := client.receive m.client report
      reports := m.reports.eraseIdx k
      delivered := m.delivered ++ [report] } := by
  cases action with
  | act input =>
    cases h
    exact Or.inl ⟨input, rfl, rfl⟩
  | process fees =>
    simp only [step] at h
    split at h
    next => cases h
    next r rest hflight =>
      cases h
      exact Or.inr (Or.inl ⟨fees, r, rest, rfl, hflight, rfl⟩)
  | fill k volume fees future_position =>
    simp only [step] at h
    split at h
    next live exchange hlive hfill =>
      cases h
      exact Or.inr (Or.inr (Or.inl ⟨k, volume, fees, future_position, live, exchange, rfl, hlive,
        hfill, rfl⟩))
    next => cases h
  | report future_position =>
    cases h
    exact Or.inr (Or.inr (Or.inr (Or.inl ⟨future_position, rfl, rfl⟩)))
  | deliver k =>
    simp only [step] at h
    split at h
    next => cases h
    next report hreport =>
      cases h
      exact Or.inr (Or.inr (Or.inr (Or.inr ⟨k, report, rfl, hreport, rfl⟩)))

def run (client : Client σ ι) (s : σ) (actions : List (Action ι)) : Option (Market σ) :=
  playFrom (step client) (start s) actions

end Market

/-- The order that a report says has nothing left. -/
def Callback.done? : Callback → Option Int
  | .onOrderStatusUpdate id _ remaining_volume _ => if remaining_volume = 0 then some id else none
  | _ => none

def doneIds (reports : List Callback) : List Int := reports.filterMap Callback.done?

namespace Market

variable {σ ι : Type}

def done (m : Market σ) : List Int := doneIds (m.delivered ++ m.reports)

theorem doneIds_append (first second : List Callback) :
    doneIds (first ++ second) = doneIds first ++ doneIds second := by
  simp [doneIds]

theorem mem_doneIds_cancelReports {e : Exchange} {fees : Int} {command : Command} {id : Int}
    (h : id ∈ doneIds (e.cancelReports fees command)) :
    command = .cancelOrder id ∧ ∃ order ∈ e.book, order.id = id := by
  cases command with
  | insertOrder id side price volume lifespan => simp [Exchange.cancelReports, doneIds] at h
  | cancelOrder cancelled =>
    obtain ⟨report, hreport, hdone⟩ := List.mem_filterMap.mp h
    obtain ⟨live, hlive, rfl⟩ := List.mem_map.mp hreport
    obtain ⟨hmem, hid⟩ := List.mem_filter.mp hlive
    simp only [LiveOrder.cancelled, Callback.done?, if_pos, Option.some.injEq] at hdone
    have heq : live.order.id = cancelled := of_decide_eq_true hid
    rw [← hdone]
    exact ⟨by rw [heq], live.order, List.mem_map_of_mem hmem, rfl⟩

theorem doneIds_traded (live : LiveOrder) (volume fees future_position position : Int) :
    doneIds [live.traded volume fees, .onPositionUpdate future_position position] =
      if volume = live.remaining then [live.order.id] else [] := by
  by_cases h : volume = live.remaining
  · simp [doneIds, LiveOrder.traded, Callback.done?, h]
  · have hleft : live.remaining - volume ≠ 0 := by omega
    simp [doneIds, LiveOrder.traded, Callback.done?, h, hleft]

end Market

end RtoAutotrader
