import Mathlib.Algebra.Order.BigOperators.Group.List
import Mathlib.Algebra.Order.Group.Abs
import Mathlib.Algebra.Order.Ring.Int
import RtoAutotrader.MarketLedger

namespace RtoAutotrader

namespace Exchange

def resting (e : Exchange) (side : Side) : Int :=
  ((e.orders.filter fun live => live.order.side = side).map LiveOrder.remaining).sum

theorem resting_nonneg (e : Exchange) (side : Side) : 0 ≤ e.resting side := by
  apply List.sum_nonneg
  intro remaining hremaining
  obtain ⟨live, _, rfl⟩ := List.mem_map.mp hremaining
  exact Int.le_of_lt live.positive

theorem resting_insert (e : Exchange) {volume : Int} (hvolume : 0 < volume) (id price : Int)
    (side : Side) (lifespan : Lifespan) (other : Side) :
    (e.process (.insertOrder id side price volume lifespan)).resting other =
      e.resting other + if side = other then volume else 0 := by
  by_cases h : side = other <;> simp [resting, process, Order.accept, hvolume, h]

theorem resting_cancel (e : Exchange) (id : Int) (side : Side) :
    (e.process (.cancelOrder id)).resting side ≤ e.resting side := by
  have hsub : ((e.process (.cancelOrder id)).orders.filter fun live =>
      live.order.side = side).Sublist (e.orders.filter fun live => live.order.side = side) :=
    List.filter_sublist.filter _
  apply (hsub.map LiveOrder.remaining).sum_le_sum
  intro remaining hremaining
  obtain ⟨live, _, rfl⟩ := List.mem_map.mp hremaining
  exact Int.le_of_lt live.positive

theorem fill_resting {e e' : Exchange} {k : Nat} {volume : Int}
    (h : e.fill k volume = some e') : ∃ side, 0 < volume ∧
      e'.position = e.position + side.signed volume ∧
      ∀ other, e'.resting other = e.resting other - if side = other then volume else 0 := by
  obtain ⟨before, live, after, horders, _, hvolume, hle, rfl⟩ := fill_cases h
  refine ⟨live.order.side, hvolume, rfl, ?_⟩
  intro other
  rcases less_cases hvolume hle with ⟨hall, hless⟩ | ⟨rest, hless, horder, hrest⟩
  · by_cases hside : live.order.side = other
    · simp only [resting, horders, hless, List.append_nil, List.filter_append, List.filter_cons,
        hside, decide_true, if_true, List.map_append, List.map_cons, List.sum_append, List.sum_cons]
      omega
    · simp [resting, horders, hless, hside]
  · by_cases hside : live.order.side = other
    · simp only [resting, horders, hless, List.filter_append, List.filter_cons, List.filter_nil,
        horder, hside, decide_true, if_true, List.map_append, List.map_cons, List.map_nil,
        List.sum_append, List.sum_cons, List.sum_nil, hrest]
      omega
    · simp [resting, horders, hless, horder, hside]

end Exchange

namespace Market

variable {σ ι : Type}

/-- Whatever trades next, the position stays this close to 0. -/
structure Bounded (u : Int) (m : Market σ) : Prop where
  high : m.exchange.position + m.exchange.resting .buy ≤ 89 + u
  low : -89 - u ≤ m.exchange.position - m.exchange.resting .sell

/-- No insert was accepted with the program's position off by more than `u`. -/
def InformedWithin (u : Int) (m : Market σ) : Prop :=
  ∀ pair ∈ m.accepted, |pair.1 - pair.2| ≤ u

theorem Consistent.side_empty {executor : σ → SimpleExecutor} {m : Market σ} {r : Request}
    {rest : List Request} (h : m.Consistent executor) (hflight : m.inFlight = r :: rest)
    {order : Order} (hopened : r.command.entry.opened? = some order) :
    m.exchange.resting order.side = 0 := by
  have hsound := h.tracks.sound (m.processed ++ [r]) (by simp [sent, hflight])
  have hsingle := hsound.single order.side
  have hentry : r.command.entry = .opened order := by
    cases hcommand : r.command.entry with
    | opened item =>
      rw [hcommand] at hopened
      rw [Option.some.inj hopened]
    | closed key => simp [hcommand, Entry.opened?] at hopened
  have hnone : ordersOn order.side (openOrders m.processed) = [] := by
    rw [openOrders_concat, hentry] at hsingle
    simp only [applyEntry, SimpleExecutor.ordersOn_append, List.length_append] at hsingle
    have hself : (ordersOn order.side [order]).length = 1 := by simp [ordersOn]
    exact List.length_eq_zero_iff.mp (by omega)
  have hempty : (m.exchange.orders.filter fun live => live.order.side = order.side) = [] := by
    apply List.filter_eq_nil_iff.mpr
    intro live hlive hside
    have hbook : live.order ∈ m.exchange.book := List.mem_map_of_mem hlive
    rw [h.book] at hbook
    have hopen : live.order ∈ ordersOn order.side (openOrders m.processed) :=
      List.mem_filter.mpr ⟨List.mem_of_mem_filter hbook, hside⟩
    rw [hnone] at hopen
    cases hopen
  simp [Exchange.resting, hempty]

theorem Bounded.process {executor : σ → SimpleExecutor} {m : Market σ} {u : Int} {r : Request}
    {rest : List Request} (h : m.Bounded u) (hconsistent : m.Consistent executor)
    (hflight : m.inFlight = r :: rest)
    (hinformed : ∀ pair ∈ m.acceptedBy r, |pair.1 - pair.2| ≤ u) :
    m.exchange.position + (m.exchange.process r.command).resting .buy ≤ 89 + u ∧
      -89 - u ≤ m.exchange.position - (m.exchange.process r.command).resting .sell := by
  have hhigh := h.high
  have hlow := h.low
  cases hcommand : r.command with
  | cancelOrder id =>
    have hbuy := m.exchange.resting_cancel id .buy
    have hsell := m.exchange.resting_cancel id .sell
    omega
  | insertOrder id side price volume lifespan =>
    have hlimited := hconsistent.limited r (by simp [sent, hflight]) id side price volume lifespan
      hcommand
    obtain ⟨rfl, hbuyLimit, hsellLimit⟩ := hlimited
    have hnear := hinformed (m.exchange.position, r.position) (by simp [acceptedBy, hcommand])
    have hbounds := abs_le.mp hnear
    have hempty := hconsistent.side_empty hflight
      (show r.command.entry.opened? = some ⟨id, side, price, 10, lifespan⟩ by rw [hcommand]; rfl)
    rw [Exchange.resting_insert _ (by decide), Exchange.resting_insert _ (by decide)]
    cases side with
    | buy =>
      have hposition := hbuyLimit rfl
      simp only [if_true, reduceCtorEq, if_false] at hempty ⊢
      omega
    | sell =>
      have hposition := hsellLimit rfl
      simp only [if_true, reduceCtorEq, if_false] at hempty ⊢
      omega

theorem Bounded.fill {m : Market σ} {u : Int} {k : Nat} {volume : Int} {exchange : Exchange}
    (h : m.Bounded u) (hfill : m.exchange.fill k volume = some exchange) :
    exchange.position + exchange.resting .buy ≤ 89 + u ∧
      -89 - u ≤ exchange.position - exchange.resting .sell := by
  have hhigh := h.high
  have hlow := h.low
  obtain ⟨side, hvolume, hposition, hresting⟩ := Exchange.fill_resting hfill
  rw [hposition, hresting, hresting]
  cases side with
  | buy =>
    simp only [Side.signed, if_true, reduceCtorEq, if_false]
    omega
  | sell =>
    simp only [Side.signed, if_true, reduceCtorEq, if_false]
    omega

theorem Bounded.step {client : Client σ ι} {executor : σ → SimpleExecutor} {m m' : Market σ}
    {action : Action ι} {u : Int} (hconsistent : m.Consistent executor)
    (h : m.InformedWithin u → m.Bounded u) (hstep : m.step client action = some m')
    (hinformed : m'.InformedWithin u) : m'.Bounded u := by
  obtain ⟨input, -, rfl⟩ | ⟨fees, r, rest, -, hflight, rfl⟩ |
    ⟨k, volume, fees, future_position, live, exchange, -, -, hfill, rfl⟩ |
    ⟨future_position, -, rfl⟩ | ⟨k, report, -, -, rfl⟩ := step_cases hstep
  · exact ⟨(h hinformed).high, (h hinformed).low⟩
  · have hbefore := h fun pair hpair => hinformed pair (List.mem_append_left _ hpair)
    have hnow := hbefore.process hconsistent hflight
      fun pair hpair => hinformed pair (List.mem_append_right _ hpair)
    cases hcommand : r.command <;> rw [hcommand] at hnow <;> exact ⟨hnow.1, hnow.2⟩
  · have hnow := (h hinformed).fill hfill
    exact ⟨hnow.1, hnow.2⟩
  · exact ⟨(h hinformed).high, (h hinformed).low⟩
  · exact ⟨(h hinformed).high, (h hinformed).low⟩

/-- The position bound for any program that trades through a `SimpleExecutor`. -/
theorem run_bounded {client : Client σ ι} {executor : σ → SimpleExecutor} {s : σ}
    (hosts : Hosts client executor) (hs : executor s = .start) {actions : List (Action ι)}
    {m : Market σ} (h : run client s actions = some m)
    (hlimit : (inserted m.sent).length ≤ INSERT_LIMIT) {u : Int} (hu : 0 ≤ u)
    (hinformed : m.InformedWithin u) : m.Bounded u := by
  refine (playFrom_invariant_within (s := start s)
    (P := fun m => (inserted m.sent).length ≤ INSERT_LIMIT) (I := fun _ m =>
      m.Consistent executor ∧ (m.InformedWithin u → m.Bounded u)) ?_ ?_ ?_ actions h hlimit).2 hinformed
  · refine ⟨consistent_start hs, fun _ => ⟨?_, ?_⟩⟩
    · simp only [start, Exchange.start, Exchange.resting, List.filter_nil, List.map_nil,
        List.sum_nil]
      omega
    · simp only [start, Exchange.start, Exchange.resting, List.filter_nil, List.map_nil,
        List.sum_nil]
      omega
  · exact fun _ _ _ hstep hroom => Nat.le_trans (inserted_length_mono (step_sent hstep)) hroom
  · rintro _ m action m' ⟨hconsistent, hbounded⟩ hstep hroom
    exact ⟨hconsistent.step hosts hstep hroom, Bounded.step hconsistent hbounded hstep⟩

end Market

/-- A `SimpleExecutor` driven by calls with any prices, and told of positions only. -/
def executorClient : Client SimpleExecutor (Int × Int) where
  act s prices := s.executeTrades prices.1 prices.2
  receive
    | s, .onPositionUpdate future_position etf_position =>
      s.onPositionUpdate future_position etf_position
    | s, _ => s

theorem executorClient_hosts : Hosts executorClient id where
  act _ prices := ⟨prices.1, prices.2, rfl, rfl⟩
  receive s c := by
    cases c with
    | onOrderBookUpdate update => exact Or.inl rfl
    | onOrderStatusUpdate id fill_volume remaining_volume fees => exact Or.inl rfl
    | onPositionUpdate future_position etf_position =>
      exact Or.inr ⟨future_position, etf_position, rfl⟩

/-- However commands, fills and reports are delayed, the worst case of what is live
stays within the limit by what the executor did not know. -/
theorem executor_position_bounded (actions : List (Action (Int × Int))) (m : Market SimpleExecutor)
    (hrun : Market.run executorClient .start actions = some m)
    (hlimit : (inserted m.sent).length ≤ INSERT_LIMIT) (u : Int) (hu : 0 ≤ u)
    (hinformed : m.InformedWithin u) :
    m.exchange.position + m.exchange.resting .buy ≤ 89 + u ∧
      m.exchange.position - m.exchange.resting .sell ≥ -89 - u ∧
      |m.exchange.position| ≤ 89 + u := by
  obtain ⟨hhigh, hlow⟩ := Market.run_bounded executorClient_hosts rfl hrun hlimit hu hinformed
  have hbuy := m.exchange.resting_nonneg .buy
  have hsell := m.exchange.resting_nonneg .sell
  refine ⟨hhigh, hlow, abs_le.mpr ⟨?_, ?_⟩⟩
  · omega
  · omega

/-- A market in which the first bid was filled before the executor heard of it and a
second one went out. -/
def staleMarket : Market SimpleExecutor where
  client := ⟨4, 3, 1000, 1100, 4, 0⟩
  processed := [⟨.insertOrder 2 .buy 900 10 .goodForDay, .buy, 0⟩,
    ⟨.insertOrder 3 .sell 1100 10 .goodForDay, .sell, 0⟩, ⟨.cancelOrder 2, .buy, 0⟩,
    ⟨.insertOrder 4 .buy 1000 10 .goodForDay, .buy, 0⟩]
  inFlight := []
  exchange := ⟨Order.accept ⟨3, .sell, 1100, 10, .goodForDay⟩ ++
    Order.accept ⟨4, .buy, 1000, 10, .goodForDay⟩, 10⟩
  reports := [.onOrderStatusUpdate 2 10 0 3, .onPositionUpdate 0 10]
  delivered := []
  accepted := [(0, 0), (0, 0), (10, 0)]

theorem executor_position_bounded_stale :
    staleMarket.exchange.position + staleMarket.exchange.resting .buy ≤ 89 + 10 :=
  (executor_position_bounded [.act (900, 1100), .process 0, .process 0, .fill 0 10 3 0,
    .act (1000, 1100), .process 0, .process 0] staleMarket (by decide) (by decide) 10 (by decide)
    (by unfold Market.InformedWithin; decide)).1

end RtoAutotrader
