import RtoAutotrader.DeadQuotes
import RtoAutotrader.Trades

namespace RtoAutotrader

/-- A price that does not reach into a band: below it to buy at, above it to sell at. -/
structure Side.Clear (bid ask : Int) (side : Side) (price : Int) : Prop where
  buy : side = .buy → price ≤ bid
  sell : side = .sell → ask ≤ price

def Request.Clear (bid ask : Int) (r : Request) : Prop :=
  ∀ id side price volume lifespan, r.command = .insertOrder id side price volume lifespan →
    side.Clear bid ask price

namespace Market

variable {σ ι : Type}

/-- An order trades at its own price. -/
def trade? (m : Market σ) : Action ι → Option Trade
  | .fill k volume _ _ =>
    m.exchange.orders[k]?.map fun live => ⟨live.order.side, live.order.price, volume⟩
  | _ => none

/-- The trades of a run, in order. -/
def tradesFrom (client : Client σ ι) (m : Market σ) : List (Action ι) → List Trade
  | [] => []
  | action :: actions => (m.trade? action).toList ++
      (m.step client action).elim [] fun m' => m'.tradesFrom client actions

/-- No order, at the exchange or on its way there, reaches into a band of prices. -/
structure Clear (bid ask : Int) (m : Market σ) : Prop where
  flight : ∀ r ∈ m.inFlight, r.Clear bid ask
  orders : ∀ live ∈ m.exchange.orders, live.order.side.Clear bid ask live.order.price

variable {client : Client σ ι} {bid ask : Int} {m m' : Market σ}

theorem Clear.process (h : m.Clear bid ask) {r : Request} (hr : r.Clear bid ask) :
    ∀ live ∈ (m.exchange.process r.command).orders,
      live.order.side.Clear bid ask live.order.price := by
  intro live hlive
  cases hcommand : r.command with
  | cancelOrder id =>
    rw [hcommand] at hlive
    exact h.orders live (List.mem_of_mem_filter hlive)
  | insertOrder id side price volume lifespan =>
    rw [hcommand] at hlive
    rcases List.mem_append.mp hlive with hold | hnew
    · exact h.orders live hold
    · unfold Order.accept at hnew
      split at hnew
      next =>
        rw [List.mem_singleton.mp hnew]
        exact hr id side price volume lifespan hcommand
      next => cases hnew

theorem Clear.step {action : Action ι} (h : m.Clear bid ask)
    (hact : ∀ input, action = .act input → ∀ r ∈ (client.act m.client input).2, r.Clear bid ask)
    (hstep : m.step client action = some m') :
    m'.Clear bid ask ∧ (∀ t ∈ (m.trade? action).toList, t.Within bid ask) ∧
      m'.exchange.position = m.exchange.position + Trade.position (m.trade? action).toList := by
  have hstill : (∀ t ∈ (none : Option Trade).toList, t.Within bid ask) ∧
      m.exchange.position = m.exchange.position + Trade.position (none : Option Trade).toList :=
    ⟨by simp, (Int.add_zero _).symm⟩
  rcases step_cases hstep with ⟨input, rfl, rfl⟩ | ⟨fees, r, rest, rfl, hflight, rfl⟩ |
    ⟨k, volume, fees, future_position, live, exchange, rfl, hlive, hfill, rfl⟩ |
    ⟨future_position, rfl, rfl⟩ | ⟨k, report, rfl, hreport, rfl⟩
  · refine ⟨⟨?_, h.orders⟩, hstill⟩
    intro r hr
    rcases List.mem_append.mp hr with hold | hnew
    · exact h.flight r hold
    · exact hact input rfl r hnew
  · have hr : r ∈ m.inFlight := by
      rw [hflight]
      exact List.mem_cons_self
    have hrest : ∀ r' ∈ rest, r'.Clear bid ask := by
      intro r' hr'
      apply h.flight
      rw [hflight]
      exact List.mem_cons_of_mem r hr'
    exact ⟨⟨hrest, h.process (h.flight r hr)⟩, hstill.1,
      (m.exchange.process_position r.command).trans hstill.2⟩
  · obtain ⟨before, live', after, horders, hlive', hvolume, _, rfl⟩ := Exchange.fill_cases hfill
    obtain rfl : live = live' := Option.some.inj (hlive.symm.trans hlive')
    have hclear := h.orders live (List.mem_of_getElem? hlive)
    have htrade : m.trade? (Action.fill k volume fees future_position : Action ι) =
        some ⟨live.order.side, live.order.price, volume⟩ := by
      rw [trade?, hlive]
      rfl
    rw [htrade]
    refine ⟨⟨h.flight, ?_⟩, ?_, ?_⟩
    · intro other hother
      obtain ⟨old, hold, hsame⟩ := List.mem_map.mp
        ((Exchange.fill_book_sublist hfill).subset (List.mem_map_of_mem hother))
      rw [← hsame]
      exact h.orders old hold
    · intro t ht
      obtain rfl := List.mem_singleton.mp ht
      exact ⟨hvolume, hclear.buy, hclear.sell⟩
    · exact congrArg (m.exchange.position + ·) (Int.add_zero _).symm
  · exact ⟨⟨h.flight, h.orders⟩, hstill⟩
  · exact ⟨⟨h.flight, h.orders⟩, hstill⟩

end Market

variable {π : Type} [PricingModel π]

/-- The prices a model has after each of some books. -/
def theoPrices (model : π) : List OrderBookUpdate → List Int
  | [] => []
  | update :: updates =>
    PricingModel.calculateTheoPrice (PricingModel.onOrderBookUpdate model update) ::
      theoPrices (PricingModel.onOrderBookUpdate model update) updates

def Action.input? {ι : Type} : Action ι → Option ι
  | .act input => some input
  | _ => none

theorem AutoTrader.onOrderBookUpdate_clear {t : AutoTrader π SimpleExecutor}
    {update : OrderBookUpdate} {lo hi : Int} (hlo : FitsInt (lo - 100)) (hhi : FitsInt (hi + 100))
    (h : lo ≤ PricingModel.calculateTheoPrice
        (PricingModel.onOrderBookUpdate t.pricing_model_ update) ∧
      PricingModel.calculateTheoPrice
        (PricingModel.onOrderBookUpdate t.pricing_model_ update) ≤ hi) :
    ∀ r ∈ (t.onOrderBookUpdate update).2, r.Clear (hi - 100) (lo + 100) := by
  intro r hr id side price volume lifespan hcommand
  obtain ⟨_, rfl, _⟩ := (t.executor_.executeTrades_askedFor _ _ r hr).insert id side price
    volume lifespan hcommand
  generalize PricingModel.calculateTheoPrice
    (PricingModel.onOrderBookUpdate t.pricing_model_ update) = theo_price at h
  unfold FitsInt at hlo hhi
  have hbid : wrapInt (theo_price - 100) = theo_price - 100 :=
    wrapInt_of_fits (by unfold FitsInt; omega)
  have hask : wrapInt (theo_price + 100) = theo_price + 100 :=
    wrapInt_of_fits (by unfold FitsInt; omega)
  rw [hbid, hask]
  refine ⟨?_, ?_⟩
  · rintro rfl
    exact Int.sub_le_sub_right h.2 100
  · rintro rfl
    exact Int.add_le_add_right h.1 100

namespace Market

theorem trader_model {m m' : Market (AutoTrader π SimpleExecutor)} {action : Action OrderBookUpdate}
    (h : m.step traderClient action = some m') :
    m'.client.pricing_model_ = action.input?.elim m.client.pricing_model_
      (PricingModel.onOrderBookUpdate m.client.pricing_model_) := by
  rcases step_cases h with ⟨input, rfl, rfl⟩ | ⟨fees, r, rest, rfl, hflight, rfl⟩ |
    ⟨k, volume, fees, future_position, live, exchange, rfl, hlive, hfill, rfl⟩ |
    ⟨future_position, rfl, rfl⟩ | ⟨k, report, rfl, hreport, rfl⟩
  · rfl
  · rfl
  · rfl
  · rfl
  · cases report <;> rfl

/-- A step at prices in the range sends what is clear of it, and leaves prices in the range. -/
theorem priced_step {m m' : Market (AutoTrader π SimpleExecutor)} {lo hi : Int}
    (hlo : FitsInt (lo - 100)) (hhi : FitsInt (hi + 100)) {action : Action OrderBookUpdate}
    {actions : List (Action OrderBookUpdate)}
    (hprices : ∀ price ∈ theoPrices m.client.pricing_model_
      ((action :: actions).filterMap Action.input?), lo ≤ price ∧ price ≤ hi)
    (hstep : m.step traderClient action = some m') :
    (∀ input, action = .act input → ∀ r ∈ (traderClient.act m.client input).2,
        r.Clear (hi - 100) (lo + 100)) ∧
      ∀ price ∈ theoPrices m'.client.pricing_model_ (actions.filterMap Action.input?),
        lo ≤ price ∧ price ≤ hi := by
  have hmodel := trader_model hstep
  cases hinput : action.input? with
  | none =>
    rw [List.filterMap_cons_none hinput] at hprices
    rw [hinput] at hmodel
    refine ⟨?_, ?_⟩
    · rintro input rfl
      cases hinput
    · rw [hmodel]
      exact hprices
  | some update =>
    rw [List.filterMap_cons_some hinput] at hprices
    rw [hinput] at hmodel
    refine ⟨?_, ?_⟩
    · rintro input rfl
      obtain rfl : input = update := Option.some.inj hinput
      exact AutoTrader.onOrderBookUpdate_clear hlo hhi (hprices _ List.mem_cons_self)
    · rw [hmodel]
      exact fun price hprice => hprices price (List.mem_cons_of_mem _ hprice)

theorem trades_within {m m' : Market (AutoTrader π SimpleExecutor)} {lo hi : Int}
    (hlo : FitsInt (lo - 100)) (hhi : FitsInt (hi + 100)) (h : m.Clear (hi - 100) (lo + 100))
    {actions : List (Action OrderBookUpdate)}
    (hprices : ∀ price ∈ theoPrices m.client.pricing_model_ (actions.filterMap Action.input?),
      lo ≤ price ∧ price ≤ hi)
    (hrun : playFrom (step traderClient) m actions = some m') :
    (∀ t ∈ m.tradesFrom traderClient actions, t.Within (hi - 100) (lo + 100)) ∧
      m'.exchange.position =
        m.exchange.position + Trade.position (m.tradesFrom traderClient actions) := by
  induction actions generalizing m with
  | nil =>
    cases hrun
    exact ⟨by simp [tradesFrom], (Int.add_zero _).symm⟩
  | cons action actions ih =>
    obtain ⟨middle, hstep, hlater⟩ := Option.bind_eq_some_iff.mp hrun
    obtain ⟨hsent, hrest⟩ := priced_step hlo hhi hprices hstep
    obtain ⟨hclear, htrade, hposition⟩ := h.step hsent hstep
    obtain ⟨htrades, hlast⟩ := ih hclear hrest hlater
    have hsplit : m.tradesFrom traderClient (action :: actions) =
        (m.trade? action).toList ++ middle.tradesFrom traderClient actions := by
      rw [tradesFrom, hstep]
      rfl
    rw [hsplit]
    refine ⟨?_, ?_⟩
    · intro t ht
      rcases List.mem_append.mp ht with hfirst | hlater
      · exact htrade t hfirst
      · exact htrades t hlater
    · rw [hlast, hposition, Trade.position_append, Int.add_assoc]

/-- The trades of a run of a new trader. -/
def tradesOf (model : π) (actions : List (Action OrderBookUpdate)) : List Trade :=
  (Market.start (newTrader model)).tradesFrom traderClient actions

end Market

/-- Whatever trades, in any run in which the theoretical price stays between two bounds: at any
valuation each lot bought is worth it less the upper bound and 100 more, each lot sold the lower
bound less it and 100 more. At a price that does not move that is 100 a lot. -/
theorem trades_keep_edge (model : π) (actions : List (Action OrderBookUpdate))
    (m : Market (AutoTrader π SimpleExecutor))
    (hrun : Market.run traderClient (newTrader model) actions = some m) (lo hi : Int)
    (hlo : FitsInt (lo - 100)) (hhi : FitsInt (hi + 100))
    (hprices : ∀ price ∈ theoPrices model (actions.filterMap Action.input?),
      lo ≤ price ∧ price ≤ hi) :
    m.exchange.position = Trade.position (Market.tradesOf model actions) ∧ ∀ value : Int,
      (value - (hi - 100)) * Trade.volumeOn .buy (Market.tradesOf model actions) +
          (lo + 100 - value) * Trade.volumeOn .sell (Market.tradesOf model actions) ≤
        value * m.exchange.position + Trade.balance (Market.tradesOf model actions) := by
  have hclear : (Market.start (newTrader model)).Clear (hi - 100) (lo + 100) :=
    ⟨by simp [Market.start], by simp [Market.start, Exchange.start]⟩
  obtain ⟨htrades, hposition⟩ := Market.trades_within hlo hhi hclear hprices hrun
  have hlots : m.exchange.position = Trade.position (Market.tradesOf model actions) :=
    hposition.trans (Int.zero_add _)
  refine ⟨hlots, ?_⟩
  intro value
  rw [hlots]
  exact Trade.wealth htrades value

/-- A book, both orders it leads to, and a trade of each: the first in two parts. -/
def bothTraded : List (Action OrderBookUpdate) :=
  [.act ⟨.future, 1, [1100], [5], [1000], [5]⟩, .process 0, .process 0, .fill 0 4 0 0,
    .fill 0 6 0 0, .fill 0 10 0 0]

def bothTradedMarket? : Option (Market (AutoTrader FutureMidpoint SimpleExecutor)) :=
  Market.run traderClient (newTrader FutureMidpoint.start) bothTraded

theorem bothTradedMarket_exists : bothTradedMarket?.isSome := by decide

theorem bothTraded_edge : 100 * 10 + 100 * 10 ≤
    1000 * (bothTradedMarket?.get bothTradedMarket_exists).exchange.position +
      Trade.balance (Market.tradesOf FutureMidpoint.start bothTraded) :=
  (trades_keep_edge FutureMidpoint.start bothTraded (bothTradedMarket?.get bothTradedMarket_exists)
    (Option.some_get bothTradedMarket_exists).symm 1000 1000 (by decide) (by decide)
    (by decide)).2 1000

end RtoAutotrader
