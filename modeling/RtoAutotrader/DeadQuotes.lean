import Mathlib.Tactic.IntervalCases
import RtoAutotrader.Settlement
import RtoAutotrader.TraderRuns

namespace RtoAutotrader

variable {π : Type} [PricingModel π]

def traderClient : Client (AutoTrader π SimpleExecutor) OrderBookUpdate where
  act := AutoTrader.onOrderBookUpdate
  receive
    | t, .onOrderBookUpdate _ => t
    | t, .onOrderStatusUpdate id fill_volume remaining_volume fees =>
      t.onOrderStatusUpdate id fill_volume remaining_volume fees
    | t, .onPositionUpdate future_position etf_position =>
      t.onPositionUpdate future_position etf_position

theorem traderClient_hosts : Hosts (traderClient (π := π)) AutoTrader.executor_ where
  act _ _ := ⟨_, _, rfl, rfl⟩
  receive _ c := by
    cases c with
    | onOrderBookUpdate update => exact Or.inl rfl
    | onOrderStatusUpdate id fill_volume remaining_volume fees => exact Or.inl rfl
    | onPositionUpdate future_position etf_position =>
      exact Or.inr ⟨future_position, etf_position, rfl⟩

/-- A trader built as in `main`, with any pricing model. -/
def newTrader (model : π) : AutoTrader π SimpleExecutor := ⟨NAME, SECRET, model, .start⟩

namespace AutoTrader

/-- The price a trader asks its executor for when it is given a book. -/
def askedPrice (t : AutoTrader π SimpleExecutor) (update : OrderBookUpdate) (side : Side) : Int :=
  SimpleExecutor.asked
    (wrapInt (PricingModel.calculateTheoPrice
      (PricingModel.onOrderBookUpdate t.pricing_model_ update) - 100))
    (wrapInt (PricingModel.calculateTheoPrice
      (PricingModel.onOrderBookUpdate t.pricing_model_ update) + 100)) side

theorem asked_askedPrice (t : AutoTrader π SimpleExecutor) (update : OrderBookUpdate) (side : Side) :
    SimpleExecutor.asked (t.askedPrice update .buy) (t.askedPrice update .sell) side =
      t.askedPrice update side := by
  cases side <;> rfl

end AutoTrader

namespace Market

/-- What the exchange holds when the trader has been given a book and all that it sent
is applied. -/
def afterBook (m : Market (AutoTrader π SimpleExecutor)) (update : OrderBookUpdate) : Exchange :=
  m.exchange.settled (m.inFlight ++ (m.client.onOrderBookUpdate update).2)

/-- A book, given to the trader when it has heard everything, leaves one live order at the
price asked for on each side that may have one, and no order known to be done is cancelled. -/
structure QuotesLive (m : Market (AutoTrader π SimpleExecutor)) (update : OrderBookUpdate) :
    Prop where
  live : m.reports = [] → ∀ side, m.client.executor_.MayInsert side →
    ∃ live, ((m.afterBook update).orders.filter fun live => live.order.side = side) = [live] ∧
      live.order.price = m.client.askedPrice update side
  cancels : ∀ r ∈ (m.client.onOrderBookUpdate update).2, ∀ id, r.command = .cancelOrder id →
    id ∉ doneIds m.delivered

/-- A side whose recorded order is known to be done is asked for its old price again, and
at a time when it may not insert or reports are still to come. -/
def DoneQuotesUntouched (m : Market (AutoTrader π SimpleExecutor)) (update : OrderBookUpdate) :
    Prop :=
  ∀ side, m.client.executor_.id_ side ≠ 0 → m.client.executor_.id_ side ∈ doneIds m.delivered →
    m.client.executor_.price_ side = m.client.askedPrice update side ∧
      (¬ m.client.executor_.MayInsert side ∨ m.reports ≠ [])

theorem filter_order {orders : List LiveOrder} (side : Side) :
    (orders.filter fun live => live.order.side = side).map LiveOrder.order =
      ordersOn side (orders.map LiveOrder.order) := by
  simp [ordersOn, List.filter_map, Function.comp_def]

theorem exists_single_iff {orders : List LiveOrder} {side : Side} {price : Int} :
    (∃ live, (orders.filter fun live => live.order.side = side) = [live] ∧
      live.order.price = price) ↔
    ∃ order, ordersOn side (orders.map LiveOrder.order) = [order] ∧ order.price = price := by
  rw [← filter_order]
  constructor
  · rintro ⟨live, hlive, hprice⟩
    exact ⟨live.order, by rw [hlive]; rfl, hprice⟩
  · rintro ⟨order, horder, hprice⟩
    obtain ⟨live, hlive, rfl⟩ := List.map_eq_singleton_iff.mp horder
    exact ⟨live, hlive, hprice⟩

variable {m : Market (AutoTrader π SimpleExecutor)}

/-- A side that may have an order gets a live one unless a done order is kept for it. -/
theorem live_iff (h : m.Consistent AutoTrader.executor_) (update : OrderBookUpdate)
    (hlimit : (inserted (m.sent ++ (m.client.onOrderBookUpdate update).2)).length ≤ INSERT_LIMIT)
    {side : Side} (hmay : m.client.executor_.MayInsert side) :
    (∃ live, ((m.afterBook update).orders.filter fun live => live.order.side = side) = [live] ∧
      live.order.price = m.client.askedPrice update side) ↔
    ¬ (m.client.executor_.id_ side ≠ 0 ∧
      m.client.executor_.price_ side = m.client.askedPrice update side ∧
      m.client.executor_.id_ side ∈ m.done) := by
  have hcounting : m.client.executor_.Counting := h.tracks.counting
    (Nat.le_trans (inserted_length_mono (List.prefix_append _ _)) hlimit)
  have htracks := SimpleExecutor.TracksWithin.executeTrades (fun _ => h.tracks)
    (m.client.askedPrice update .buy) (m.client.askedPrice update .sell) hlimit
  have hside := SimpleExecutor.executeTrades_side hcounting (m.client.askedPrice update .buy)
    (m.client.askedPrice update .sell) side
  have hid := hside.1.mpr (Or.inl hmay)
  have hdone := h.quote_done_iff (show m.client.executor_.executeTrades
    (m.client.askedPrice update .buy) (m.client.askedPrice update .sell) = _ from rfl) hlimit hid
  have hbook : ordersOn side (m.afterBook update).book = _ :=
    h.settled_side htracks (SimpleExecutor.executeTrades_limited _ _ _) side
  rw [AutoTrader.asked_askedPrice] at hdone hside
  rw [exists_single_iff, ← hdone]
  simp only [Exchange.book] at hbook
  rw [hbook, SimpleExecutor.quote, if_neg hid, hside.2 hid]
  by_cases hgone : (m.client.executor_.executeTrades (m.client.askedPrice update .buy)
    (m.client.askedPrice update .sell)).1.id_ side ∈ m.done
  · simp [hgone]
  · simp [hgone]

theorem cancels_iff (m : Market (AutoTrader π SimpleExecutor)) (update : OrderBookUpdate) :
    (∀ r ∈ (m.client.onOrderBookUpdate update).2, ∀ id, r.command = .cancelOrder id →
      id ∉ doneIds m.delivered) ↔
    ∀ side, m.client.executor_.id_ side ≠ 0 →
      m.client.executor_.id_ side ∈ doneIds m.delivered →
      m.client.executor_.price_ side = m.client.askedPrice update side := by
  have hcancels := fun id => m.client.executor_.executeTrades_cancels
    (m.client.askedPrice update .buy) (m.client.askedPrice update .sell) id
  constructor
  · intro hnone side hid hdone
    by_contra hstale
    obtain ⟨r, hr, hcommand⟩ := (hcancels (m.client.executor_.id_ side)).mpr
      ⟨side, rfl, hid, by rw [AutoTrader.asked_askedPrice]; exact hstale⟩
    exact hnone r hr _ hcommand hdone
  · intro hkept r hr id hcommand hdone
    obtain ⟨side, rfl, hid, hstale⟩ := (hcancels id).mp ⟨r, hr, hcommand⟩
    rw [AutoTrader.asked_askedPrice] at hstale
    exact hstale (hkept side hid hdone)

/-- One book is answered well if and only if quotes known to be done are left alone. -/
theorem quotesLive_iff (h : m.Consistent AutoTrader.executor_) (update : OrderBookUpdate)
    (hlimit : (inserted (m.sent ++ (m.client.onOrderBookUpdate update).2)).length ≤ INSERT_LIMIT) :
    m.QuotesLive update ↔ m.DoneQuotesUntouched update := by
  have hheard : m.reports = [] → m.done = doneIds m.delivered := by
    intro hreports
    simp [done, hreports]
  constructor
  · intro hlive side hid hdone
    have hprice := (cancels_iff m update).mp hlive.cancels side hid hdone
    refine ⟨hprice, ?_⟩
    by_contra hdead
    simp only [not_or, not_not] at hdead
    have hsingle := (live_iff h update hlimit hdead.1).mp (hlive.live hdead.2 side hdead.1)
    rw [hheard hdead.2] at hsingle
    exact hsingle ⟨hid, hprice, hdone⟩
  · intro huntouched
    refine ⟨?_, (cancels_iff m update).mpr fun side hid hdone => (huntouched side hid hdone).1⟩
    intro hreports side hmay
    apply (live_iff h update hlimit hmay).mpr
    rintro ⟨hid, _, hdone⟩
    rw [hheard hreports] at hdone
    rcases (huntouched side hid hdone).2 with hfull | hpending
    · exact hfull hmay
    · exact hpending hreports

end Market

/-- A property of a trader's market and the book it is given, at every book of a run. -/
def AtEveryBook (model : π) (actions : List (Action OrderBookUpdate))
    (P : Market (AutoTrader π SimpleExecutor) → OrderBookUpdate → Prop) : Prop :=
  ∀ earlier update later m, actions = earlier ++ .act update :: later →
    Market.run traderClient (newTrader model) earlier = some m → P m update

/-- A run has no dead quotes if and only if none of its books meets a quote known to be
done, but where nothing is expected of it. -/
theorem no_dead_quotes_iff (model : π) (actions : List (Action OrderBookUpdate))
    (final : Market (AutoTrader π SimpleExecutor))
    (hrun : Market.run traderClient (newTrader model) actions = some final)
    (hlimit : (inserted final.sent).length ≤ INSERT_LIMIT) :
    AtEveryBook model actions Market.QuotesLive ↔
      AtEveryBook model actions Market.DoneQuotesUntouched := by
  have hcall : ∀ earlier update later m, actions = earlier ++ .act update :: later →
      Market.run traderClient (newTrader model) earlier = some m →
      (m.QuotesLive update ↔ m.DoneQuotesUntouched update) := by
    intro earlier update later m hsplit hearlier
    rw [hsplit] at hrun
    have hcallLimit := Nat.le_trans
      (inserted_length_mono (Market.run_act_sent hearlier hrun)) hlimit
    have hearlierLimit := Nat.le_trans
      (inserted_length_mono (List.prefix_append m.sent _)) hcallLimit
    have hconsistent : m.Consistent AutoTrader.executor_ :=
      Market.run_consistent traderClient_hosts rfl hearlier hearlierLimit
    exact Market.quotesLive_iff hconsistent update hcallLimit
  constructor
  · intro hlive earlier update later m hsplit hearlier
    exact (hcall earlier update later m hsplit hearlier).mp (hlive earlier update later m hsplit hearlier)
  · intro huntouched earlier update later m hsplit hearlier
    exact (hcall earlier update later m hsplit hearlier).mpr
      (huntouched earlier update later m hsplit hearlier)

/-- A market in which the first bid has been filled and the trader has heard of it. -/
def filledMarket : Market (AutoTrader FutureMidpoint SimpleExecutor) where
  client := ⟨NAME, SECRET, ⟨1000⟩, ⟨2, 3, 900, 1100, 3, 10⟩⟩
  processed := [⟨.insertOrder 2 .buy 900 10 .goodForDay, .buy, 0⟩,
    ⟨.insertOrder 3 .sell 1100 10 .goodForDay, .sell, 0⟩]
  inFlight := []
  exchange := ⟨Order.accept ⟨3, .sell, 1100, 10, .goodForDay⟩, 10⟩
  reports := []
  delivered := [.onOrderStatusUpdate 2 10 0 0, .onPositionUpdate 0 10]
  accepted := [(0, 0), (0, 0)]

theorem atEveryBook_of_take {model : π} {actions : List (Action OrderBookUpdate)}
    {P : Market (AutoTrader π SimpleExecutor) → OrderBookUpdate → Prop}
    (h : ∀ n update m, actions[n]? = some (.act update) →
      Market.run traderClient (newTrader model) (actions.take n) = some m → P m update) :
    AtEveryBook model actions P := by
  rintro earlier update later m rfl hearlier
  refine h earlier.length update m (by simp) ?_
  rw [List.take_left' rfl]
  exact hearlier

/-- The run to `filledMarket` with the book a second time, when the trader has heard of the fill
but not of its position. -/
theorem no_dead_quotes_iff_filled :
    AtEveryBook FutureMidpoint.start
      [.act ⟨.future, 1, [1050], [5], [950], [5]⟩, .process 0, .process 0, .fill 0 10 0 0,
        .deliver 0, .act ⟨.future, 2, [1050], [5], [950], [5]⟩, .deliver 0] Market.QuotesLive := by
  apply (no_dead_quotes_iff FutureMidpoint.start _ filledMarket (by decide) (by decide)).mpr
  apply atEveryBook_of_take
  intro n update m hat hearlier
  have hn := (List.getElem?_eq_some_iff.mp hat).1
  simp only [List.length_cons, List.length_nil] at hn
  interval_cases n <;> cases hat
  · cases hearlier
    intro side hid
    exact absurd (by cases side <;> rfl) hid
  · have hpending : m = { filledMarket with
        client := ⟨NAME, SECRET, ⟨1000⟩, ⟨2, 3, 900, 1100, 3, 0⟩⟩
        reports := [.onPositionUpdate 0 10]
        delivered := [.onOrderStatusUpdate 2 10 0 0] } :=
      Option.some.inj (hearlier.symm.trans (by decide))
    rw [hpending]
    intro side _ _
    exact ⟨by cases side <;> decide, Or.inr (by decide)⟩

/-- The same book again: the bid is gone, and the trader does not replace it. -/
theorem filled_bid_not_replaced :
    (Market.run traderClient (newTrader FutureMidpoint.start)
      [.act ⟨.future, 1, [1050], [5], [950], [5]⟩, .process 0, .process 0, .fill 0 10 0 0,
        .deliver 0, .deliver 0, .act ⟨.future, 2, [1050], [5], [950], [5]⟩]).isSome ∧
    ¬ AtEveryBook FutureMidpoint.start
      [.act ⟨.future, 1, [1050], [5], [950], [5]⟩, .process 0, .process 0, .fill 0 10 0 0,
        .deliver 0, .deliver 0, .act ⟨.future, 2, [1050], [5], [950], [5]⟩] Market.QuotesLive := by
  refine ⟨by decide, ?_⟩
  intro hlive
  have hlast := hlive [.act ⟨.future, 1, [1050], [5], [950], [5]⟩, .process 0, .process 0,
    .fill 0 10 0 0, .deliver 0, .deliver 0] ⟨.future, 2, [1050], [5], [950], [5]⟩ [] filledMarket rfl
    (by decide)
  obtain ⟨live, hside, _⟩ := hlast.live rfl .buy (by decide)
  have hnone : ((filledMarket.afterBook ⟨.future, 2, [1050], [5], [950], [5]⟩).orders.filter
      fun live => live.order.side = .buy) = [] := by decide
  rw [hnone] at hside
  cases hside

end RtoAutotrader
