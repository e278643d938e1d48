import RtoAutotrader.Quoter
import RtoAutotrader.TraderRuns

namespace RtoAutotrader

/-- A request as a step of a side's quote. -/
def Request.quote? (side : Side) (r : Request) : Option (QuoteAction Int) :=
  if r.side = side then
    match r.command with
    | .insertOrder _ _ price _ _ => some (.place price)
    | .cancelOrder _ => some .withdraw
  else none

namespace SimpleExecutor

/-- The price of the order the executor believes it has on a side. -/
def held (s : SimpleExecutor) (side : Side) : Option Int :=
  if s.id_ side = 0 then none else some (s.price_ side)

theorem held_congr {s s' : SimpleExecutor} {side : Side}
    (h : s'.id_ side = s.id_ side ∧ s'.price_ side = s.price_ side) :
    s'.held side = s.held side := by
  unfold held
  rw [h.1, h.2]

theorem held_withQuote {id : Int} (h : id ≠ 0) (s : SimpleExecutor) (price : Int) (side : Side) :
    (s.withQuote id price side).held side = some price := by
  simp [held, h]

theorem cancelStale_quote (s : SimpleExecutor) (side : Side) (price : Int) :
    (cancelStale side price s).1.held side =
        (if s.held side = some price then some price else none) ∧
      (cancelStale side price s).2.filterMap (Request.quote? side) =
        if s.held side = some price ∨ s.held side = none then [] else [.withdraw] := by
  unfold cancelStale
  by_cases hid : s.id_ side = 0
  · simp [held, hid]
  · by_cases hprice : price = s.price_ side
    · simp [held, hid, hprice]
    · simp [held, hid, hprice, Ne.symm hprice, cancelRequest, Request.quote?]

theorem cancelStale_quote_other (s : SimpleExecutor) {side other : Side} (price : Int)
    (h : other ≠ side) : (cancelStale side price s).1.held other = s.held other ∧
      (cancelStale side price s).2.filterMap (Request.quote? other) = [] := by
  refine ⟨held_congr (cancelStale_other s price h), ?_⟩
  unfold cancelStale
  split_ifs
  · simp [cancelRequest, Request.quote?, h.symm]
  · rfl

theorem insertMissing_quote {s : SimpleExecutor} (hnext : s.nextId ≠ 0) (side : Side)
    (price : Int) :
    (insertMissing side price s).1.held side =
        (if s.held side = none ∧ s.MayInsert side then some price else s.held side) ∧
      (insertMissing side price s).2.filterMap (Request.quote? side) =
        if s.held side = none ∧ s.MayInsert side then [.place price] else [] := by
  have hheld : s.held side = none ↔ s.id_ side = 0 := by
    unfold held
    split_ifs with hid <;> simp [hid]
  unfold insertMissing
  simp only [hheld]
  split_ifs
  · exact ⟨held_withQuote hnext _ _ _, by simp [insertRequest, Request.quote?]⟩
  · exact ⟨rfl, rfl⟩

theorem insertMissing_quote_other (s : SimpleExecutor) {side other : Side} (price : Int)
    (h : other ≠ side) : (insertMissing side price s).1.held other = s.held other ∧
      (insertMissing side price s).2.filterMap (Request.quote? other) = [] := by
  refine ⟨held_congr (insertMissing_other s price h), ?_⟩
  unfold insertMissing
  split_ifs
  · simp [insertRequest, Request.quote?, h.symm]
  · rfl

theorem cancels_quote (s : SimpleExecutor) (bid_price ask_price : Int) (side : Side) :
    (runFrom (fun s branch => branch s) s (cancels bid_price ask_price)).1.held side =
        (if s.held side = some (asked bid_price ask_price side) then
          some (asked bid_price ask_price side) else none) ∧
      (runFrom (fun s branch => branch s) s (cancels bid_price ask_price)).2.filterMap
          (Request.quote? side) =
        if s.held side = some (asked bid_price ask_price side) ∨ s.held side = none then []
        else [.withdraw] := by
  simp only [cancels, runFrom_cons, runFrom_nil, List.append_nil, List.filterMap_append]
  cases side with
  | buy =>
    have hskip := cancelStale_quote_other (cancelStale .buy bid_price s).1 ask_price
      (show Side.buy ≠ .sell by decide)
    rw [hskip.1, hskip.2, List.append_nil]
    exact cancelStale_quote s .buy bid_price
  | sell =>
    have hskip := cancelStale_quote_other s bid_price (show Side.sell ≠ .buy by decide)
    have hcancel := cancelStale_quote (cancelStale .buy bid_price s).1 .sell ask_price
    rw [hskip.1] at hcancel
    rw [hskip.2, List.nil_append]
    exact hcancel

theorem inserts_quote {s : SimpleExecutor} (h : s.Counting) (bid_price ask_price : Int)
    (side : Side) :
    (runFrom (fun s branch => branch s) s (inserts bid_price ask_price)).1.held side =
        (if s.held side = none ∧ s.MayInsert side then some (asked bid_price ask_price side)
          else s.held side) ∧
      (runFrom (fun s branch => branch s) s (inserts bid_price ask_price)).2.filterMap
          (Request.quote? side) =
        if s.held side = none ∧ s.MayInsert side then [.place (asked bid_price ask_price side)]
        else [] := by
  simp only [inserts, runFrom_cons, runFrom_nil, List.append_nil, List.filterMap_append]
  cases side with
  | buy =>
    have hskip := insertMissing_quote_other (insertMissing .buy bid_price s).1 ask_price
      (show Side.buy ≠ .sell by decide)
    rw [hskip.1, hskip.2, List.append_nil]
    exact insertMissing_quote (nextId_ne_zero h) .buy bid_price
  | sell =>
    have hskip := insertMissing_quote_other s bid_price (show Side.sell ≠ .buy by decide)
    have hinsert := insertMissing_quote (insertMissing_nextId h .buy bid_price) .sell ask_price
    simp only [mayInsert_congr (insertMissing_position s .buy bid_price), hskip.1] at hinsert
    rw [hskip.2, List.nil_append]
    exact hinsert

/-- A call is one tick on each side, whatever the other side does. -/
theorem executeTrades_quote {s : SimpleExecutor} (h : s.Counting) (bid_price ask_price : Int)
    (side : Side) :
    Tick.quote (s.held side) ⟨asked bid_price ask_price side, decide (s.MayInsert side)⟩ =
      ((s.executeTrades bid_price ask_price).1.held side,
        (s.executeTrades bid_price ask_price).2.filterMap (Request.quote? side)) := by
  obtain ⟨hcancelHeld, hcancelSent⟩ := cancels_quote s bid_price ask_price side
  obtain ⟨hinsertHeld, hinsertSent⟩ :=
    inserts_quote (cancels_counting h bid_price ask_price) bid_price ask_price side
  simp only [mayInsert_congr (cancels_position s bid_price ask_price), hcancelHeld]
    at hinsertHeld hinsertSent
  rw [executeTrades_eq, branches, runFrom_append]
  simp only [List.filterMap_append, hcancelSent, hinsertHeld, hinsertSent, Tick.quote]
  by_cases hsame : s.held side = some (asked bid_price ask_price side)
  · simp [hsame]
  · by_cases hmay : s.MayInsert side
    · by_cases hnone : s.held side = none <;> simp [hsame, hmay, hnone]
    · by_cases hnone : s.held side = none <;> simp [hsame, hmay, hnone]

end SimpleExecutor

/-- What a trader sees at its books: the price its model then has, and its position. -/
def watch {π : Type} [PricingModel π] (w : π × Int) : Callback → (π × Int) × List (Int × Int)
  | .onOrderBookUpdate update =>
    ((PricingModel.onOrderBookUpdate w.1 update, w.2),
      [(PricingModel.calculateTheoPrice (PricingModel.onOrderBookUpdate w.1 update), w.2)])
  | .onOrderStatusUpdate _ _ _ _ => (w, [])
  | .onPositionUpdate _ etf_position => ((w.1, etf_position), [])

/-- The price to quote at on a side, and whether the position allows a new order. -/
def Side.tick : Side → Int × Int → Tick Int
  | .buy, (theo_price, position) => ⟨wrapInt (theo_price - 100), position < 80⟩
  | .sell, (theo_price, position) => ⟨wrapInt (theo_price + 100), position > -80⟩

theorem Side.tick_eq (side : Side) (theo_price : Int) (s : SimpleExecutor) :
    side.tick (theo_price, s.position_) =
      ⟨SimpleExecutor.asked (wrapInt (theo_price - 100)) (wrapInt (theo_price + 100)) side,
        decide (s.MayInsert side)⟩ := by
  cases side <;> rfl

namespace AutoTrader

variable {π : Type} [PricingModel π]

/-- What a side is to be quoted at, book by book. It depends on no order and on no other side. -/
def ticks (t : AutoTrader π SimpleExecutor) (side : Side) (callbacks : List Callback) :
    List (Tick Int) := (runFrom watch (t.pricing_model_, 0) callbacks).2.map side.tick

/-- A side of a trader's executor, driven by what the trader has seen. -/
theorem run_quote {t : AutoTrader π SimpleExecutor} (ht : t.executor_ = .start)
    (callbacks : List Callback)
    (hlimit : (inserted (runFrom handle t callbacks).2).length ≤ INSERT_LIMIT) (side : Side) :
    (runFrom watch (t.pricing_model_, 0) callbacks).1 =
        ((runFrom handle t callbacks).1.pricing_model_,
          (runFrom handle t callbacks).1.executor_.position_) ∧
      runFrom Tick.quote none (t.ticks side callbacks) =
        ((runFrom handle t callbacks).1.executor_.held side,
          (runFrom handle t callbacks).2.filterMap (Request.quote? side)) := by
  unfold ticks
  induction callbacks using List.reverseRecOn with
  | nil =>
    rw [runFrom_nil, runFrom_nil, ht]
    cases side <;> exact ⟨rfl, rfl⟩
  | append_singleton callbacks c ih =>
    have hbefore : (inserted (runFrom handle t callbacks).2).length ≤ INSERT_LIMIT :=
      Nat.le_trans (inserted_length_mono (runFrom_earlier _ _ _ _)) hlimit
    have hcounting := (run_tracks ht callbacks hbefore).counting hbefore
    obtain ⟨hseen, hquoted⟩ := ih hbefore
    rw [runFrom_concat, runFrom_concat, hseen, List.map_append, runFrom_append, hquoted]
    generalize (runFrom handle t callbacks).1 = t' at hcounting ⊢
    cases c with
    | onOrderBookUpdate update =>
      have hcall := SimpleExecutor.executeTrades_quote hcounting
        (wrapInt (PricingModel.calculateTheoPrice
          (PricingModel.onOrderBookUpdate t'.pricing_model_ update) - 100))
        (wrapInt (PricingModel.calculateTheoPrice
          (PricingModel.onOrderBookUpdate t'.pricing_model_ update) + 100)) side
      rw [← side.tick_eq] at hcall
      refine ⟨Prod.ext rfl (SimpleExecutor.executeTrades_position _ _ _).symm, ?_⟩
      simp only [watch, List.map_cons, List.map_nil, runFrom_cons, runFrom_nil, List.append_nil,
        hcall, List.filterMap_append]
      rfl
    | onOrderStatusUpdate id fill_volume remaining_volume fees =>
      simp [watch, handle, onOrderStatusUpdate]
    | onPositionUpdate future_position etf_position =>
      refine ⟨rfl, ?_⟩
      simp only [watch, handle, List.map_nil, runFrom_nil, List.append_nil]
      cases side <;> rfl

end AutoTrader

/-- A side's part of the log is, but for order ids and with a cancel of what is left at the end, one
insert and one cancel for each block of books at one price at which the position once allowed an
order. -/
theorem side_commands_in_blocks {π : Type} [PricingModel π] {t : AutoTrader π SimpleExecutor}
    (ht : t.executor_ = .start) (callbacks : List Callback)
    (hlimit : (inserted (runFrom AutoTrader.handle t callbacks).2).length ≤ INSERT_LIMIT)
    (side : Side) :
    (runFrom AutoTrader.handle t callbacks).2.filterMap (Request.quote? side) ++
        Tick.closing ((runFrom AutoTrader.handle t callbacks).1.executor_.held side) =
      (Tick.blocks (t.ticks side callbacks)).flatMap Tick.life := by
  have hquote := (AutoTrader.run_quote ht callbacks hlimit side).2
  have hblocks := (Tick.quote_blocks (t.ticks side callbacks)).1
  rw [hquote] at hblocks
  exact hblocks

/-- No choice of quotes, at the price asked for or none, with no new one where the position does
not allow it and always one where it does, is carried out in fewer commands on a side. -/
theorem side_commands_fewest {π : Type} [PricingModel π] {t : AutoTrader π SimpleExecutor}
    (ht : t.executor_ = .start) (callbacks : List Callback)
    (hlimit : (inserted (runFrom AutoTrader.handle t callbacks).2).length ≤ INSERT_LIMIT)
    (side : Side) :
    (∃ quotes, Tick.Held none (t.ticks side callbacks) quotes ∧
      Tick.moves none quotes =
        (runFrom AutoTrader.handle t callbacks).2.filterMap (Request.quote? side)) ∧
    ∀ quotes, Tick.Held none (t.ticks side callbacks) quotes →
      ((runFrom AutoTrader.handle t callbacks).2.filterMap (Request.quote? side)).length ≤
        (Tick.moves none quotes).length := by
  have hquote := (AutoTrader.run_quote ht callbacks hlimit side).2
  have hown := Tick.quote_held none (t.ticks side callbacks)
  rw [hquote] at hown
  refine ⟨hown, ?_⟩
  intro quotes hquotes
  have hfewest := Tick.quote_fewest (Or.inr rfl) hquotes
  rw [hquote] at hfewest
  exact hfewest

/-- The price moves while the position is past the buy limit, moves back, and an order is allowed
again at the second of two books at one price. -/
def limitedCallbacks : List Callback :=
  [.onOrderBookUpdate ⟨.future, 1, [1100], [5], [1000], [5]⟩, .onPositionUpdate 0 90,
    .onOrderBookUpdate ⟨.future, 2, [1300], [5], [1200], [5]⟩,
    .onOrderBookUpdate ⟨.future, 3, [1100], [5], [1000], [5]⟩, .onPositionUpdate 0 70,
    .onOrderBookUpdate ⟨.etf, 4, [], [], [], []⟩]

theorem limitedCallbacks_in_blocks :
    (runFrom AutoTrader.handle mainTrader limitedCallbacks).2.filterMap (Request.quote? .buy) ++
        Tick.closing ((runFrom AutoTrader.handle mainTrader limitedCallbacks).1.executor_.held .buy) =
      [.place 900, .withdraw, .place 900, .withdraw] :=
  side_commands_in_blocks rfl limitedCallbacks (by decide) .buy

/-- A rule that quotes nothing it need not sends as many commands here, not fewer. -/
theorem limitedCallbacks_fewest :
    ((runFrom AutoTrader.handle mainTrader limitedCallbacks).2.filterMap
      (Request.quote? .buy)).length ≤ 3 :=
  (side_commands_fewest rfl limitedCallbacks (by decide) .buy).2 [some 900, none, none, some 900]
    (.cons rfl (.cons (Or.inl rfl) (.cons (Or.inl rfl) (.cons rfl (.nil _)))))

end RtoAutotrader
