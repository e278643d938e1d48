import RtoAutotrader.TraderRuns

namespace RtoAutotrader

/-- A book from which `FutureMidpoint` takes no price, or the price it has. -/
def OrderBookUpdate.Redundant (update : OrderBookUpdate) (theo_price : Int) : Prop :=
  ¬ update.TwoSided ∨ update.midpoint = theo_price

theorem FutureMidpoint.redundant_same {m : FutureMidpoint} {update : OrderBookUpdate}
    (h : update.Redundant m.theo_price_) : m.onOrderBookUpdate update = m := by
  rw [FutureMidpoint.onOrderBookUpdate_eq]
  split_ifs with htwo
  · rw [h.resolve_left (not_not_intro htwo)]
  · rfl

namespace AutoTrader

/-- A trader whose executor has nothing to do at the current price. -/
def Quoting (t : AutoTrader FutureMidpoint SimpleExecutor) : Prop :=
  t.executor_.Settled (wrapInt (t.pricing_model_.theo_price_ - 100))
    (wrapInt (t.pricing_model_.theo_price_ + 100))

theorem onOrderBookUpdate_quoting {t : AutoTrader FutureMidpoint SimpleExecutor}
    (h : t.executor_.Counting) (update : OrderBookUpdate) :
    (t.onOrderBookUpdate update).1.Quoting :=
  SimpleExecutor.executeTrades_settles h _ _

theorem redundant_ignored {t : AutoTrader FutureMidpoint SimpleExecutor} (h : t.Quoting)
    {update : OrderBookUpdate} (hredundant : update.Redundant t.pricing_model_.theo_price_) :
    t.onOrderBookUpdate update = (t, []) := by
  have hmodel : PricingModel.onOrderBookUpdate t.pricing_model_ update = t.pricing_model_ :=
    FutureMidpoint.redundant_same hredundant
  have htraded : TradeExecutor.executeTrades t.executor_
      (wrapInt (PricingModel.calculateTheoPrice t.pricing_model_ - 100))
      (wrapInt (PricingModel.calculateTheoPrice t.pricing_model_ + 100)) = (t.executor_, []) :=
    SimpleExecutor.executeTrades_settled h
  simp only [onOrderBookUpdate, hmodel, htraded]

end AutoTrader

/-- Books that carry no new price, inserted right after a book, change nothing. -/
theorem redundant_books_ignored (before after : List Callback) (update : OrderBookUpdate)
    (extra : List OrderBookUpdate)
    (hextra : ∀ book ∈ extra, book.Redundant (runFrom AutoTrader.handle mainTrader
      (before ++ [.onOrderBookUpdate update])).1.pricing_model_.theo_price_)
    (hlimit : (inserted (runFrom AutoTrader.handle mainTrader
      (before ++ [.onOrderBookUpdate update] ++ after)).2).length ≤ INSERT_LIMIT) :
    runFrom AutoTrader.handle mainTrader
        (before ++ [.onOrderBookUpdate update] ++ extra.map .onOrderBookUpdate ++ after) =
      runFrom AutoTrader.handle mainTrader (before ++ [.onOrderBookUpdate update] ++ after) := by
  have hbeforeLimit : (inserted (runFrom AutoTrader.handle mainTrader before).2).length ≤
      INSERT_LIMIT := by
    refine Nat.le_trans (inserted_length_mono ?_) hlimit
    rw [List.append_assoc]
    exact runFrom_earlier _ _ _ _
  have hcounting : (runFrom AutoTrader.handle mainTrader before).1.executor_.Counting :=
    (AutoTrader.run_tracks rfl before hbeforeLimit).counting hbeforeLimit
  have hquoting : (runFrom AutoTrader.handle mainTrader
      (before ++ [.onOrderBookUpdate update])).1.Quoting := by
    rw [runFrom_concat]
    exact AutoTrader.onOrderBookUpdate_quoting hcounting update
  generalize hfirst : before ++ [.onOrderBookUpdate update] = first at *
  have hfixed : runFrom AutoTrader.handle (runFrom AutoTrader.handle mainTrader first).1
      (extra.map .onOrderBookUpdate) = ((runFrom AutoTrader.handle mainTrader first).1, []) := by
    apply runFrom_fixed
    intro c hc
    obtain ⟨book, hbook, rfl⟩ := List.mem_map.mp hc
    exact AutoTrader.redundant_ignored hquoting (hextra book hbook)
  rw [List.append_assoc, runFrom_append, runFrom_append, runFrom_append, hfixed]
  simp

/-- A duplicate, an ETF book and a one-sided future book, with the position past a limit. -/
theorem redundant_books_ignored_past_limit :
    runFrom AutoTrader.handle mainTrader
        ([.onPositionUpdate 0 90] ++ [.onOrderBookUpdate ⟨.future, 1, [1100], [5], [1000], [5]⟩] ++
          [⟨.future, 1, [1100], [5], [1000], [5]⟩, ⟨.etf, 2, [7], [1], [3], [1]⟩,
            ⟨.future, 3, [], [], [900], [2]⟩].map .onOrderBookUpdate ++ [.onPositionUpdate 0 10]) =
      runFrom AutoTrader.handle mainTrader
        ([.onPositionUpdate 0 90] ++ [.onOrderBookUpdate ⟨.future, 1, [1100], [5], [1000], [5]⟩] ++
          [.onPositionUpdate 0 10]) := by
  refine redundant_books_ignored _ _ _ _ ?_ (by decide)
  intro book hbook
  simp only [List.mem_cons, List.not_mem_nil, or_false] at hbook
  rcases hbook with rfl | rfl | rfl
  · exact Or.inr (by decide)
  · exact Or.inl (by decide)
  · exact Or.inl (by decide)

end RtoAutotrader
