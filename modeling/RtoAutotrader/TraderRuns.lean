import RtoAutotrader.AutoTrader
import RtoAutotrader.ExecutorRuns

namespace RtoAutotrader

namespace AutoTrader

variable {π : Type} [PricingModel π]

theorem handle_tracks {t : AutoTrader π SimpleExecutor} {log : List Request}
    (h : t.executor_.TracksWithin log) (c : Callback) :
    (t.handle c).1.executor_.TracksWithin (log ++ (t.handle c).2) := by
  cases c with
  | onOrderBookUpdate update => exact h.executeTrades _ _
  | onOrderStatusUpdate id fill_volume remaining_volume fees =>
    simpa only [handle, onOrderStatusUpdate, List.append_nil] using h
  | onPositionUpdate future_position etf_position =>
    exact h.call (.onPositionUpdate future_position etf_position)

theorem run_tracks {t : AutoTrader π SimpleExecutor} (h : t.executor_ = .start)
    (callbacks : List Callback) :
    (runFrom handle t callbacks).1.executor_.TracksWithin (runFrom handle t callbacks).2 := by
  have hstart : t.executor_.TracksWithin [] := by
    rw [h]
    exact fun _ => SimpleExecutor.tracks_start
  exact runFrom_holds (I := fun (t : AutoTrader π SimpleExecutor) log =>
    t.executor_.TracksWithin log) hstart fun _ _ c _ hold => handle_tracks hold c

theorem handle_limited (t : AutoTrader π SimpleExecutor) (c : Callback) :
    ∀ r ∈ (t.handle c).2, r.Limited := by
  cases c with
  | onOrderBookUpdate update => exact t.executor_.executeTrades_limited _ _
  | onOrderStatusUpdate id fill_volume remaining_volume fees => simp [handle]
  | onPositionUpdate future_position etf_position => simp [handle]

end AutoTrader

def OrderBookUpdate.TwoSided (update : OrderBookUpdate) : Prop :=
  update.instrument = .future ∧ update.ask_prices ≠ [] ∧ update.bid_prices ≠ []

instance (update : OrderBookUpdate) : Decidable update.TwoSided :=
  inferInstanceAs (Decidable (_ ∧ _ ∧ _))

def OrderBookUpdate.midpoint (update : OrderBookUpdate) : Int :=
  ((wrapInt (update.ask_prices.getD 0 0 + update.bid_prices.getD 0 0)).tdiv 2).tdiv 100 * 100

theorem FutureMidpoint.onOrderBookUpdate_eq (m : FutureMidpoint) (update : OrderBookUpdate) :
    m.onOrderBookUpdate update = if update.TwoSided then ⟨update.midpoint⟩ else m := by
  unfold FutureMidpoint.onOrderBookUpdate
  split
  next h =>
    rw [if_neg]
    rintro ⟨hfuture, hask, hbid⟩
    simp [hfuture, hask, hbid] at h
  next h =>
    simp only [not_or, not_not, List.length_eq_zero_iff] at h
    rw [if_pos ⟨h.1, h.2.1, h.2.2⟩]
    rfl

theorem OrderBookUpdate.midpoint_range (update : OrderBookUpdate) :
    100 ∣ update.midpoint ∧ -1073741800 ≤ update.midpoint ∧ update.midpoint ≤ 1073741800 := by
  have hfits := wrapInt_fits (update.ask_prices.getD 0 0 + update.bid_prices.getD 0 0)
  unfold OrderBookUpdate.midpoint
  generalize wrapInt (update.ask_prices.getD 0 0 + update.bid_prices.getD 0 0) = total at hfits
  have hhundredths : ((total.tdiv 2).tdiv 100).natAbs = total.natAbs / 2 / 100 := by
    rw [Int.natAbs_tdiv, Int.natAbs_tdiv]
    rfl
  unfold FitsInt at hfits
  refine ⟨Int.dvd_mul_left _ _, ?_⟩
  omega

theorem theo_price_range (callbacks : List Callback) :
    100 ∣ (runFrom AutoTrader.handle mainTrader callbacks).1.pricing_model_.theo_price_ ∧
      -1073741800 ≤ (runFrom AutoTrader.handle mainTrader callbacks).1.pricing_model_.theo_price_ ∧
      (runFrom AutoTrader.handle mainTrader callbacks).1.pricing_model_.theo_price_ ≤
        1073741800 := by
  refine runFrom_holds (I := fun (t : AutoTrader FutureMidpoint SimpleExecutor) _ =>
    100 ∣ t.pricing_model_.theo_price_ ∧ -1073741800 ≤ t.pricing_model_.theo_price_ ∧
      t.pricing_model_.theo_price_ ≤ 1073741800) (by decide) ?_
  intro t log c _ hold
  cases c with
  | onOrderBookUpdate update =>
    have hmodel : (t.handle (.onOrderBookUpdate update)).1.pricing_model_ =
        t.pricing_model_.onOrderBookUpdate update := rfl
    rw [hmodel, FutureMidpoint.onOrderBookUpdate_eq]
    split_ifs
    · exact update.midpoint_range
    · exact hold
  | onOrderStatusUpdate id fill_volume remaining_volume fees => exact hold
  | onPositionUpdate future_position etf_position => exact hold

end RtoAutotrader
