import RtoAutotrader.Exchange
import RtoAutotrader.TraderRuns

namespace RtoAutotrader

/-- All open orders are quotes around one multiple of 100. -/
def AtOneMid (log : List Request) : Prop :=
  ∃ mid, 100 ∣ mid ∧ ∀ order ∈ openOrders log,
    order.price = SimpleExecutor.asked (mid - 100) (mid + 100) order.side

/-- No live bid reaches a live ask, and every live price is a multiple of 100. -/
structure Uncrossed (orders : List LiveOrder) : Prop where
  apart : ∀ bid ∈ orders, ∀ ask ∈ orders, bid.order.side = .buy → ask.order.side = .sell →
    bid.order.price < ask.order.price
  ticks : ∀ live ∈ orders, 100 ∣ live.order.price

theorem AtOneMid.uncrossed {log : List Request} (h : AtOneMid log) {orders : List LiveOrder}
    (hlive : ∀ live ∈ orders, live.order ∈ openOrders log) : Uncrossed orders := by
  obtain ⟨mid, hmid, hprices⟩ := h
  constructor
  · intro bid hbid ask hask hbuy hsell
    have hlow := hprices bid.order (hlive bid hbid)
    have hhigh := hprices ask.order (hlive ask hask)
    rw [hbuy] at hlow
    rw [hsell] at hhigh
    simp only [SimpleExecutor.asked] at hlow hhigh
    omega
  · intro live hmem
    rw [hprices live.order (hlive live hmem)]
    cases live.order.side with
    | buy => exact Int.dvd_sub hmid (Int.dvd_refl 100)
    | sell => exact Int.dvd_add hmid (Int.dvd_refl 100)

namespace SimpleExecutor

/-- The executor agrees with a log in which all quotes were always around one midpoint,
and its present quotes are around the given one. -/
structure QuotesAround (mid : Int) (s : SimpleExecutor) (log : List Request) : Prop where
  tracks : s.Tracks log
  quotes : ∀ side, s.id_ side ≠ 0 → s.price_ side = asked (mid - 100) (mid + 100) side
  history : EveryPrefix AtOneMid log

theorem atOneMid_of_quotes {mid : Int} {s : SimpleExecutor} {log : List Request} (hmid : 100 ∣ mid)
    (htracks : s.Tracks log)
    (hquotes : ∀ side, s.id_ side ≠ 0 → s.price_ side = asked (mid - 100) (mid + 100) side) :
    AtOneMid log := by
  refine ⟨mid, hmid, ?_⟩
  intro order horder
  obtain ⟨hid, heq⟩ := mem_quote.mp (htracks.mem_openOrders.mp horder)
  rw [heq]
  exact hquotes order.side hid

theorem QuotesAround.extend {mid : Int} {s s' : SimpleExecutor} {log out : List Request}
    (h : QuotesAround mid s log) (hmid : 100 ∣ mid) (hshort : out.length ≤ 1)
    (htracks : s'.Tracks (log ++ out))
    (hquotes : ∀ side, s'.id_ side ≠ 0 → s'.price_ side = asked (mid - 100) (mid + 100) side) :
    QuotesAround mid s' (log ++ out) :=
  ⟨htracks, hquotes, h.history.short hshort (atOneMid_of_quotes hmid htracks hquotes)⟩

theorem QuotesAround.cancelStale {mid : Int} {s : SimpleExecutor} {log : List Request}
    (h : QuotesAround mid s log) (hmid : 100 ∣ mid) (side : Side) (price : Int) :
    QuotesAround mid (SimpleExecutor.cancelStale side price s).1
      (log ++ (SimpleExecutor.cancelStale side price s).2) := by
  refine h.extend hmid ?_ (h.tracks.cancelStale side price) ?_
  · unfold SimpleExecutor.cancelStale
    split_ifs <;> simp
  · intro other hid
    by_cases heq : other = side
    · subst heq
      have hkept := cancelStale_same s other price
      rw [hkept.2]
      exact h.quotes other (hkept.1.mp hid).1
    · have hother := cancelStale_other s price heq
      rw [hother.2]
      rw [hother.1] at hid
      exact h.quotes other hid

theorem QuotesAround.insertMissing {mid : Int} {s : SimpleExecutor} {log : List Request}
    (h : QuotesAround mid s log) (hmid : 100 ∣ mid) (side : Side)
    (hroom : (inserted (log ++ (SimpleExecutor.insertMissing side
      (asked (mid - 100) (mid + 100) side) s).2)).length ≤ INSERT_LIMIT) :
    QuotesAround mid (SimpleExecutor.insertMissing side (asked (mid - 100) (mid + 100) side) s).1
      (log ++ (SimpleExecutor.insertMissing side (asked (mid - 100) (mid + 100) side) s).2) := by
  have hcounting : s.Counting := h.tracks.counting
    (Nat.le_trans (inserted_length_mono (List.prefix_append _ _)) hroom)
  refine h.extend hmid ?_ (h.tracks.insertMissing side _ hroom) ?_
  · unfold SimpleExecutor.insertMissing
    split_ifs <;> simp
  · intro other hid
    by_cases heq : other = side
    · subst heq
      rcases (insertMissing_same s other _ (nextId_ne_zero hcounting)).2 hid with
        hnew | ⟨hold, hsame⟩
      · exact hnew
      · rw [hsame]
        exact h.quotes other hold
    · have hother := insertMissing_other s (asked (mid - 100) (mid + 100) side) heq
      rw [hother.2]
      rw [hother.1] at hid
      exact h.quotes other hid

theorem QuotesAround.cancels {old : Int} {s : SimpleExecutor} {log : List Request}
    (h : QuotesAround old s log) (hold : 100 ∣ old) (mid : Int) :
    QuotesAround mid
      (runFrom (fun s branch => branch s) s (SimpleExecutor.cancels (mid - 100) (mid + 100))).1
      (log ++ (runFrom (fun s branch => branch s) s
        (SimpleExecutor.cancels (mid - 100) (mid + 100))).2) := by
  have hrun : QuotesAround old
      (runFrom (fun s branch => branch s) s (SimpleExecutor.cancels (mid - 100) (mid + 100))).1
      (log ++ (runFrom (fun s branch => branch s) s
        (SimpleExecutor.cancels (mid - 100) (mid + 100))).2) := by
    apply runFrom_invariant h
    intro s log branch hbranch hstep
    simp only [SimpleExecutor.cancels, List.mem_cons, List.not_mem_nil, or_false] at hbranch
    rcases hbranch with rfl | rfl
    · exact hstep.cancelStale hold .buy _
    · exact hstep.cancelStale hold .sell _
  refine ⟨hrun.tracks, ?_, hrun.history⟩
  intro side hid
  have hkept := cancels_side s (mid - 100) (mid + 100) side
  rw [hkept.2]
  exact (hkept.1.mp hid).2

theorem QuotesAround.executeTrades {old mid : Int} {s : SimpleExecutor} {log : List Request}
    (h : QuotesAround old s log) (hold : 100 ∣ old) (hmid : 100 ∣ mid)
    (hlimit : (inserted (log ++ (s.executeTrades (mid - 100) (mid + 100)).2)).length ≤
      INSERT_LIMIT) :
    QuotesAround mid (s.executeTrades (mid - 100) (mid + 100)).1
      (log ++ (s.executeTrades (mid - 100) (mid + 100)).2) := by
  have hcancels := h.cancels hold mid
  rw [executeTrades_eq, branches, runFrom_append, ← List.append_assoc] at hlimit ⊢
  refine runFrom_invariant (I := fun s log => (inserted log).length ≤ INSERT_LIMIT →
    QuotesAround mid s log) (fun _ => hcancels) ?_ hlimit
  intro s log branch hbranch hstep hroom
  have hbefore := hstep (Nat.le_trans (inserted_length_mono (List.prefix_append _ _)) hroom)
  simp only [inserts, List.mem_cons, List.not_mem_nil, or_false] at hbranch
  rcases hbranch with rfl | rfl
  · exact hbefore.insertMissing hmid .buy hroom
  · exact hbefore.insertMissing hmid .sell hroom

theorem quotesAround_start : QuotesAround 0 start [] := by
  refine ⟨tracks_start, ?_, everyPrefix_nil ⟨0, Int.dvd_zero 100, ?_⟩⟩
  · intro side hid
    cases side <;> exact absurd rfl hid
  · intro order horder
    simp [openOrders, replay] at horder

end SimpleExecutor

theorem trader_quotesAround (callbacks : List Callback)
    (hlimit : (inserted (runFrom AutoTrader.handle mainTrader callbacks).2).length ≤
      INSERT_LIMIT) :
    ∃ mid, 100 ∣ mid ∧ SimpleExecutor.QuotesAround mid
      (runFrom AutoTrader.handle mainTrader callbacks).1.executor_
      (runFrom AutoTrader.handle mainTrader callbacks).2 := by
  induction callbacks using List.reverseRecOn with
  | nil => exact ⟨0, Int.dvd_zero 100, SimpleExecutor.quotesAround_start⟩
  | append_singleton callbacks c ih =>
    have hbefore := runFrom_earlier AutoTrader.handle mainTrader callbacks [c]
    obtain ⟨old, hold, haround⟩ := ih (Nat.le_trans (inserted_length_mono hbefore) hlimit)
    have hrange := theo_price_range (callbacks ++ [c])
    rw [runFrom_concat] at hlimit hrange ⊢
    cases c with
    | onOrderStatusUpdate id fill_volume remaining_volume fees =>
      refine ⟨old, hold, ?_⟩
      simpa only [AutoTrader.handle, AutoTrader.onOrderStatusUpdate, List.append_nil] using haround
    | onPositionUpdate future_position etf_position =>
      refine ⟨old, hold, ?_⟩
      simp only [AutoTrader.handle, AutoTrader.onPositionUpdate, List.append_nil]
      refine ⟨haround.tracks.onPositionUpdate _ _, ?_, haround.history⟩
      intro side hid
      cases side with
      | buy => exact haround.quotes .buy hid
      | sell => exact haround.quotes .sell hid
    | onOrderBookUpdate update =>
      generalize runFrom AutoTrader.handle mainTrader callbacks = run at *
      generalize hmid : (run.1.handle (.onOrderBookUpdate update)).1.pricing_model_.theo_price_ =
        mid at hrange
      have hhandle : ((run.1.handle (.onOrderBookUpdate update)).1.executor_,
          (run.1.handle (.onOrderBookUpdate update)).2) =
          run.1.executor_.executeTrades (mid - 100) (mid + 100) := by
        have hbid : wrapInt (mid - 100) = mid - 100 := wrapInt_of_fits (by unfold FitsInt; omega)
        have hask : wrapInt (mid + 100) = mid + 100 := wrapInt_of_fits (by unfold FitsInt; omega)
        rw [← hbid, ← hask, ← hmid]
        rfl
      obtain ⟨hexecutor, hout⟩ := Prod.mk.inj hhandle
      refine ⟨mid, hrange.1, ?_⟩
      rw [hout] at hlimit
      rw [hexecutor, hout]
      exact haround.executeTrades hold hrange.1 hlimit

theorem openOrders_of_commands {log : List Request} {commands : List Command}
    (h : commands = log.map Request.command) :
    replay Order.id (commands.map Command.entry) = openOrders log := by
  rw [h, openOrders, List.map_map]
  rfl

/-- After every command and every fill the live orders are uncrossed, and no quoted
price overflows. -/
theorem trader_never_crosses (callbacks : List Callback)
    (hlimit : (inserted (runFrom AutoTrader.handle mainTrader callbacks).2).length ≤
      INSERT_LIMIT) :
    (∀ events e, playFrom Exchange.step .start events = some e →
      Exchange.commands events <+:
        (runFrom AutoTrader.handle mainTrader callbacks).2.map Request.command →
      Uncrossed e.orders) ∧
    ∀ earlier later, callbacks = earlier ++ later →
      FitsInt ((runFrom AutoTrader.handle mainTrader earlier).1.pricing_model_.theo_price_ - 100) ∧
      FitsInt ((runFrom AutoTrader.handle mainTrader earlier).1.pricing_model_.theo_price_ + 100) := by
  constructor
  · intro events e hrun hsent
    obtain ⟨mid, hmid, haround⟩ := trader_quotesAround callbacks hlimit
    obtain ⟨applied, happlied, hcommands⟩ := List.prefix_map_iff.mp hsent
    apply (haround.history applied happlied).uncrossed
    intro live hlive
    have hsub := Exchange.run_book_sublist hrun ?_
    · rw [openOrders_of_commands hcommands] at hsub
      exact hsub.subset (List.mem_map_of_mem hlive)
    · intro id side price volume lifespan hmem
      obtain ⟨r, hr, hcommand⟩ := List.mem_map.mp (hsent.subset hmem)
      have hlimited := runFrom_outputs AutoTrader.handle_limited _ _ r hr id side price volume
        lifespan hcommand
      omega
  · intro earlier later _
    have hrange := theo_price_range earlier
    unfold FitsInt
    omega

/-- The price jumps by 500 when the old ask has traded in part: the exchange after the first
cancel and after the last insert. -/
theorem trader_never_crosses_on_jump :
    Uncrossed [⟨⟨3, .sell, 1100, 10, .goodForDay⟩, 6, by decide, by decide⟩] ∧
    Uncrossed [⟨⟨4, .buy, 1400, 10, .goodForDay⟩, 10, by decide, by decide⟩,
      ⟨⟨5, .sell, 1600, 10, .goodForDay⟩, 10, by decide, by decide⟩] := by
  have hlimit : (inserted (runFrom AutoTrader.handle mainTrader
      [.onOrderBookUpdate ⟨.future, 1, [1050], [5], [950], [5]⟩,
        .onOrderBookUpdate ⟨.future, 2, [1550], [5], [1450], [5]⟩]).2).length ≤ INSERT_LIMIT := by
    decide
  have huncrossed := (trader_never_crosses _ hlimit).1
  constructor
  · exact huncrossed [.processed (.insertOrder 2 .buy 900 10 .goodForDay),
      .processed (.insertOrder 3 .sell 1100 10 .goodForDay), .filled 1 4,
      .processed (.cancelOrder 2)]
      ⟨[⟨⟨3, .sell, 1100, 10, .goodForDay⟩, 6, by decide, by decide⟩], -4⟩ (by decide) (by decide)
  · exact huncrossed [.processed (.insertOrder 2 .buy 900 10 .goodForDay),
      .processed (.insertOrder 3 .sell 1100 10 .goodForDay), .filled 1 4,
      .processed (.cancelOrder 2), .processed (.cancelOrder 3),
      .processed (.insertOrder 4 .buy 1400 10 .goodForDay),
      .processed (.insertOrder 5 .sell 1600 10 .goodForDay)]
      ⟨[⟨⟨4, .buy, 1400, 10, .goodForDay⟩, 10, by decide, by decide⟩,
        ⟨⟨5, .sell, 1600, 10, .goodForDay⟩, 10, by decide, by decide⟩], -4⟩ (by decide) (by decide)

end RtoAutotrader
