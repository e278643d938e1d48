import RtoAutotrader.TraderRuns

namespace RtoAutotrader

def Callback.book? : Callback → Option OrderBookUpdate
  | .onOrderBookUpdate update => some update
  | _ => none

def books (callbacks : List Callback) : List OrderBookUpdate := callbacks.filterMap Callback.book?

def latestTwoSided (callbacks : List Callback) : Option OrderBookUpdate :=
  ((books callbacks).filter fun update => update.TwoSided).getLast?

/-- The midpoint of best ask and best bid, rounded down to a multiple of 100. -/
def OrderBookUpdate.roundedMidpoint (update : OrderBookUpdate) : Int :=
  (update.ask_prices.getD 0 0 + update.bid_prices.getD 0 0) / 200 * 100

/-- Positive prices of which an ask and a bid can be added as `int`s. -/
structure OrderBookUpdate.Plain (update : OrderBookUpdate) : Prop where
  asks : ∀ ask ∈ update.ask_prices, 0 < ask
  bids : ∀ bid ∈ update.bid_prices, 0 < bid
  sums : ∀ ask ∈ update.ask_prices, ∀ bid ∈ update.bid_prices, FitsInt (ask + bid)

/-- An insert is at the price that the most recent two-sided future book gives its side. -/
def QuoteBacked (history : List Callback) (r : Request) : Prop :=
  ∀ id side price volume lifespan, r.command = .insertOrder id side price volume lifespan →
    ∃ book, latestTwoSided history = some book ∧ price =
      SimpleExecutor.asked (book.roundedMidpoint - 100) (book.roundedMidpoint + 100) side

/-- Every insert of a run is backed by what had been received when it was sent. -/
def QuotesBacked (callbacks : List Callback) : Prop :=
  ∀ earlier c later, callbacks = earlier ++ c :: later →
    ∀ r ∈ ((runFrom AutoTrader.handle mainTrader earlier).1.handle c).2,
      QuoteBacked (earlier ++ [c]) r

def StartsTwoSided (callbacks : List Callback) : Prop :=
  ∀ update, (books callbacks).head? = some update → update.TwoSided

theorem books_append (first second : List Callback) :
    books (first ++ second) = books first ++ books second := by
  simp [books]

theorem latestTwoSided_concat (callbacks : List Callback) (c : Callback) :
    latestTwoSided (callbacks ++ [c]) =
      match c.book? with
      | some update => if update.TwoSided then some update else latestTwoSided callbacks
      | none => latestTwoSided callbacks := by
  unfold latestTwoSided
  rw [books_append, List.filter_append]
  cases hc : c.book? with
  | none => simp [books, hc]
  | some update =>
    by_cases htwo : update.TwoSided
    · simp [books, hc, htwo]
    · simp [books, hc, htwo]

theorem pricing_model_latest (callbacks : List Callback) :
    (runFrom AutoTrader.handle mainTrader callbacks).1.pricing_model_ =
      match latestTwoSided callbacks with
      | some update => ⟨update.midpoint⟩
      | none => FutureMidpoint.start := by
  induction callbacks using List.reverseRecOn with
  | nil => rfl
  | append_singleton callbacks c ih =>
    rw [runFrom_concat, latestTwoSided_concat]
    cases c with
    | onOrderStatusUpdate id fill_volume remaining_volume fees => exact ih
    | onPositionUpdate future_position etf_position => exact ih
    | onOrderBookUpdate update =>
      have hmodel : ((runFrom AutoTrader.handle mainTrader callbacks).1.handle
          (.onOrderBookUpdate update)).1.pricing_model_ =
          (runFrom AutoTrader.handle mainTrader callbacks).1.pricing_model_.onOrderBookUpdate
            update := rfl
      rw [hmodel, FutureMidpoint.onOrderBookUpdate_eq]
      simp only [Callback.book?]
      split_ifs
      · rfl
      · exact ih

theorem midpoint_bounds {update : OrderBookUpdate} (h : update.Plain) (htwo : update.TwoSided) :
    update.midpoint = update.roundedMidpoint ∧ 0 ≤ update.roundedMidpoint ∧
      update.roundedMidpoint ≤ 1073741800 := by
  obtain ⟨_, hasks, hbids⟩ := htwo
  obtain ⟨ask, asks, hask⟩ := List.exists_cons_of_ne_nil hasks
  obtain ⟨bid, bids, hbid⟩ := List.exists_cons_of_ne_nil hbids
  have haskPos := h.asks ask (by simp [hask])
  have hbidPos := h.bids bid (by simp [hbid])
  have hsum := h.sums ask (by simp [hask]) bid (by simp [hbid])
  simp only [OrderBookUpdate.midpoint, OrderBookUpdate.roundedMidpoint, hask, hbid,
    List.getD_cons_zero]
  rw [wrapInt_of_fits hsum, Int.tdiv_eq_ediv_of_nonneg (show 0 ≤ ask + bid by omega),
    Int.tdiv_eq_ediv_of_nonneg (by omega)]
  unfold FitsInt at hsum
  omega

theorem latestTwoSided_plain {callbacks : List Callback}
    (h : ∀ update ∈ books callbacks, update.Plain) {update : OrderBookUpdate}
    (hlatest : latestTwoSided callbacks = some update) : update.Plain ∧ update.TwoSided := by
  have hmem := List.mem_filter.mp (List.mem_of_getLast? hlatest)
  exact ⟨h update hmem.1, of_decide_eq_true hmem.2⟩

theorem latestTwoSided_exists {callbacks : List Callback} (h : StartsTwoSided callbacks)
    (hbook : books callbacks ≠ []) : ∃ update, latestTwoSided callbacks = some update := by
  obtain ⟨first, rest, hbooks⟩ := List.exists_cons_of_ne_nil hbook
  have htwo : first.TwoSided := h first (by rw [hbooks]; rfl)
  cases hlatest : latestTwoSided callbacks with
  | some update => exact ⟨update, rfl⟩
  | none =>
    have hnone := List.getLast?_eq_none_iff.mp hlatest
    have hfirst := List.filter_eq_nil_iff.mp hnone first (by rw [hbooks]; exact List.mem_cons_self)
    exact absurd (decide_eq_true htwo) hfirst

theorem onOrderBookUpdate_backed {earlier : List Callback} {update : OrderBookUpdate}
    (hplain : ∀ book ∈ books (earlier ++ [.onOrderBookUpdate update]), book.Plain)
    (hstarts : StartsTwoSided (earlier ++ [.onOrderBookUpdate update])) :
    ∀ r ∈ ((runFrom AutoTrader.handle mainTrader earlier).1.handle (.onOrderBookUpdate update)).2,
      QuoteBacked (earlier ++ [.onOrderBookUpdate update]) r := by
  intro r hr id side price volume lifespan hcommand
  obtain ⟨book, hlatest⟩ := latestTwoSided_exists hstarts (by simp [books, Callback.book?])
  refine ⟨book, hlatest, ?_⟩
  obtain ⟨hbook, htwo⟩ := latestTwoSided_plain hplain hlatest
  obtain ⟨hmidpoint, hlow, hhigh⟩ := midpoint_bounds hbook htwo
  have hmodel := pricing_model_latest (earlier ++ [.onOrderBookUpdate update])
  rw [hlatest, runFrom_concat] at hmodel
  have htheo : ((runFrom AutoTrader.handle mainTrader earlier).1.pricing_model_.onOrderBookUpdate
      update).theo_price_ = book.roundedMidpoint :=
    (congrArg FutureMidpoint.theo_price_ hmodel).trans hmidpoint
  have hinsert := (SimpleExecutor.executeTrades_askedFor _ _ _ r hr).insert id side price volume
    lifespan hcommand
  rw [hinsert.2.1]
  have hbid : wrapInt (book.roundedMidpoint - 100) = book.roundedMidpoint - 100 :=
    wrapInt_of_fits (by unfold FitsInt; omega)
  have hask : wrapInt (book.roundedMidpoint + 100) = book.roundedMidpoint + 100 :=
    wrapInt_of_fits (by unfold FitsInt; omega)
  rw [← hbid, ← hask, ← htheo]
  rfl

theorem no_quotes_before_books {callbacks : List Callback} (h : books callbacks = []) (side : Side) :
    (runFrom AutoTrader.handle mainTrader callbacks).1.executor_.id_ side = 0 := by
  induction callbacks using List.reverseRecOn with
  | nil => cases side <;> rfl
  | append_singleton callbacks c ih =>
    rw [books_append, List.append_eq_nil_iff] at h
    rw [runFrom_concat]
    cases c with
    | onOrderBookUpdate update => simp [books, Callback.book?] at h
    | onOrderStatusUpdate id fill_volume remaining_volume fees => exact ih h.1
    | onPositionUpdate future_position etf_position =>
      rw [← ih h.1]
      cases side <;> rfl

/-- Every insert is backed if and only if the first book has both sides of the future. -/
theorem quotesBacked_iff_startsTwoSided (callbacks : List Callback)
    (hplain : ∀ update ∈ books callbacks, update.Plain) :
    QuotesBacked callbacks ↔ StartsTwoSided callbacks := by
  constructor
  · intro hbacked update hfirst
    obtain ⟨rest, hbooks⟩ : ∃ rest, books callbacks = update :: rest := by
      cases hcase : books callbacks with
      | nil => simp [hcase] at hfirst
      | cons first rest => simp_all
    obtain ⟨earlier, c, later, hsplit, hnone, hbook, _⟩ := List.filterMap_eq_cons_iff.mp hbooks
    have hc : c = .onOrderBookUpdate update := by
      cases c <;> simp_all [Callback.book?]
    subst hc
    have hempty : books earlier = [] := List.filterMap_eq_nil_iff.mpr hnone
    obtain ⟨r, hr, id, side, price, volume, lifespan, hcommand⟩ :=
      SimpleExecutor.executeTrades_inserts (no_quotes_before_books hempty) _ _
    obtain ⟨book, hlatest, _⟩ := hbacked earlier _ later hsplit r hr id side price volume lifespan
      hcommand
    have hmem := List.mem_filter.mp (List.mem_of_getLast? hlatest)
    rw [books_append, hempty] at hmem
    have heq : book = update := by simpa [books, Callback.book?] using hmem.1
    rw [← heq]
    exact of_decide_eq_true hmem.2
  · intro hstarts earlier c later hsplit r hr
    cases c with
    | onOrderStatusUpdate id fill_volume remaining_volume fees => simp [AutoTrader.handle] at hr
    | onPositionUpdate future_position etf_position => simp [AutoTrader.handle] at hr
    | onOrderBookUpdate update =>
      have hbefore : callbacks = (earlier ++ [.onOrderBookUpdate update]) ++ later := by
        simpa using hsplit
      refine onOrderBookUpdate_backed ?_ ?_ r hr
      · intro book hbook
        apply hplain book
        rw [hbefore, books_append]
        exact List.mem_append_left _ hbook
      · intro first hfirst
        apply hstarts first
        rw [hbefore, books_append, List.head?_append, hfirst]
        rfl

/-- An ETF book alone makes the trader quote around the initial price 0. -/
theorem etf_book_first_unbacked :
    (∀ update ∈ books [.onOrderBookUpdate ⟨.etf, 1, [1100], [5], [1000], [5]⟩], update.Plain) ∧
      ¬ QuotesBacked [.onOrderBookUpdate ⟨.etf, 1, [1100], [5], [1000], [5]⟩] := by
  refine ⟨?_, ?_⟩
  · intro update hupdate
    rw [List.mem_singleton.mp hupdate]
    refine ⟨by decide, by decide, by decide⟩
  · intro hbacked
    obtain ⟨book, hlatest, _⟩ := hbacked [] _ [] rfl
      ⟨.insertOrder 2 .buy (-100) 10 .goodForDay, .buy, 0⟩ (by decide) 2 .buy (-100) 10
      .goodForDay rfl
    have hnone : latestTwoSided [.onOrderBookUpdate ⟨.etf, 1, [1100], [5], [1000], [5]⟩] = none := by
      decide
    rw [List.nil_append, hnone] at hlatest
    cases hlatest

/-- Two future books, with an ETF book between them. -/
theorem quotesBacked_iff_startsTwoSided_twice :
    QuotesBacked [.onOrderBookUpdate ⟨.future, 1, [1100], [5], [1000], [5]⟩,
        .onOrderBookUpdate ⟨.etf, 2, [7], [1], [], []⟩,
        .onOrderBookUpdate ⟨.future, 3, [1500], [5], [1400], [5]⟩] ↔
      StartsTwoSided [.onOrderBookUpdate ⟨.future, 1, [1100], [5], [1000], [5]⟩,
        .onOrderBookUpdate ⟨.etf, 2, [7], [1], [], []⟩,
        .onOrderBookUpdate ⟨.future, 3, [1500], [5], [1400], [5]⟩] := by
  apply quotesBacked_iff_startsTwoSided _
  intro update hupdate
  have hcases : update ∈ [⟨.future, 1, [1100], [5], [1000], [5]⟩, ⟨.etf, 2, [7], [1], [], []⟩,
      (⟨.future, 3, [1500], [5], [1400], [5]⟩ : OrderBookUpdate)] := hupdate
  simp only [List.mem_cons, List.not_mem_nil, or_false] at hcases
  rcases hcases with rfl | rfl | rfl
  · exact ⟨by decide, by decide, by decide⟩
  · exact ⟨by decide, by decide, by decide⟩
  · exact ⟨by decide, by decide, by decide⟩

end RtoAutotrader
