import RtoAutotrader.BookRoundTrip
import RtoAutotrader.TraderRuns

namespace RtoAutotrader

/-- The first non-zero word of a group, unsigned as it stands on the wire. -/
def Message.best? (msg : Message UInt8) (group : Nat) : Option Int :=
  (msg.words group).find? fun word => word ≠ 0

/-- A price that is the midpoint rounded down to a multiple of 100, quotes around it that
straddle the market, and `int`s all the way there. -/
structure ExactMidpoint (ask bid theo_price : Int) : Prop where
  converts : FitsInt ask ∧ FitsInt bid
  sums : FitsInt (ask + bid)
  rounded : theo_price = 100 * ((ask + bid) / 200)
  nearest : 2 * theo_price ≤ ask + bid ∧ ask + bid < 2 * (theo_price + 100)
  straddles : theo_price - 100 < ask ∧ bid < theo_price + 100
  quotes : FitsInt (theo_price - 100) ∧ FitsInt (theo_price + 100)

theorem kept_best {words : List Int} {best : Int}
    (h : (words.find? fun word => word ≠ 0) = some best) : ∃ rest, kept words = wrapInt best :: rest := by
  rw [← List.head?_filter] at h
  obtain ⟨rest, hrest⟩ := List.head?_eq_some_iff.mp h
  exact ⟨rest.map wrapInt, by rw [kept, hrest, List.map_cons]⟩

theorem wrapInt_add (x y : Int) : wrapInt (wrapInt x + wrapInt y) = wrapInt (x + y) := by
  unfold wrapInt
  omega

theorem tdiv_rounds_down {total : Int} (h : 0 ≤ total) :
    (total.tdiv 2).tdiv 100 * 100 = 100 * (total / 200) := by
  rw [Int.tdiv_eq_ediv_of_nonneg h, Int.tdiv_eq_ediv_of_nonneg (by omega)]
  omega

theorem tdiv_negative {total : Int} (h : total < 0) : (total.tdiv 2).tdiv 100 * 100 ≤ 0 := by
  obtain ⟨size, rfl⟩ : ∃ size, total = -size := ⟨-total, by omega⟩
  rw [Int.neg_tdiv, Int.neg_tdiv, Int.neg_mul, tdiv_rounds_down (by omega)]
  omega

namespace Message

variable {msg : Message UInt8} {ask bid : Int}

theorem best?_unsigned {group : Nat} {best : Int} (h : msg.best? group = some best) :
    0 < best ∧ best < 4294967296 := by
  have hmem := List.mem_of_find?_eq_some h
  have hnonzero : best ≠ 0 := by simpa using List.find?_some h
  obtain ⟨level, _, rfl⟩ := List.mem_map.mp hmem
  have hrange := msg.word_unsigned (5 * group + level)
  omega

theorem book_midpoint (hask : msg.best? 0 = some ask) (hbid : msg.best? 2 = some bid) :
    msg.book.midpoint = ((wrapInt (ask + bid)).tdiv 2).tdiv 100 * 100 := by
  obtain ⟨asks, hasks⟩ := kept_best hask
  obtain ⟨bids, hbids⟩ := kept_best hbid
  simp only [OrderBookUpdate.midpoint, book, hasks, hbids, List.getD_cons_zero, wrapInt_add]

theorem book_twoSided (hfuture : msg.instrument = .future) (hask : msg.best? 0 = some ask)
    (hbid : msg.best? 2 = some bid) : msg.book.TwoSided := by
  obtain ⟨asks, hasks⟩ := kept_best hask
  obtain ⟨bids, hbids⟩ := kept_best hbid
  refine ⟨hfuture, ?_, ?_⟩
  · simp only [book, hasks]
    exact List.cons_ne_nil _ _
  · simp only [book, hbids]
    exact List.cons_ne_nil _ _

/-- The rounded midpoint comes out exact if and only if the sum is an `int`. -/
theorem midpoint_exact_iff (hask : msg.best? 0 = some ask) (hbid : msg.best? 2 = some bid) :
    msg.book.midpoint = 100 * ((ask + bid) / 200) ↔ ask + bid < 2147483648 := by
  have haskRange := best?_unsigned hask
  have hbidRange := best?_unsigned hbid
  have hrange := msg.book.midpoint_range
  rw [book_midpoint hask hbid] at hrange ⊢
  constructor
  · intro h
    by_contra hlarge
    -- below 2^32 the sum wraps to a negative one, from there on it is too large for any price
    by_cases hwraps : ask + bid < 4294967296
    · have hnegative := tdiv_negative (show wrapInt (ask + bid) < 0 by unfold wrapInt; omega)
      omega
    · omega
  · intro h
    rw [wrapInt_of_fits ⟨by omega, h⟩, tdiv_rounds_down (by omega)]

end Message

theorem handle_theo_price (t : AutoTrader FutureMidpoint SimpleExecutor) {msg : Message UInt8}
    (h : msg.book.TwoSided) :
    (t.handle (handleOrderBookUpdate msg)).1.pricing_model_.theo_price_ = msg.book.midpoint := by
  have hmodel : (t.handle (.onOrderBookUpdate msg.book)).1.pricing_model_ =
      t.pricing_model_.onOrderBookUpdate msg.book := rfl
  rw [handleOrderBookUpdate_eq, hmodel, FutureMidpoint.onOrderBookUpdate_eq, if_pos h]

/-- What a trader asks of its executor is the midpoint of a two-sided book, 100 either way. -/
theorem handle_quotes (t : AutoTrader FutureMidpoint SimpleExecutor) {msg : Message UInt8}
    (h : msg.book.TwoSided) :
    ((t.handle (handleOrderBookUpdate msg)).1.executor_, (t.handle (handleOrderBookUpdate msg)).2) =
      t.executor_.executeTrades (msg.book.midpoint - 100) (msg.book.midpoint + 100) := by
  have hrange := msg.book.midpoint_range
  have htraded : ((t.handle (.onOrderBookUpdate msg.book)).1.executor_,
      (t.handle (.onOrderBookUpdate msg.book)).2) = t.executor_.executeTrades
        (wrapInt ((t.pricing_model_.onOrderBookUpdate msg.book).theo_price_ - 100))
        (wrapInt ((t.pricing_model_.onOrderBookUpdate msg.book).theo_price_ + 100)) := rfl
  have hbid : FitsInt (msg.book.midpoint - 100) := ⟨by omega, by omega⟩
  have hask : FitsInt (msg.book.midpoint + 100) := ⟨by omega, by omega⟩
  rw [handleOrderBookUpdate_eq, htraded, FutureMidpoint.onOrderBookUpdate_eq, if_pos h,
    wrapInt_of_fits hbid, wrapInt_of_fits hask]

/-- The theoretical price of a future book is exact, and every step to it and to the quotes
an `int`, if and only if the sum of best ask and best bid is below 2^31. -/
theorem theo_price_exact_iff (t : AutoTrader FutureMidpoint SimpleExecutor) (msg : Message UInt8)
    (ask bid : Int) (hfuture : msg.instrument = .future) (hask : msg.best? 0 = some ask)
    (hbid : msg.best? 2 = some bid) (hpositive : 0 < bid) (hordered : bid ≤ ask) :
    (ExactMidpoint ask bid (t.handle (handleOrderBookUpdate msg)).1.pricing_model_.theo_price_ ↔
        ask + bid < 2147483648) ∧
      ((t.handle (handleOrderBookUpdate msg)).1.pricing_model_.theo_price_ =
          100 * ((ask + bid) / 200) ↔ ask + bid < 2147483648) ∧
      ((t.handle (handleOrderBookUpdate msg)).1.executor_,
          (t.handle (handleOrderBookUpdate msg)).2) = t.executor_.executeTrades
        ((t.handle (handleOrderBookUpdate msg)).1.pricing_model_.theo_price_ - 100)
        ((t.handle (handleOrderBookUpdate msg)).1.pricing_model_.theo_price_ + 100) := by
  have htwo := Message.book_twoSided hfuture hask hbid
  have hexact := Message.midpoint_exact_iff hask hbid
  rw [handle_theo_price t htwo]
  refine ⟨⟨fun h => hexact.mp h.rounded, ?_⟩, hexact, handle_quotes t htwo⟩
  intro hsum
  have hrounded := hexact.mpr hsum
  have hconverts : FitsInt ask ∧ FitsInt bid := by
    unfold FitsInt
    omega
  have hquotes : FitsInt (msg.book.midpoint - 100) ∧ FitsInt (msg.book.midpoint + 100) := by
    unfold FitsInt
    omega
  exact ⟨hconverts, ⟨by omega, hsum⟩, hrounded, ⟨by omega, by omega⟩, ⟨by omega, by omega⟩, hquotes⟩

theorem OrderBook.frame_best (book : OrderBook) {index : Nat} {best : Listed} {rest : List Listed}
    (h : book.groups[index]? = some (best :: rest)) :
    book.frame.message.best? index = some best.val := by
  have hpositive := best.2
  have hnonzero : best.val ≠ 0 := by omega
  rw [Message.best?, book.frame_words h]
  exact List.find?_cons_of_pos (by simpa using hnonzero)

/-- A future book with one level on each side, both at the same price. -/
def lockedBook (sequence_no : UInt32) (price : Listed) : OrderBook where
  instrument := .future
  sequence_no := sequence_no
  asks := [⟨price, ⟨1, by decide⟩⟩]
  bids := [⟨price, ⟨1, by decide⟩⟩]
  asks_fit := Nat.le_add_left 1 4
  bids_fit := Nat.le_add_left 1 4

section LockedBook

variable (sequence_no : UInt32) (price : Listed)

theorem lockedBook_type :
    (lockedBook sequence_no price).frame.message.type = ORDER_BOOK_UPDATE_MESSAGE_TYPE :=
  (lockedBook sequence_no price).frame.typed

theorem lockedBook_future : (lockedBook sequence_no price).frame.message.instrument = .future :=
  congrArg OrderBookUpdate.instrument (lockedBook sequence_no price).frame_book

theorem lockedBook_ask : (lockedBook sequence_no price).frame.message.best? 0 = some price.val :=
  (lockedBook sequence_no price).frame_best rfl

theorem lockedBook_bid : (lockedBook sequence_no price).frame.message.best? 2 = some price.val :=
  (lockedBook sequence_no price).frame_best rfl

theorem lockedBook_twoSided : (lockedBook sequence_no price).frame.message.book.TwoSided :=
  Message.book_twoSided (lockedBook_future _ _) (lockedBook_ask _ _) (lockedBook_bid _ _)

theorem lockedBook_midpoint (h : price.val < 1073741824) :
    (lockedBook sequence_no price).frame.message.book.midpoint = 100 * (price.val / 100) := by
  have hexact := (Message.midpoint_exact_iff (lockedBook_ask sequence_no price)
    (lockedBook_bid sequence_no price)).mpr (by omega)
  rw [hexact]
  omega

end LockedBook

theorem theo_price_exact_at_limit : ExactMidpoint 1073741823 1073741823
    (mainTrader.handle (handleOrderBookUpdate (lockedBook 1 ⟨1073741823, by decide⟩).frame.message)
      ).1.pricing_model_.theo_price_ :=
  (theo_price_exact_iff mainTrader _ 1073741823 1073741823 (lockedBook_future _ _)
    (lockedBook_ask _ _) (lockedBook_bid _ _) (by decide) (by decide)).1.mpr (by decide)

/-- Best ask and best bid 2^30: the sum wraps and the price is negative. -/
theorem theo_price_negative : ¬∀ (t : AutoTrader FutureMidpoint SimpleExecutor)
    (msg : Message UInt8) (ask bid : Int), msg.type = ORDER_BOOK_UPDATE_MESSAGE_TYPE →
      msg.instrument = .future → msg.best? 0 = some ask → msg.best? 2 = some bid → 0 < bid →
      bid ≤ ask →
      ExactMidpoint ask bid (t.handle (handleOrderBookUpdate msg)).1.pricing_model_.theo_price_ := by
  intro h
  let price : Listed := ⟨1073741824, by decide⟩
  have hexact := (h mainTrader _ price price (lockedBook_type 1 price)
    (lockedBook_future 1 price) (lockedBook_ask 1 price) (lockedBook_bid 1 price) (by decide)
    (by decide)).rounded
  rw [handle_theo_price mainTrader (lockedBook_twoSided 1 price),
    Message.midpoint_exact_iff (lockedBook_ask 1 price) (lockedBook_bid 1 price)] at hexact
  revert hexact
  decide

end RtoAutotrader
