import RtoAutotrader.Transducer
import RtoAutotrader.Types

namespace RtoAutotrader

/-- A call on the `MarketLink`, with the quote side whose branch made it and the
`position_` it was made from. Neither of the two is sent. -/
structure Request where
  command : Command
  side : Side
  position : Int
  deriving DecidableEq, Repr

structure SimpleExecutor where
  bid_id_ : Int
  ask_id_ : Int
  bid_price_ : Int
  ask_price_ : Int
  order_id_ : Int
  position_ : Int
  deriving DecidableEq, Repr

namespace SimpleExecutor

/-- `SimpleExecutor()`: value-initialised but for the member initialiser of `order_id_`. -/
def start : SimpleExecutor := ⟨0, 0, 0, 0, 1, 0⟩

/-- Past the largest `int` the increment is undefined in the source; here it wraps. -/
def executeTrades (s : SimpleExecutor) (bid_price ask_price : Int) :
    SimpleExecutor × List Request :=
  let (s, bidCancels) :=
    if s.bid_id_ ≠ 0 ∧ bid_price ≠ s.bid_price_ then
      ({ s with bid_id_ := 0 }, [Request.mk (.cancelOrder s.bid_id_) .buy s.position_])
    else (s, [])
  let (s, askCancels) :=
    if s.ask_id_ ≠ 0 ∧ ask_price ≠ s.ask_price_ then
      ({ s with ask_id_ := 0 }, [Request.mk (.cancelOrder s.ask_id_) .sell s.position_])
    else (s, [])
  let (s, bidInserts) :=
    if s.bid_id_ = 0 ∧ s.position_ < 80 then
      let order_id := wrapInt (s.order_id_ + 1)
      ({ s with order_id_ := order_id, bid_id_ := order_id, bid_price_ := bid_price },
        [Request.mk (.insertOrder order_id .buy bid_price 10 .goodForDay) .buy s.position_])
    else (s, [])
  let (s, askInserts) :=
    if s.ask_id_ = 0 ∧ s.position_ > -80 then
      let order_id := wrapInt (s.order_id_ + 1)
      ({ s with order_id_ := order_id, ask_id_ := order_id, ask_price_ := ask_price },
        [Request.mk (.insertOrder order_id .sell ask_price 10 .goodForDay) .sell s.position_])
    else (s, [])
  (s, bidCancels ++ askCancels ++ bidInserts ++ askInserts)

def onPositionUpdate (s : SimpleExecutor) (_future_position etf_position : Int) :
    SimpleExecutor := { s with position_ := etf_position }

def id_ (s : SimpleExecutor) : Side → Int
  | .buy => s.bid_id_
  | .sell => s.ask_id_

def price_ (s : SimpleExecutor) : Side → Int
  | .buy => s.bid_price_
  | .sell => s.ask_price_

def MayInsert (s : SimpleExecutor) : Side → Prop
  | .buy => s.position_ < 80
  | .sell => s.position_ > -80

instance (s : SimpleExecutor) (side : Side) : Decidable (s.MayInsert side) :=
  match side with
  | .buy => inferInstanceAs (Decidable (s.position_ < 80))
  | .sell => inferInstanceAs (Decidable (s.position_ > -80))

def withQuote (s : SimpleExecutor) (id price : Int) : Side → SimpleExecutor
  | .buy => { s with bid_id_ := id, bid_price_ := price }
  | .sell => { s with ask_id_ := id, ask_price_ := price }

def nextId (s : SimpleExecutor) : Int := wrapInt (s.order_id_ + 1)

def counted (s : SimpleExecutor) : SimpleExecutor := { s with order_id_ := s.nextId }

def cancelRequest (s : SimpleExecutor) (side : Side) : Request :=
  ⟨.cancelOrder (s.id_ side), side, s.position_⟩

def insertRequest (s : SimpleExecutor) (side : Side) (price : Int) : Request :=
  ⟨.insertOrder s.nextId side price 10 .goodForDay, side, s.position_⟩

/-- The first two branches of `executeTrades`, for either side. -/
def cancelStale (side : Side) (price : Int) (s : SimpleExecutor) :
    SimpleExecutor × List Request :=
  if s.id_ side ≠ 0 ∧ price ≠ s.price_ side then
    (s.withQuote 0 (s.price_ side) side, [s.cancelRequest side])
  else (s, [])

/-- The last two branches of `executeTrades`, for either side. -/
def insertMissing (side : Side) (price : Int) (s : SimpleExecutor) :
    SimpleExecutor × List Request :=
  if s.id_ side = 0 ∧ s.MayInsert side then
    (s.counted.withQuote s.nextId price side, [s.insertRequest side price])
  else (s, [])

def cancels (bid_price ask_price : Int) : List (SimpleExecutor → SimpleExecutor × List Request) :=
  [cancelStale .buy bid_price, cancelStale .sell ask_price]

def inserts (bid_price ask_price : Int) : List (SimpleExecutor → SimpleExecutor × List Request) :=
  [insertMissing .buy bid_price, insertMissing .sell ask_price]

def branches (bid_price ask_price : Int) : List (SimpleExecutor → SimpleExecutor × List Request) :=
  cancels bid_price ask_price ++ inserts bid_price ask_price

theorem executeTrades_eq (s : SimpleExecutor) (bid_price ask_price : Int) :
    s.executeTrades bid_price ask_price =
      runFrom (fun s branch => branch s) s (branches bid_price ask_price) := by
  simp only [executeTrades, List.append_assoc, branches, cancels, inserts, List.cons_append,
    List.nil_append, runFrom_cons, runFrom_nil, List.append_nil]
  rfl

@[simp] theorem withQuote_id_same (s : SimpleExecutor) (id price : Int) (side : Side) :
    (s.withQuote id price side).id_ side = id := by
  cases side <;> rfl

@[simp] theorem withQuote_price_same (s : SimpleExecutor) (id price : Int) (side : Side) :
    (s.withQuote id price side).price_ side = price := by
  cases side <;> rfl

theorem withQuote_other (s : SimpleExecutor) (id price : Int) {side other : Side}
    (h : other ≠ side) : (s.withQuote id price side).id_ other = s.id_ other ∧
      (s.withQuote id price side).price_ other = s.price_ other := by
  cases side <;> cases other <;> simp_all [withQuote, id_, price_]

@[simp] theorem withQuote_order_id (s : SimpleExecutor) (id price : Int) (side : Side) :
    (s.withQuote id price side).order_id_ = s.order_id_ := by
  cases side <;> rfl

@[simp] theorem withQuote_position (s : SimpleExecutor) (id price : Int) (side : Side) :
    (s.withQuote id price side).position_ = s.position_ := by
  cases side <;> rfl

end SimpleExecutor

end RtoAutotrader
