import RtoAutotrader.Words

namespace RtoAutotrader

inductive Instrument
  | future
  | etf
  deriving DecidableEq, Repr

inductive Side
  | sell
  | buy
  deriving DecidableEq, Repr

inductive Lifespan
  | fillAndKill
  | goodForDay
  deriving DecidableEq, Repr

def Side.code : Side → UInt8
  | .sell => 0
  | .buy => 1

def Lifespan.code : Lifespan → UInt8
  | .fillAndKill => 0
  | .goodForDay => 1

/-- The arguments of `onOrderBookUpdate`, as every layer passes them on. -/
structure OrderBookUpdate where
  instrument : Instrument
  sequence_no : Int
  ask_prices : List Int
  ask_volumes : List Int
  bid_prices : List Int
  bid_volumes : List Int
  deriving DecidableEq, Repr

/-- The calls `MarketLink` makes on the `AutoTrader`. -/
inductive Callback
  | onOrderBookUpdate (update : OrderBookUpdate)
  | onOrderStatusUpdate (id fill_volume remaining_volume fees : Int)
  | onPositionUpdate (future_position etf_position : Int)
  deriving DecidableEq, Repr

inductive Command
  | insertOrder (id : Int) (side : Side) (price volume : Int) (lifespan : Lifespan)
  | cancelOrder (id : Int)
  deriving DecidableEq, Repr

end RtoAutotrader
