import RtoAutotrader.SimpleExecutor

namespace RtoAutotrader

class PricingModel (π : Type) where
  calculateTheoPrice : π → Int
  onOrderBookUpdate : π → OrderBookUpdate → π

class TradeExecutor (ε : Type) where
  executeTrades : ε → Int → Int → ε × List Request
  onPositionUpdate : ε → Int → Int → ε

instance : TradeExecutor SimpleExecutor where
  executeTrades := SimpleExecutor.executeTrades
  onPositionUpdate := SimpleExecutor.onPositionUpdate

structure FutureMidpoint where
  theo_price_ : Int
  deriving DecidableEq, Repr

namespace FutureMidpoint

/-- `FutureMidpoint()`: value-initialised. -/
def start : FutureMidpoint := ⟨0⟩

/-- The `int` sum wraps; `/` rounds towards zero. -/
def onOrderBookUpdate (m : FutureMidpoint) (update : OrderBookUpdate) : FutureMidpoint :=
  if update.instrument ≠ .future ∨ update.ask_prices.length = 0 ∨ update.bid_prices.length = 0 then m
  else
    { m with theo_price_ :=
        ((wrapInt (update.ask_prices.getD 0 0 + update.bid_prices.getD 0 0)).tdiv 2).tdiv 100 * 100 }

end FutureMidpoint

instance : PricingModel FutureMidpoint where
  calculateTheoPrice := FutureMidpoint.theo_price_
  onOrderBookUpdate := FutureMidpoint.onOrderBookUpdate

structure AutoTrader (π ε : Type) where
  name_ : List UInt8
  secret_ : List UInt8
  pricing_model_ : π
  executor_ : ε
  deriving DecidableEq, Repr

namespace AutoTrader

variable {π ε : Type} [PricingModel π] [TradeExecutor ε]

def onOrderBookUpdate (t : AutoTrader π ε) (update : OrderBookUpdate) :
    AutoTrader π ε × List Request :=
  let pricing_model := PricingModel.onOrderBookUpdate t.pricing_model_ update
  let theo_price := PricingModel.calculateTheoPrice pricing_model
  let traded := TradeExecutor.executeTrades t.executor_
    (wrapInt (theo_price - 100)) (wrapInt (theo_price + 100))
  ({ t with pricing_model_ := pricing_model, executor_ := traded.1 }, traded.2)

/-- The source leaves this to be done. -/
def onOrderStatusUpdate (t : AutoTrader π ε) (_id _fill_volume _remaining_volume _fees : Int) :
    AutoTrader π ε := t

def onPositionUpdate (t : AutoTrader π ε) (future_position etf_position : Int) : AutoTrader π ε :=
  { t with executor_ := TradeExecutor.onPositionUpdate t.executor_ future_position etf_position }

def handle (t : AutoTrader π ε) : Callback → AutoTrader π ε × List Request
  | .onOrderBookUpdate update => t.onOrderBookUpdate update
  | .onOrderStatusUpdate id fill_volume remaining_volume fees =>
    (t.onOrderStatusUpdate id fill_volume remaining_volume fees, [])
  | .onPositionUpdate future_position etf_position =>
    (t.onPositionUpdate future_position etf_position, [])

end AutoTrader

/-- `NAME` and `SECRET`, as bytes: "andy" and "password". -/
def NAME : List UInt8 := [97, 110, 100, 121]
def SECRET : List UInt8 := [112, 97, 115, 115, 119, 111, 114, 100]

/-- The trader `main` builds. -/
def mainTrader : AutoTrader FutureMidpoint SimpleExecutor :=
  ⟨NAME, SECRET, FutureMidpoint.start, SimpleExecutor.start⟩

end RtoAutotrader
