import RtoAutotrader.Messages
import RtoAutotrader.Stream

namespace RtoAutotrader

def htons (x : Nat) : List UInt8 := networkBytes 2 x

def MarketLink.cancelOrder (order_id : Int) : List UInt8 :=
  let msg := Message.zero
  let msg := msg.write 0 (htons CANCEL_MESSAGE_SIZE)
  let msg := msg.write 2 [CANCEL_MESSAGE_TYPE]
  let msg := msg.write 3 (htonl order_id)
  msg.bytes.take CANCEL_MESSAGE_SIZE

def MarketLink.insertOrder (id : Int) (side : Side) (price volume : Int) (lifespan : Lifespan) : List UInt8 :=
  let msg := Message.zero
  let msg := msg.write 0 (htons INSERT_MESSAGE_SIZE)
  let msg := msg.write 2 [INSERT_MESSAGE_TYPE]
  let msg := msg.write 3 (htonl id)
  let msg := msg.write 7 [side.code]
  let msg := msg.write 8 (htonl price)
  let msg := msg.write 12 (htonl volume)
  let msg := msg.write 16 [lifespan.code]
  msg.bytes.take INSERT_MESSAGE_SIZE

def Command.bytes : Command → List UInt8
  | .insertOrder id side price volume lifespan => MarketLink.insertOrder id side price volume lifespan
  | .cancelOrder id => MarketLink.cancelOrder id

def Command.Fits : Command → Prop
  | .insertOrder id _ price volume _ => FitsInt id ∧ FitsInt price ∧ FitsInt volume
  | .cancelOrder id => FitsInt id

theorem htonl_four (x : Int) : ∃ a b c d, htonl x = [a, b, c, d] := ⟨_, _, _, _, rfl⟩

theorem cancelOrder_eq (id : Int) :
    MarketLink.cancelOrder id = htons CANCEL_MESSAGE_SIZE ++ CANCEL_MESSAGE_TYPE :: htonl id := by
  obtain ⟨a, b, c, d, hid⟩ := htonl_four id
  simp only [MarketLink.cancelOrder, hid]
  rfl

theorem insertOrder_eq (id : Int) (side : Side) (price volume : Int) (lifespan : Lifespan) :
    MarketLink.insertOrder id side price volume lifespan = htons INSERT_MESSAGE_SIZE ++
      INSERT_MESSAGE_TYPE :: (htonl id ++ side.code :: (htonl price ++
        (htonl volume ++ [lifespan.code]))) := by
  obtain ⟨a, b, c, d, hid⟩ := htonl_four id
  obtain ⟨e, f, g, h, hprice⟩ := htonl_four price
  obtain ⟨i, j, k, l, hvolume⟩ := htonl_four volume
  simp only [MarketLink.insertOrder, hid, hprice, hvolume]
  rfl

theorem Command.bytes_length (command : Command) :
    command.bytes.length = networkValue (command.bytes.take 2) := by
  cases command with
  | insertOrder id side price volume lifespan =>
    simp only [Command.bytes, insertOrder_eq]
    simp [htons, INSERT_MESSAGE_SIZE, networkBytes, networkValue]
  | cancelOrder id =>
    simp only [Command.bytes, cancelOrder_eq]
    simp [htons, CANCEL_MESSAGE_SIZE, networkBytes, networkValue]

theorem Command.bytes_ne_nil (command : Command) : command.bytes ≠ [] := by
  cases command with
  | insertOrder => simp [Command.bytes, insertOrder_eq]
  | cancelOrder => simp [Command.bytes, cancelOrder_eq]

end RtoAutotrader
