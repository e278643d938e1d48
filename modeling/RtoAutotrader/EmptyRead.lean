import RtoAutotrader.MarketLink
import RtoAutotrader.RedundantBooks

namespace RtoAutotrader

/-- What a `read` returns at the end of a stream. -/
def nothing : Chunk := ⟨[], Nat.zero_le _⟩

theorem field_of_drop {msg msg' : Message UInt8} (h : msg.bytes.drop 2 = msg'.bytes.drop 2)
    {offset : Nat} (width : Nat) (h2 : 2 ≤ offset) : msg.field offset width = msg'.field offset width := by
  obtain ⟨rest, rfl⟩ := Nat.exists_eq_add_of_le h2
  have hdrop : msg.bytes.drop (2 + rest) = msg'.bytes.drop (2 + rest) := by
    rw [← List.drop_drop, h, List.drop_drop]
  rw [Message.field, hdrop, Message.field]

theorem getD_of_drop {msg msg' : Message UInt8} (h : msg.bytes.drop 2 = msg'.bytes.drop 2)
    {offset : Nat} (h2 : 2 ≤ offset) : msg.bytes.getD offset 0 = msg'.bytes.getD offset 0 := by
  obtain ⟨rest, rfl⟩ := Nat.exists_eq_add_of_le h2
  rw [List.getD_eq_getElem?_getD, List.getD_eq_getElem?_getD, ← List.getElem?_drop, h,
    List.getElem?_drop]

/-- `runLoop` never looks at the size. -/
theorem dispatch_of_drop {msg msg' : Message UInt8} (h : msg.bytes.drop 2 = msg'.bytes.drop 2) :
    dispatch msg = dispatch msg' := by
  have hfield : ∀ {offset : Nat}, 2 ≤ offset → msg.field offset 4 = msg'.field offset 4 :=
    fun h2 => field_of_drop h 4 h2
  have htype : msg.type = msg'.type := getD_of_drop h (Nat.le_refl 2)
  have hpass : orderBookPass msg = orderBookPass msg' := by
    funext book i
    simp only [orderBookPass, hfield (show 2 ≤ 8 + 4 * i by omega)]
  have hinstrument := getD_of_drop h (show 2 ≤ 3 by decide)
  simp only [dispatch, htype, handleOrderBookUpdate, handlePositionUpdate, handleOrderStatusUpdate,
    hpass, hinstrument, hfield (show 2 ≤ 3 by decide), hfield (show 2 ≤ 4 by decide),
    hfield (show 2 ≤ 7 by decide), hfield (show 2 ≤ 11 by decide), hfield (show 2 ≤ 15 by decide)]

theorem dispatch_nothing (msg : Message UInt8) :
    dispatch (msg.received nothing.data) = dispatch msg := by
  apply dispatch_of_drop
  have hwrite : overwrite 0 [] msg.bytes = msg.bytes := by cases msg.bytes <;> rfl
  have hswap : ∀ bytes : List UInt8, (swapFront bytes).drop 2 = bytes.drop 2 := by
    intro bytes
    rcases bytes with _ | ⟨a, _ | ⟨b, rest⟩⟩ <;> rfl
  change (swapFront (overwrite 0 [] msg.bytes)).drop 2 = _
  rw [hswap, hwrite]

/-- A trader for which the message in the buffer calls for nothing any more. -/
def Absorbed (state : Message UInt8 × AutoTrader FutureMidpoint SimpleExecutor) : Prop :=
  ∀ callback, dispatch state.1 = .called callback → state.2.handle callback = (state.2, [])

theorem handle_again {t : AutoTrader FutureMidpoint SimpleExecutor} (h : t.executor_.Counting)
    (callback : Callback) :
    (t.handle callback).1.handle callback = ((t.handle callback).1, []) := by
  cases callback with
  | onOrderStatusUpdate id fill_volume remaining_volume fees => rfl
  | onPositionUpdate future_position etf_position => rfl
  | onOrderBookUpdate update =>
    apply AutoTrader.redundant_ignored (AutoTrader.onOrderBookUpdate_quoting h update)
    have hprice : (t.onOrderBookUpdate update).1.pricing_model_ =
        t.pricing_model_.onOrderBookUpdate update := rfl
    by_cases htwo : update.TwoSided
    · right
      rw [hprice, FutureMidpoint.onOrderBookUpdate_eq, if_pos htwo]
    · exact Or.inl htwo

end RtoAutotrader
