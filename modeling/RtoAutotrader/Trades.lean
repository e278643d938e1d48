import Mathlib.Algebra.Order.Ring.Int
import RtoAutotrader.Market

namespace RtoAutotrader

structure Trade where
  side : Side
  price : Int
  volume : Int
  deriving DecidableEq, Repr

namespace Trade

/-- By how much a trade moves the position. -/
def lots (t : Trade) : Int := t.side.signed t.volume

/-- What a trade pays out. -/
def cash (t : Trade) : Int := -(t.side.signed (t.price * t.volume))

def volumeOn (side : Side) (trades : List Trade) : Int :=
  ((trades.filter fun t => t.side = side).map Trade.volume).sum

def position (trades : List Trade) : Int := (trades.map Trade.lots).sum

def balance (trades : List Trade) : Int := (trades.map Trade.cash).sum

theorem position_append (first second : List Trade) :
    position (first ++ second) = position first + position second := by
  simp [position]

/-- Bought at no more than one price, or sold at no less than another. -/
structure Within (bid ask : Int) (t : Trade) : Prop where
  volume : 0 < t.volume
  buy : t.side = .buy → t.price ≤ bid
  sell : t.side = .sell → ask ≤ t.price

theorem wealth_cons {bid ask : Int} {t : Trade} (h : t.Within bid ask) (value : Int) :
    (value - bid) * volumeOn .buy [t] + (ask - value) * volumeOn .sell [t] ≤
      value * t.lots + t.cash := by
  have hvolume := Int.le_of_lt h.volume
  obtain ⟨side, price, volume⟩ := t
  cases side with
  | buy =>
    have hpaid : price * volume ≤ bid * volume :=
      Int.mul_le_mul_of_nonneg_right (h.buy rfl) hvolume
    have hbought : volumeOn .buy [⟨.buy, price, volume⟩] = volume := Int.add_zero _
    have hsold : volumeOn .sell [⟨.buy, price, volume⟩] = 0 := rfl
    rw [hbought, hsold, Int.mul_zero, Int.add_zero, Int.sub_mul]
    simp only [lots, cash, Side.signed]
    omega
  | sell =>
    have hgained : ask * volume ≤ price * volume :=
      Int.mul_le_mul_of_nonneg_right (h.sell rfl) hvolume
    have hbought : volumeOn .buy [⟨.sell, price, volume⟩] = 0 := rfl
    have hsold : volumeOn .sell [⟨.sell, price, volume⟩] = volume := Int.add_zero _
    rw [hbought, hsold, Int.mul_zero, Int.zero_add, Int.sub_mul]
    simp only [lots, cash, Side.signed, Int.mul_neg, Int.neg_neg]
    omega

theorem volumeOn_cons (side : Side) (t : Trade) (trades : List Trade) :
    volumeOn side (t :: trades) = volumeOn side [t] + volumeOn side trades := by
  by_cases h : t.side = side <;> simp [volumeOn, h]

/-- What has been bought at no more than `bid` and sold at no less than `ask` is worth at least
that. -/
theorem wealth {bid ask : Int} {trades : List Trade} (h : ∀ t ∈ trades, t.Within bid ask)
    (value : Int) : (value - bid) * volumeOn .buy trades + (ask - value) * volumeOn .sell trades ≤
      value * position trades + balance trades := by
  induction trades with
  | nil => simp [volumeOn, position, balance]
  | cons t trades ih =>
    have hfirst := wealth_cons (h t List.mem_cons_self) value
    have hrest := ih fun t ht => h t (List.mem_cons_of_mem _ ht)
    rw [volumeOn_cons .buy, volumeOn_cons .sell, Int.mul_add, Int.mul_add]
    simp only [position, balance, List.map_cons, List.sum_cons, Int.mul_add] at hrest ⊢
    omega

end Trade

end RtoAutotrader
