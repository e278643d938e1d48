import RtoAutotrader.DeadQuotes
import RtoAutotrader.PositionBound

namespace RtoAutotrader

/-- The volume that requests ask for on a side. -/
def pending (side : Side) (requests : List Request) : Int :=
  (requests.map fun r => match r.command with
    | .insertOrder _ other _ volume _ => if other = side then volume else 0
    | .cancelOrder _ => 0).sum

theorem pending_append (side : Side) (first second : List Request) :
    pending side (first ++ second) = pending side first + pending side second := by
  simp [pending]

theorem pending_nonneg {requests : List Request} (h : ∀ r ∈ requests, r.Limited) (side : Side) :
    0 ≤ pending side requests := by
  apply List.sum_nonneg
  intro volume hvolume
  obtain ⟨r, hr, rfl⟩ := List.mem_map.mp hvolume
  cases hcommand : r.command with
  | cancelOrder id => simp
  | insertOrder id other price volume lifespan =>
    obtain ⟨rfl, _, _⟩ := h r hr id other price volume lifespan hcommand
    simp only
    split_ifs <;> decide

namespace SimpleExecutor

theorem cancelStale_pending (s : SimpleExecutor) (other : Side) (price : Int) (side : Side) :
    pending side (cancelStale other price s).2 = 0 := by
  unfold cancelStale
  split_ifs <;> rfl

/-- What one call may ask for on a side. -/
def allowance (s : SimpleExecutor) (side : Side) : Int := if s.MayInsert side then 10 else 0

theorem allowance_congr {s s' : SimpleExecutor} (h : s'.position_ = s.position_) (side : Side) :
    s'.allowance side = s.allowance side := by
  simp only [allowance, mayInsert_congr h]

theorem allowance_cases (s : SimpleExecutor) (side : Side) :
    s.allowance side = 0 ∨ s.allowance side = 10 ∧ s.MayInsert side := by
  unfold allowance
  split_ifs with hmay
  · exact Or.inr ⟨rfl, hmay⟩
  · exact Or.inl rfl

theorem insertMissing_pending (s : SimpleExecutor) (other : Side) (price : Int) (side : Side) :
    pending side (insertMissing other price s).2 ≤ if other = side then s.allowance side else 0 := by
  unfold insertMissing allowance
  split_ifs with hmissing hother hmay hother
  · simp [pending, insertRequest, hother]
  · rw [← hother] at hmay
    exact absurd hmissing.2 hmay
  · simp [pending, insertRequest, hother]
  all_goals simp [pending]

theorem executeTrades_pending (s : SimpleExecutor) (bid_price ask_price : Int) (side : Side) :
    pending side (s.executeTrades bid_price ask_price).2 ≤ s.allowance side := by
  rw [executeTrades_eq]
  simp only [branches, cancels, inserts, List.cons_append, List.nil_append, runFrom_cons, runFrom_nil,
    pending_append, cancelStale_pending, List.append_nil, Int.zero_add]
  generalize hs' : (cancelStale .sell ask_price (cancelStale .buy bid_price s).1).1 = s'
  have hposition : s'.position_ = s.position_ := by
    rw [← hs', (cancelStale_frame _ _ _).2, (cancelStale_frame _ _ _).2]
  have hbuy := insertMissing_pending s' .buy bid_price side
  have hsell := insertMissing_pending (insertMissing .buy bid_price s').1 .sell ask_price side
  rw [allowance_congr hposition] at hbuy
  rw [allowance_congr ((insertMissing_position s' .buy bid_price).trans hposition)] at hsell
  cases side with
  | buy =>
    simp only [if_true, reduceCtorEq, if_false] at hbuy hsell
    omega
  | sell =>
    simp only [if_true, reduceCtorEq, if_false] at hbuy hsell
    omega

end SimpleExecutor

namespace Market

theorem limited_volume {log : List Request} (h : ∀ r ∈ log, r.Limited) {order : Order}
    (horder : order ∈ inserted log) : order.volume = 10 := by
  obtain ⟨entry, hentry, hopened⟩ := List.mem_filterMap.mp horder
  obtain ⟨r, hr, rfl⟩ := List.mem_map.mp hentry
  cases hcommand : r.command with
  | cancelOrder id =>
    rw [hcommand] at hopened
    cases hopened
  | insertOrder id side price volume lifespan =>
    rw [hcommand] at hopened
    cases hopened
    exact (h r hr id side price volume lifespan hcommand).1

/-- There is at most one live order on a side, so one of 10 lots. -/
theorem Consistent.resting_le {σ : Type} {executor : σ → SimpleExecutor} {m : Market σ}
    (h : m.Consistent executor) (side : Side) : m.exchange.resting side ≤ 10 := by
  have hsingle : (m.exchange.orders.filter fun live => live.order.side = side).length ≤ 1 := by
    have hsub : (ordersOn side m.exchange.book).Sublist (ordersOn side (openOrders m.processed)) := by
      rw [h.book]
      exact List.filter_sublist.filter _
    have hlength := (h.tracks.sound m.processed (List.prefix_append _ _)).single side
    have hmap : (ordersOn side m.exchange.book).length =
        (m.exchange.orders.filter fun live => live.order.side = side).length := by
      simp [ordersOn, Exchange.book, List.filter_map, Function.comp_def]
    rw [← hmap]
    exact hsub.length_le.trans hlength
  cases horders : m.exchange.orders.filter fun live => live.order.side = side with
  | nil => simp [Exchange.resting, horders]
  | cons live more =>
    rw [horders] at hsingle
    obtain rfl : more = [] := List.length_eq_zero_iff.mp (by simpa using hsingle)
    have hlive : live ∈ m.exchange.orders := by
      apply List.mem_of_mem_filter (p := fun live => live.order.side = side)
      rw [horders]
      exact List.mem_cons_self
    have hlimited : ∀ r ∈ m.processed, r.Limited :=
      fun r hr => h.limited r (List.mem_append_left _ hr)
    have hvolume := limited_volume hlimited (h.book_inserted (List.mem_map_of_mem hlive))
    have hwithin := live.within
    simp only [Exchange.resting, horders, List.map_cons, List.map_nil, List.sum_cons, List.sum_nil]
    omega

variable {π : Type} [PricingModel π]

/-- Whatever is still to trade of what lives or is under way, the position stays within 99. -/
structure Contained (e : Exchange) (inFlight : List Request) : Prop where
  high : e.position + e.resting .buy + pending .buy inFlight ≤ 99
  low : -99 ≤ e.position - e.resting .sell - pending .sell inFlight

variable {m m' : Market (AutoTrader π SimpleExecutor)}

theorem Contained.act (h : Contained m.exchange []) (hconsistent : m.Consistent AutoTrader.executor_)
    (hposition : m.client.executor_.position_ = m.exchange.position) (input : OrderBookUpdate) :
    Contained m.exchange (traderClient.act m.client input).2 := by
  have hhigh := h.high
  have hlow := h.low
  have hbuy := hconsistent.resting_le .buy
  have hsell := hconsistent.resting_le .sell
  have hasked : ∀ side, pending side (traderClient.act m.client input).2 ≤
      m.client.executor_.allowance side := SimpleExecutor.executeTrades_pending _ _ _
  have hbid := hasked .buy
  have hask := hasked .sell
  have hempty : ∀ side, pending side [] = 0 := fun _ => rfl
  rw [hempty] at hhigh hlow
  constructor
  · rcases m.client.executor_.allowance_cases .buy with hnone | ⟨hten, hmay⟩
    · omega
    · have hroom : m.client.executor_.position_ < 80 := hmay
      omega
  · rcases m.client.executor_.allowance_cases .sell with hnone | ⟨hten, hmay⟩
    · omega
    · have hroom : m.client.executor_.position_ > -80 := hmay
      omega

theorem Contained.process {e : Exchange} {r : Request} {rest : List Request}
    (h : Contained e (r :: rest)) (hlimited : r.Limited) : Contained (e.process r.command) rest := by
  obtain ⟨hhigh, hlow⟩ := h
  have hposition : (e.process r.command).position = e.position :=
    e.process_position r.command
  rw [← List.singleton_append, pending_append] at hhigh hlow
  cases hcommand : r.command with
  | cancelOrder id =>
    have hbuy := e.resting_cancel id .buy
    have hsell := e.resting_cancel id .sell
    have hzero : ∀ side, pending side [r] = 0 := fun side => by simp [pending, hcommand]
    rw [hzero] at hhigh hlow
    rw [hcommand] at hposition
    constructor
    · rw [hposition]
      omega
    · rw [hposition]
      omega
  | insertOrder id side price volume lifespan =>
    obtain ⟨rfl, _, _⟩ := hlimited id side price volume lifespan hcommand
    have hone : ∀ other, pending other [r] = if side = other then 10 else 0 :=
      fun other => by simp [pending, hcommand]
    rw [hone] at hhigh hlow
    rw [hcommand] at hposition
    constructor
    · rw [hposition, Exchange.resting_insert _ (by decide)]
      omega
    · rw [hposition, Exchange.resting_insert _ (by decide)]
      omega

theorem Contained.fill {e e' : Exchange} {inFlight : List Request} (h : Contained e inFlight)
    {k : Nat} {volume : Int} (hfill : e.fill k volume = some e') : Contained e' inFlight := by
  obtain ⟨hhigh, hlow⟩ := h
  obtain ⟨side, hvolume, hposition, hresting⟩ := Exchange.fill_resting hfill
  constructor
  · rw [hposition, hresting]
    cases side with
    | buy =>
      simp only [Side.signed, if_true]
      omega
    | sell =>
      simp only [Side.signed, reduceCtorEq, if_false]
      omega
  · rw [hposition, hresting]
    cases side with
    | buy =>
      simp only [Side.signed, reduceCtorEq, if_false]
      omega
    | sell =>
      simp only [Side.signed, if_true]
      omega

/-- A market in which the trader was only given books when it had heard of everything. -/
structure Calm (m : Market (AutoTrader π SimpleExecutor)) : Prop where
  consistent : m.Consistent AutoTrader.executor_
  contained : Contained m.exchange m.inFlight

theorem Calm.step {action : Action OrderBookUpdate} (h : m.Calm)
    (hquiet : ∀ input, action = .act input →
      m.inFlight = [] ∧ m.client.executor_.position_ = m.exchange.position)
    (hstep : m.step traderClient action = some m')
    (hlimit : (inserted m'.sent).length ≤ INSERT_LIMIT) : m'.Calm := by
  refine ⟨h.consistent.step traderClient_hosts hstep hlimit, ?_⟩
  obtain ⟨input, rfl, rfl⟩ | ⟨fees, r, rest, -, hflight, rfl⟩ |
    ⟨k, volume, fees, future_position, live, exchange, -, -, hfill, rfl⟩ |
    ⟨future_position, -, rfl⟩ | ⟨k, report, -, -, rfl⟩ := step_cases hstep
  · obtain ⟨hflight, hposition⟩ := hquiet input rfl
    have hcontained := h.contained
    rw [hflight] at hcontained
    simp only [hflight, List.nil_append]
    exact hcontained.act h.consistent hposition input
  · have hcontained := h.contained
    rw [hflight] at hcontained
    exact hcontained.process (h.consistent.limited r (by simp [sent, hflight]))
  · exact h.contained.fill hfill
  · exact h.contained
  · exact h.contained

end Market

end RtoAutotrader
