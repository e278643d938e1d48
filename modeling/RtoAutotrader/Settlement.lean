import RtoAutotrader.MarketLedger
import RtoAutotrader.OrderHistory

namespace RtoAutotrader

/-- The exchange once it has applied some requests and nothing has traded meanwhile. -/
def Exchange.settled (e : Exchange) (requests : List Request) : Exchange :=
  requests.foldl (fun e r => e.process r.command) e

theorem Exchange.settled_book {e : Exchange} {log requests : List Request} {gone : List Int}
    (h : e.book = (openOrders log).filter fun order => order.id ∉ gone)
    (hlimited : ∀ r ∈ requests, r.Limited)
    (hnew : ∀ order ∈ inserted requests, order.id ∉ gone) :
    (e.settled requests).book =
      (openOrders (log ++ requests)).filter fun order => order.id ∉ gone := by
  induction requests generalizing e log with
  | nil => simpa [settled] using h
  | cons r requests ih =>
    have hpositive : ∀ id side price volume lifespan,
        r.command = .insertOrder id side price volume lifespan → 0 < volume := by
      intro id side price volume lifespan hcommand
      have hvolume := hlimited r List.mem_cons_self id side price volume lifespan hcommand
      omega
    have hopened : ∀ order, r.command.entry.opened? = some order → order.id ∉ gone := by
      intro order horder
      exact hnew order (by simp [inserted, horder])
    have hfirst : (e.process r.command).book =
        (openOrders (log ++ [r])).filter fun order => order.id ∉ gone := by
      rw [Exchange.process_book hpositive, h, applyEntry_filter hopened, openOrders_concat]
    have hrest := ih hfirst (fun r' hr' => hlimited r' (List.mem_cons_of_mem r hr'))
      fun order horder => hnew order (by
        rw [← List.singleton_append, inserted_append]
        exact List.mem_append_right _ horder)
    simpa [settled] using hrest

namespace Market

variable {σ : Type}

theorem Consistent.settled_side {executor : σ → SimpleExecutor} {m : Market σ}
    (h : m.Consistent executor) {requests : List Request} {s : SimpleExecutor}
    (htracks : s.Tracks (m.sent ++ requests)) (hlimited : ∀ r ∈ requests, r.Limited) (side : Side) :
    ordersOn side (m.exchange.settled (m.inFlight ++ requests)).book =
      (s.quote side).filter fun order => order.id ∉ m.done := by
  have hsent : m.sent ++ requests = m.processed ++ (m.inFlight ++ requests) := by
    simp [sent]
  have hincreasing := htracks.increasing
  rw [hsent] at hincreasing
  rw [Exchange.settled_book h.book ?_ (h.later_not_done hincreasing), ← hsent, ← htracks.quotes]
  · simp only [ordersOn, List.filter_filter]
    exact List.filter_congr fun order _ => Bool.and_comm _ _
  · intro r hr
    rcases List.mem_append.mp hr with hflight | hnew
    · exact h.limited r (List.mem_append_right _ hflight)
    · exact hlimited r hnew

/-- The quote a call leaves is known to be done only if it was kept from before. -/
theorem Consistent.quote_done_iff {executor : σ → SimpleExecutor} {m : Market σ}
    (h : m.Consistent executor) {bid_price ask_price : Int} {after : SimpleExecutor × List Request}
    (hafter : (executor m.client).executeTrades bid_price ask_price = after)
    (hlimit : (inserted (m.sent ++ after.2)).length ≤ INSERT_LIMIT) {side : Side}
    (hid : after.1.id_ side ≠ 0) :
    after.1.id_ side ∈ m.done ↔ (executor m.client).id_ side ≠ 0 ∧
      (executor m.client).price_ side = SimpleExecutor.asked bid_price ask_price side ∧
      (executor m.client).id_ side ∈ m.done := by
  have hcounting : (executor m.client).Counting := h.tracks.counting
    (Nat.le_trans (inserted_length_mono (List.prefix_append _ _)) hlimit)
  have htracks := SimpleExecutor.TracksWithin.executeTrades (fun _ => h.tracks) bid_price ask_price
  have hpriced := (SimpleExecutor.executeTrades_side hcounting bid_price ask_price side).2
  rw [hafter] at htracks hpriced
  constructor
  · intro hdone
    have hopen : ⟨after.1.id_ side, side, after.1.price_ side, 10, .goodForDay⟩ ∈
        openOrders (m.sent ++ after.2) :=
      (htracks hlimit).mem_openOrders.mpr (SimpleExecutor.mem_quote.mpr ⟨hid, rfl⟩)
    rcases mem_openOrders_append hopen with hold | hnew
    · obtain ⟨hold, heq⟩ := SimpleExecutor.mem_quote.mp (h.tracks.mem_openOrders.mp hold)
      simp only [Order.mk.injEq, true_and, and_true] at heq
      rw [← heq.1, ← heq.2]
      exact ⟨hid, hpriced hid, hdone⟩
    · have hincreasing := (htracks hlimit).increasing
      rw [sent, List.append_assoc] at hincreasing
      have hlater : (⟨after.1.id_ side, side, after.1.price_ side, 10, .goodForDay⟩ : Order) ∈
          inserted (m.inFlight ++ after.2) := by
        rw [inserted_append]
        exact List.mem_append_right _ hnew
      exact absurd hdone (h.later_not_done hincreasing _ hlater)
  · rintro ⟨hold, hprice, hdone⟩
    rw [← hafter, SimpleExecutor.executeTrades_keeps hold hprice]
    exact hdone

end Market

end RtoAutotrader
