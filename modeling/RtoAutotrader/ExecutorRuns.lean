import RtoAutotrader.ExecutorRequests
import RtoAutotrader.OrderLog

namespace RtoAutotrader

namespace SimpleExecutor

inductive Call
  | executeTrades (bid_price ask_price : Int)
  | onPositionUpdate (future_position etf_position : Int)
  deriving DecidableEq, Repr

def call (s : SimpleExecutor) : Call → SimpleExecutor × List Request
  | .executeTrades bid_price ask_price => s.executeTrades bid_price ask_price
  | .onPositionUpdate future_position etf_position =>
    (s.onPositionUpdate future_position etf_position, [])

theorem Tracks.counting {s : SimpleExecutor} {log : List Request} (h : s.Tracks log)
    (hlimit : (inserted log).length ≤ INSERT_LIMIT) : s.Counting := by
  have hcounter := h.counter
  unfold INSERT_LIMIT at hlimit
  unfold Counting
  omega

/-- Agreement with the log for as long as the counter has ids left. -/
def TracksWithin (s : SimpleExecutor) (log : List Request) : Prop :=
  (inserted log).length ≤ INSERT_LIMIT → s.Tracks log

theorem TracksWithin.executeTrades {s : SimpleExecutor} {log : List Request}
    (h : s.TracksWithin log) (bid_price ask_price : Int) :
    (s.executeTrades bid_price ask_price).1.TracksWithin
      (log ++ (s.executeTrades bid_price ask_price).2) := by
  rw [executeTrades_eq]
  apply runFrom_invariant h
  intro s log branch hbranch hold hlimit
  have htracks : s.Tracks log :=
    hold (Nat.le_trans (inserted_length_mono (List.prefix_append _ _)) hlimit)
  obtain ⟨side, rfl | rfl⟩ := mem_branches hbranch
  · exact htracks.cancelStale side _
  · exact htracks.insertMissing side _ hlimit

theorem Tracks.onPositionUpdate {s : SimpleExecutor} {log : List Request} (h : s.Tracks log)
    (future_position etf_position : Int) :
    (s.onPositionUpdate future_position etf_position).Tracks log :=
  ⟨h.counter, h.ids, fun side => by cases side <;> exact h.quotes _, h.sound⟩

theorem TracksWithin.call {s : SimpleExecutor} {log : List Request} (h : s.TracksWithin log)
    (c : Call) : (s.call c).1.TracksWithin (log ++ (s.call c).2) := by
  cases c with
  | executeTrades bid_price ask_price => exact h.executeTrades bid_price ask_price
  | onPositionUpdate future_position etf_position =>
    intro hlimit
    simp only [SimpleExecutor.call, List.append_nil] at hlimit ⊢
    exact (h hlimit).onPositionUpdate future_position etf_position

theorem call_tracks (calls : List Call) :
    (runFrom SimpleExecutor.call start calls).1.TracksWithin
      (runFrom SimpleExecutor.call start calls).2 :=
  runFrom_holds (I := TracksWithin) (fun _ => tracks_start) fun _ _ c _ h => h.call c

theorem ordersOn_ne_nil {s : SimpleExecutor} {log : List Request} (h : s.Tracks log)
    (side : Side) : ordersOn side (openOrders log) ≠ [] ↔ s.id_ side ≠ 0 := by
  rw [h.quotes, quote]
  split_ifs with hid <;> simp [hid]

theorem Tracks.at_price {s : SimpleExecutor} {log : List Request} (h : s.Tracks log)
    (side : Side) (price : Int) : s.id_ side ≠ 0 ∧ s.price_ side = price ↔
      ∃ order ∈ openOrders log, order.side = side ∧ order.price = price := by
  constructor
  · rintro ⟨hid, hprice⟩
    refine ⟨⟨s.id_ side, side, s.price_ side, 10, .goodForDay⟩, ?_, rfl, hprice⟩
    exact h.mem_openOrders.mpr (mem_quote.mpr ⟨hid, rfl⟩)
  · rintro ⟨order, horder, rfl, rfl⟩
    obtain ⟨hid, heq⟩ := mem_quote.mp (h.mem_openOrders.mp horder)
    rw [heq]
    exact ⟨hid, rfl⟩

end SimpleExecutor

/-- The executor and the log of its calls after it has been called from its start. -/
def executorRun (calls : List SimpleExecutor.Call) : SimpleExecutor × List Request :=
  runFrom SimpleExecutor.call .start calls

theorem executorRun_concat (calls : List SimpleExecutor.Call) (bid_price ask_price : Int) :
    executorRun (calls ++ [.executeTrades bid_price ask_price]) =
      (((executorRun calls).1.executeTrades bid_price ask_price).1,
        (executorRun calls).2 ++ ((executorRun calls).1.executeTrades bid_price ask_price).2) :=
  runFrom_concat _ _ _ _

theorem executorRun_earlier {calls earlier later : List SimpleExecutor.Call}
    (hsplit : calls = earlier ++ later) : (executorRun earlier).2 <+: (executorRun calls).2 := by
  rw [hsplit]
  exact runFrom_earlier _ _ _ _

theorem executorRun_tracks {calls earlier later : List SimpleExecutor.Call}
    (hlimit : (inserted (executorRun calls).2).length ≤ INSERT_LIMIT)
    (hsplit : calls = earlier ++ later) :
    (executorRun earlier).1.Tracks (executorRun earlier).2 ∧ (executorRun earlier).1.Counting := by
  have hearlier := Nat.le_trans (inserted_length_mono (executorRun_earlier hsplit)) hlimit
  have htracks := SimpleExecutor.call_tracks earlier hearlier
  exact ⟨htracks, htracks.counting hearlier⟩

/-- The log agrees with the executor on a side when it leaves `executeTrades`. -/
structure SideAgrees (before after : SimpleExecutor × List Request) (side : Side) (price : Int) :
    Prop where
  quote : ordersOn side (openOrders after.2) =
    if after.1.id_ side = 0 then [] else [⟨after.1.id_ side, side, after.1.price_ side, 10, .goodForDay⟩]
  priced : after.1.id_ side ≠ 0 → after.1.price_ side = price
  present : ordersOn side (openOrders after.2) ≠ [] ↔
    after.1.MayInsert side ∨ ∃ order ∈ openOrders before.2, order.side = side ∧ order.price = price

theorem executor_log_agrees (calls : List SimpleExecutor.Call)
    (hlimit : (inserted (executorRun calls).2).length ≤ INSERT_LIMIT) :
    EveryPrefix SoundLog (executorRun calls).2 ∧
      ∀ earlier bid_price ask_price later,
        calls = earlier ++ .executeTrades bid_price ask_price :: later → ∀ side,
        SideAgrees (executorRun earlier)
          (executorRun (earlier ++ [.executeTrades bid_price ask_price]))
          side (SimpleExecutor.asked bid_price ask_price side) := by
  refine ⟨(executorRun_tracks hlimit (List.append_nil calls).symm).1.sound, ?_⟩
  intro earlier bid_price ask_price later hsplit side
  have hlater : calls = (earlier ++ [.executeTrades bid_price ask_price]) ++ later := by
    simpa using hsplit
  obtain ⟨hafter, _⟩ := executorRun_tracks hlimit hlater
  obtain ⟨hbefore, hcounting⟩ := executorRun_tracks hlimit hsplit
  have hside := SimpleExecutor.executeTrades_side hcounting bid_price ask_price side
  have hposition := (executorRun earlier).1.executeTrades_position bid_price ask_price
  have hstate := congrArg Prod.fst (executorRun_concat earlier bid_price ask_price)
  refine ⟨hafter.quotes side, ?_, ?_⟩
  · rw [hstate]
    exact hside.2
  · rw [SimpleExecutor.ordersOn_ne_nil hafter, hstate, hside.1, hbefore.at_price,
      SimpleExecutor.mayInsert_congr hposition]

/-- A side that fills up to the limit and is left alone when the price moves. -/
theorem executor_log_agrees_at_limit :
    EveryPrefix SoundLog
        (executorRun [.executeTrades 900 1100, .onPositionUpdate 0 85, .executeTrades 1000 1200]).2 ∧
      SideAgrees (executorRun [.executeTrades 900 1100, .onPositionUpdate 0 85])
        (executorRun [.executeTrades 900 1100, .onPositionUpdate 0 85, .executeTrades 1000 1200])
        .buy 1000 := by
  have hlimit : (inserted (executorRun
      [.executeTrades 900 1100, .onPositionUpdate 0 85, .executeTrades 1000 1200]).2).length ≤
      INSERT_LIMIT := by decide
  obtain ⟨hsound, hsides⟩ := executor_log_agrees _ hlimit
  exact ⟨hsound, hsides [.executeTrades 900 1100, .onPositionUpdate 0 85] 1000 1200 [] rfl .buy⟩

end RtoAutotrader
