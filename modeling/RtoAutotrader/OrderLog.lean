import Mathlib.Data.List.Nodup
import RtoAutotrader.Ledger
import RtoAutotrader.SimpleExecutor

namespace RtoAutotrader

structure Order where
  id : Int
  side : Side
  price : Int
  volume : Int
  lifespan : Lifespan
  deriving DecidableEq, Repr

def Command.entry : Command → Entry Int Order
  | .insertOrder id side price volume lifespan => .opened ⟨id, side, price, volume, lifespan⟩
  | .cancelOrder id => .closed id

def inserted (log : List Request) : List Order :=
  (log.map fun r => r.command.entry).filterMap Entry.opened?

/-- The orders a log of calls has inserted and not cancelled. -/
def openOrders (log : List Request) : List Order :=
  replay Order.id (log.map fun r => r.command.entry)

def ordersOn (side : Side) (orders : List Order) : List Order :=
  orders.filter fun order => order.side = side

/-- What every log of the executor satisfies after every call in it. -/
structure SoundLog (log : List Request) : Prop where
  increasing : (inserted log).Pairwise fun first second => first.id < second.id
  nonzero : ∀ order ∈ inserted log, order.id ≠ 0
  cancels : ∀ before r after id, log = before ++ r :: after → r.command = .cancelOrder id →
    ∃ order ∈ openOrders before, order.id = id ∧ order.side = r.side
  single : ∀ side, (ordersOn side (openOrders log)).length ≤ 1

theorem openOrders_concat (log : List Request) (r : Request) :
    openOrders (log ++ [r]) = applyEntry Order.id (openOrders log) r.command.entry := by
  simp [openOrders, replay_append]

theorem inserted_append (log more : List Request) :
    inserted (log ++ more) = inserted log ++ inserted more := by
  simp [inserted]

theorem openOrders_sublist (log : List Request) : (openOrders log).Sublist (inserted log) :=
  replay_sublist Order.id _

theorem inserted_length_mono {before log : List Request} (h : before <+: log) :
    (inserted before).length ≤ (inserted log).length := by
  obtain ⟨more, rfl⟩ := h
  simp [inserted_append]

theorem openOrders_id_inj {log : List Request}
    (h : (inserted log).Pairwise fun first second => first.id < second.id) {first second : Order}
    (hfirst : first ∈ openOrders log) (hsecond : second ∈ openOrders log)
    (hid : first.id = second.id) : first = second := by
  have hnodup : ((openOrders log).map Order.id).Nodup :=
    List.pairwise_map.mpr ((h.sublist (openOrders_sublist log)).imp fun hlt => by omega)
  exact List.inj_on_of_nodup_map hnodup hfirst hsecond hid

theorem filter_ne_of_increasing {before after : List Order} {order : Order}
    (h : (before ++ order :: after).Pairwise fun first second => first.id < second.id) :
    ((before ++ order :: after).filter fun other => other.id ≠ order.id) = before ++ after := by
  obtain ⟨_, hafter, hcross⟩ := List.pairwise_append.mp h
  have hbefore : (before.filter fun other => other.id ≠ order.id) = before := by
    apply List.filter_eq_self.mpr
    intro other hother
    apply decide_eq_true
    have hlt := hcross other hother order List.mem_cons_self
    omega
  have hrest : (after.filter fun other => other.id ≠ order.id) = after := by
    apply List.filter_eq_self.mpr
    intro other hother
    apply decide_eq_true
    have hlt := (List.pairwise_cons.mp hafter).1 other hother
    omega
  rw [List.filter_append, hbefore, List.filter_cons_of_neg (by simp), hrest]

/-- The first part of a log that the executor's `int` counter can number: ids run
from 2, so there is room for 2^31 - 2 of them. -/
def INSERT_LIMIT : Nat := 2147483646

namespace SimpleExecutor

/-- The order the executor believes it has on a side. -/
def quote (s : SimpleExecutor) (side : Side) : List Order :=
  if s.id_ side = 0 then [] else [⟨s.id_ side, side, s.price_ side, 10, .goodForDay⟩]

/-- The executor's ids, prices and counter agree with the log of its calls. -/
structure Tracks (s : SimpleExecutor) (log : List Request) : Prop where
  counter : s.order_id_ = 1 + (inserted log).length
  ids : ∀ order ∈ inserted log, 2 ≤ order.id ∧ order.id ≤ s.order_id_
  quotes : ∀ side, ordersOn side (openOrders log) = s.quote side
  sound : EveryPrefix SoundLog log

theorem mem_quote {s : SimpleExecutor} {side : Side} {order : Order} :
    order ∈ s.quote side ↔ s.id_ side ≠ 0 ∧
      order = ⟨s.id_ side, side, s.price_ side, 10, .goodForDay⟩ := by
  unfold quote
  split_ifs with h <;> simp [h]

theorem Tracks.mem_openOrders {s : SimpleExecutor} {log : List Request} (h : s.Tracks log)
    {order : Order} : order ∈ openOrders log ↔ order ∈ s.quote order.side := by
  rw [← h.quotes order.side, ordersOn, List.mem_filter]
  simp

theorem quote_length (s : SimpleExecutor) (side : Side) : (s.quote side).length ≤ 1 := by
  unfold quote
  split_ifs <;> simp

theorem tracks_start : start.Tracks [] := by
  refine ⟨rfl, by simp [inserted], ?_, everyPrefix_nil ⟨?_, ?_, ?_, ?_⟩⟩
  · intro side
    cases side <;> rfl
  · simp [inserted]
  · simp [inserted]
  · intro before r after id hsplit
    simp at hsplit
  · intro side
    cases side <;> simp [openOrders, replay, ordersOn]

/-- A sound log stays sound with one more call, provided what the executor tracks
already agrees with the longer log. -/
theorem soundLog_concat {s : SimpleExecutor} {log : List Request} {r : Request}
    (h : SoundLog log) (hids : ∀ order ∈ inserted (log ++ [r]), order.id ≠ 0)
    (hincreasing : (inserted (log ++ [r])).Pairwise fun first second => first.id < second.id)
    (hquotes : ∀ side, ordersOn side (openOrders (log ++ [r])) = s.quote side)
    (hcancel : ∀ id, r.command = .cancelOrder id →
      ∃ order ∈ openOrders log, order.id = id ∧ order.side = r.side) :
    SoundLog (log ++ [r]) := by
  refine ⟨hincreasing, hids, ?_, ?_⟩
  · intro before r' after id hsplit hcommand
    rcases List.eq_nil_or_concat after with rfl | ⟨after, last, rfl⟩
    · obtain ⟨rfl, hr⟩ := List.append_inj' hsplit rfl
      cases hr
      exact hcancel id hcommand
    · have hsplit' : log ++ [r] = (before ++ r' :: after) ++ [last] := by simpa using hsplit
      obtain ⟨hlog, _⟩ := List.append_inj' hsplit' rfl
      exact h.cancels before r' after id hlog hcommand
  · intro side
    rw [hquotes side]
    exact s.quote_length side

theorem Tracks.increasing {s : SimpleExecutor} {log : List Request} (h : s.Tracks log) :
    (inserted log).Pairwise fun first second => first.id < second.id :=
  h.sound.whole.increasing

theorem ordersOn_append (side : Side) (first second : List Order) :
    ordersOn side (first ++ second) = ordersOn side first ++ ordersOn side second := by
  simp [ordersOn]

theorem quote_withQuote_same (s : SimpleExecutor) (id price : Int) (side : Side) :
    (s.withQuote id price side).quote side =
      if id = 0 then [] else [⟨id, side, price, 10, .goodForDay⟩] := by
  simp [quote]

theorem quote_withQuote_other (s : SimpleExecutor) (id price : Int) {side other : Side}
    (h : other ≠ side) : (s.withQuote id price side).quote other = s.quote other := by
  obtain ⟨hid, hprice⟩ := s.withQuote_other id price h
  simp only [quote, hid, hprice]

theorem quote_counted (s : SimpleExecutor) (side : Side) : s.counted.quote side = s.quote side := by
  cases side <;> rfl

theorem Tracks.cancel {s : SimpleExecutor} {log : List Request} (h : s.Tracks log) {side : Side}
    (hid : s.id_ side ≠ 0) :
    (s.withQuote 0 (s.price_ side) side).Tracks (log ++ [s.cancelRequest side]) := by
  have hmine : ⟨s.id_ side, side, s.price_ side, 10, .goodForDay⟩ ∈ openOrders log :=
    h.mem_openOrders.mpr (mem_quote.mpr ⟨hid, rfl⟩)
  have hinserted : inserted (log ++ [s.cancelRequest side]) = inserted log := by
    simp [inserted, cancelRequest, Command.entry, Entry.opened?]
  have hcut : ∀ other, ordersOn other (openOrders (log ++ [s.cancelRequest side])) =
      (s.quote other).filter fun order => order.id ≠ s.id_ side := by
    intro other
    rw [openOrders_concat, ← h.quotes other]
    simp only [cancelRequest, Command.entry, applyEntry, ordersOn, List.filter_filter]
    exact List.filter_congr fun order _ => Bool.and_comm _ _
  have hquotes : ∀ other, ordersOn other (openOrders (log ++ [s.cancelRequest side])) =
      (s.withQuote 0 (s.price_ side) side).quote other := by
    intro other
    rw [hcut]
    by_cases heq : other = side
    · subst heq
      simp [quote, hid]
    · have hkeep : ∀ order ∈ s.quote other, order.id ≠ s.id_ side := by
        intro order horder hsame
        have hside : order.side = other := by rw [(mem_quote.mp horder).2]
        have hopen : order ∈ openOrders log := h.mem_openOrders.mpr (by rw [hside]; exact horder)
        have hall := openOrders_id_inj h.increasing hopen hmine hsame
        rw [hall] at hside
        exact heq hside.symm
      rw [List.filter_eq_self.mpr (by simpa using hkeep), quote_withQuote_other _ _ _ heq]
  refine ⟨?_, ?_, hquotes, h.sound.concat ?_⟩
  · rw [withQuote_order_id, hinserted]
    exact h.counter
  · rw [withQuote_order_id, hinserted]
    exact h.ids
  · refine soundLog_concat h.sound.whole ?_ ?_ hquotes ?_
    · rw [hinserted]
      exact h.sound.whole.nonzero
    · rw [hinserted]
      exact h.increasing
    · intro id hcommand
      cases hcommand
      exact ⟨_, hmine, rfl, rfl⟩

theorem inserted_insertRequest (s : SimpleExecutor) (log : List Request) (side : Side)
    (price : Int) : inserted (log ++ [s.insertRequest side price]) =
      inserted log ++ [⟨s.nextId, side, price, 10, .goodForDay⟩] := by
  simp [inserted, insertRequest, Command.entry, Entry.opened?]

theorem Tracks.nextId_eq {s : SimpleExecutor} {log : List Request} (h : s.Tracks log)
    (hroom : (inserted log).length < INSERT_LIMIT) : s.nextId = s.order_id_ + 1 := by
  have hcounter := h.counter
  apply wrapInt_of_fits
  unfold FitsInt
  unfold INSERT_LIMIT at hroom
  omega

theorem Tracks.insert {s : SimpleExecutor} {log : List Request} (h : s.Tracks log) {side : Side}
    {price : Int} (hid : s.id_ side = 0) (hroom : (inserted log).length < INSERT_LIMIT) :
    (s.counted.withQuote s.nextId price side).Tracks (log ++ [s.insertRequest side price]) := by
  have hcounter := h.counter
  have hnext := h.nextId_eq hroom
  have hids : ∀ order ∈ inserted (log ++ [s.insertRequest side price]),
      2 ≤ order.id ∧ order.id ≤ s.nextId := by
    intro order horder
    rw [inserted_insertRequest] at horder
    rcases List.mem_append.mp horder with hold | hnew
    · have := h.ids order hold
      omega
    · rw [List.mem_singleton.mp hnew]
      simp only
      omega
  have hincreasing : (inserted (log ++ [s.insertRequest side price])).Pairwise
      fun first second => first.id < second.id := by
    rw [inserted_insertRequest, List.pairwise_append]
    refine ⟨h.increasing, List.pairwise_singleton _ _, ?_⟩
    intro first hfirst second hsecond
    rw [List.mem_singleton.mp hsecond]
    have := h.ids first hfirst
    simp only
    omega
  have hjoin : ∀ other, ordersOn other (openOrders (log ++ [s.insertRequest side price])) =
      s.quote other ++ ordersOn other [⟨s.nextId, side, price, 10, .goodForDay⟩] := by
    intro other
    rw [openOrders_concat, ← h.quotes other, ← ordersOn_append]
    rfl
  have hquotes : ∀ other, ordersOn other (openOrders (log ++ [s.insertRequest side price])) =
      (s.counted.withQuote s.nextId price side).quote other := by
    intro other
    rw [hjoin]
    by_cases heq : other = side
    · subst heq
      have hnonzero : s.nextId ≠ 0 := by omega
      rw [quote_withQuote_same, if_neg hnonzero]
      simp [quote, hid, ordersOn]
    · rw [quote_withQuote_other _ _ _ heq, quote_counted]
      simp [ordersOn, Ne.symm heq]
  refine ⟨?_, ?_, hquotes, h.sound.concat ?_⟩
  · rw [inserted_insertRequest, List.length_append, List.length_singleton, withQuote_order_id]
    simp only [counted]
    omega
  · rw [withQuote_order_id]
    exact hids
  · refine soundLog_concat h.sound.whole ?_ hincreasing hquotes ?_
    · intro order horder
      have := hids order horder
      omega
    · intro cancelled hcommand
      cases hcommand

theorem Tracks.cancelStale {s : SimpleExecutor} {log : List Request} (h : s.Tracks log)
    (side : Side) (price : Int) :
    (SimpleExecutor.cancelStale side price s).1.Tracks (log ++ (SimpleExecutor.cancelStale side price s).2) := by
  unfold SimpleExecutor.cancelStale
  split_ifs with hstale
  · exact h.cancel hstale.1
  · simpa using h

theorem Tracks.insertMissing {s : SimpleExecutor} {log : List Request} (h : s.Tracks log)
    (side : Side) (price : Int)
    (hroom : (inserted (log ++ (SimpleExecutor.insertMissing side price s).2)).length ≤ INSERT_LIMIT) :
    (SimpleExecutor.insertMissing side price s).1.Tracks (log ++ (SimpleExecutor.insertMissing side price s).2) := by
  unfold SimpleExecutor.insertMissing at hroom ⊢
  split_ifs at hroom ⊢ with hmissing
  · simp only [inserted_insertRequest, List.length_append, List.length_singleton] at hroom
    exact h.insert hmissing.1 (by omega)
  · simpa using h

end SimpleExecutor

end RtoAutotrader
