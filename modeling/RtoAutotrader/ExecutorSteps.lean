import RtoAutotrader.SimpleExecutor

namespace RtoAutotrader

namespace SimpleExecutor

/-- The price `executeTrades` is asked to quote on a side. -/
def asked (bid_price ask_price : Int) : Side → Int
  | .buy => bid_price
  | .sell => ask_price

theorem mem_branches {bid_price ask_price : Int}
    {branch : SimpleExecutor → SimpleExecutor × List Request}
    (h : branch ∈ branches bid_price ask_price) :
    ∃ side, branch = cancelStale side (asked bid_price ask_price side) ∨
      branch = insertMissing side (asked bid_price ask_price side) := by
  simp only [branches, cancels, inserts, List.cons_append, List.nil_append, List.mem_cons,
    List.not_mem_nil, or_false] at h
  rcases h with rfl | rfl | rfl | rfl
  · exact ⟨.buy, Or.inl rfl⟩
  · exact ⟨.sell, Or.inl rfl⟩
  · exact ⟨.buy, Or.inr rfl⟩
  · exact ⟨.sell, Or.inr rfl⟩

/-- A counter from which no two increments reach the id 0, which means no order. -/
def Counting (s : SimpleExecutor) : Prop := 1 ≤ s.order_id_ ∧ s.order_id_ ≤ 2147483647

theorem nextId_ne_zero {s : SimpleExecutor} (h : s.Counting) : s.nextId ≠ 0 := by
  unfold Counting at h
  unfold nextId wrapInt
  omega

theorem cancelStale_same (s : SimpleExecutor) (side : Side) (price : Int) :
    ((cancelStale side price s).1.id_ side ≠ 0 ↔ s.id_ side ≠ 0 ∧ s.price_ side = price) ∧
      (cancelStale side price s).1.price_ side = s.price_ side := by
  unfold cancelStale
  split_ifs with h
  · simp [h.1, Ne.symm h.2]
  · refine ⟨?_, rfl⟩
    constructor
    · intro hid
      refine ⟨hid, ?_⟩
      by_contra hprice
      exact h ⟨hid, Ne.symm hprice⟩
    · exact And.left

theorem cancelStale_other (s : SimpleExecutor) {side other : Side} (price : Int)
    (h : other ≠ side) : (cancelStale side price s).1.id_ other = s.id_ other ∧
      (cancelStale side price s).1.price_ other = s.price_ other := by
  unfold cancelStale
  split_ifs
  · exact s.withQuote_other _ _ h
  · exact ⟨rfl, rfl⟩

@[simp] theorem cancelStale_frame (s : SimpleExecutor) (side : Side) (price : Int) :
    (cancelStale side price s).1.order_id_ = s.order_id_ ∧
      (cancelStale side price s).1.position_ = s.position_ := by
  unfold cancelStale
  split_ifs <;> simp

theorem insertMissing_same (s : SimpleExecutor) (side : Side) (price : Int)
    (hnext : s.nextId ≠ 0) :
    ((insertMissing side price s).1.id_ side ≠ 0 ↔ s.id_ side ≠ 0 ∨ s.MayInsert side) ∧
      ((insertMissing side price s).1.id_ side ≠ 0 →
        (insertMissing side price s).1.price_ side = price ∨
          (s.id_ side ≠ 0 ∧ (insertMissing side price s).1.price_ side = s.price_ side)) := by
  unfold insertMissing
  split_ifs with h
  · simp [h.1, h.2, hnext]
  · refine ⟨⟨Or.inl, ?_⟩, fun hid => Or.inr ⟨hid, rfl⟩⟩
    rintro (hid | hmay)
    · exact hid
    · exact fun hid => h ⟨hid, hmay⟩

theorem insertMissing_other (s : SimpleExecutor) {side other : Side} (price : Int)
    (h : other ≠ side) : (insertMissing side price s).1.id_ other = s.id_ other ∧
      (insertMissing side price s).1.price_ other = s.price_ other := by
  unfold insertMissing
  split_ifs
  · have hcounted : s.counted.id_ other = s.id_ other ∧ s.counted.price_ other = s.price_ other := by
      cases other <;> exact ⟨rfl, rfl⟩
    rw [← hcounted.1, ← hcounted.2]
    exact s.counted.withQuote_other _ _ h
  · exact ⟨rfl, rfl⟩

@[simp] theorem insertMissing_position (s : SimpleExecutor) (side : Side) (price : Int) :
    (insertMissing side price s).1.position_ = s.position_ := by
  unfold insertMissing
  split_ifs <;> simp [counted]

theorem insertMissing_nextId {s : SimpleExecutor} (h : s.Counting) (side : Side) (price : Int) :
    (insertMissing side price s).1.nextId ≠ 0 := by
  unfold insertMissing
  split_ifs
  · unfold Counting at h
    simp only [nextId, withQuote_order_id, counted, wrapInt]
    omega
  · exact nextId_ne_zero h

theorem mayInsert_congr {s s' : SimpleExecutor} (h : s'.position_ = s.position_) (side : Side) :
    s'.MayInsert side ↔ s.MayInsert side := by
  cases side <;> simp [MayInsert, h]

theorem executeTrades_position (s : SimpleExecutor) (bid_price ask_price : Int) :
    (s.executeTrades bid_price ask_price).1.position_ = s.position_ := by
  simp [executeTrades_eq, branches, cancels, inserts, cancelStale_frame]

theorem cancelStale_counting {s : SimpleExecutor} (h : s.Counting) (side : Side) (price : Int) :
    (cancelStale side price s).1.Counting := by
  unfold Counting at h ⊢
  rw [(cancelStale_frame s side price).1]
  exact h

theorem cancels_eq (s : SimpleExecutor) (bid_price ask_price : Int) :
    (runFrom (fun s branch => branch s) s (cancels bid_price ask_price)).1 =
      (cancelStale .sell ask_price (cancelStale .buy bid_price s).1).1 := rfl

theorem cancels_side (s : SimpleExecutor) (bid_price ask_price : Int) (side : Side) :
    ((runFrom (fun s branch => branch s) s (cancels bid_price ask_price)).1.id_ side ≠ 0 ↔
      s.id_ side ≠ 0 ∧ s.price_ side = asked bid_price ask_price side) ∧
    (runFrom (fun s branch => branch s) s (cancels bid_price ask_price)).1.price_ side =
      s.price_ side := by
  rw [cancels_eq]
  cases side with
  | buy =>
    have hskip := cancelStale_other (cancelStale .buy bid_price s).1 ask_price
      (show Side.buy ≠ .sell by decide)
    rw [hskip.1, hskip.2]
    exact cancelStale_same s .buy bid_price
  | sell =>
    have hskip := cancelStale_other s bid_price (show Side.sell ≠ .buy by decide)
    have hcancel := cancelStale_same (cancelStale .buy bid_price s).1 .sell ask_price
    rw [hskip.1, hskip.2] at hcancel
    exact hcancel

theorem cancels_counting {s : SimpleExecutor} (h : s.Counting) (bid_price ask_price : Int) :
    (runFrom (fun s branch => branch s) s (cancels bid_price ask_price)).1.Counting := by
  rw [cancels_eq]
  exact cancelStale_counting (cancelStale_counting h .buy bid_price) .sell ask_price

theorem cancels_position (s : SimpleExecutor) (bid_price ask_price : Int) :
    (runFrom (fun s branch => branch s) s (cancels bid_price ask_price)).1.position_ =
      s.position_ := by
  rw [cancels_eq, (cancelStale_frame _ .sell ask_price).2, (cancelStale_frame s .buy bid_price).2]

theorem inserts_side {s : SimpleExecutor} (h : s.Counting) (bid_price ask_price : Int)
    (side : Side) :
    ((runFrom (fun s branch => branch s) s (inserts bid_price ask_price)).1.id_ side ≠ 0 ↔
      s.id_ side ≠ 0 ∨ s.MayInsert side) ∧
    ((runFrom (fun s branch => branch s) s (inserts bid_price ask_price)).1.id_ side ≠ 0 →
      (runFrom (fun s branch => branch s) s (inserts bid_price ask_price)).1.price_ side =
          asked bid_price ask_price side ∨
        (s.id_ side ≠ 0 ∧ (runFrom (fun s branch => branch s) s
          (inserts bid_price ask_price)).1.price_ side = s.price_ side)) := by
  have heq : (runFrom (fun s branch => branch s) s (inserts bid_price ask_price)).1 =
      (insertMissing .sell ask_price (insertMissing .buy bid_price s).1).1 := rfl
  rw [heq]
  cases side with
  | buy =>
    have hkeep := insertMissing_other (insertMissing .buy bid_price s).1 ask_price
      (show Side.buy ≠ .sell by decide)
    rw [hkeep.1, hkeep.2]
    exact insertMissing_same s .buy bid_price (nextId_ne_zero h)
  | sell =>
    have hkeep := insertMissing_other s bid_price (show Side.sell ≠ .buy by decide)
    have hinsert := insertMissing_same (insertMissing .buy bid_price s).1 .sell ask_price
      (insertMissing_nextId h .buy bid_price)
    rw [hkeep.1, hkeep.2, mayInsert_congr (insertMissing_position s .buy bid_price)] at hinsert
    exact hinsert

/-- What one call does to a side: it ends with a quote if the position allows one or
an order at that price was there, and then the quote is at the price asked for. -/
theorem executeTrades_side {s : SimpleExecutor} (h : s.Counting) (bid_price ask_price : Int)
    (side : Side) :
    ((s.executeTrades bid_price ask_price).1.id_ side ≠ 0 ↔ s.MayInsert side ∨
      (s.id_ side ≠ 0 ∧ s.price_ side = asked bid_price ask_price side)) ∧
    ((s.executeTrades bid_price ask_price).1.id_ side ≠ 0 →
      (s.executeTrades bid_price ask_price).1.price_ side = asked bid_price ask_price side) := by
  have hcancels := cancels_side s bid_price ask_price side
  have hinserts := inserts_side (cancels_counting h bid_price ask_price) bid_price ask_price side
  rw [executeTrades_eq, branches, runFrom_append]
  constructor
  · rw [hinserts.1, hcancels.1, mayInsert_congr (cancels_position s bid_price ask_price)]
    exact or_comm
  · intro hlive
    rcases hinserts.2 hlive with hnew | ⟨hold, hsame⟩
    · exact hnew
    · rw [hsame, hcancels.2]
      exact (hcancels.1.mp hold).2

theorem executeTrades_empty {s : SimpleExecutor} (h : s.Counting) (bid_price ask_price : Int)
    (side : Side) : (s.executeTrades bid_price ask_price).1.id_ side = 0 ↔ ¬ s.MayInsert side ∧
      ¬ (s.id_ side ≠ 0 ∧ s.price_ side = asked bid_price ask_price side) := by
  rw [← not_or, ← (executeTrades_side h bid_price ask_price side).1, not_not]

/-- Every side has the quote asked for, or none where the position allows none. -/
def Settled (s : SimpleExecutor) (bid_price ask_price : Int) : Prop :=
  ∀ side, (s.id_ side ≠ 0 → s.price_ side = asked bid_price ask_price side) ∧
    (s.id_ side = 0 → ¬ s.MayInsert side)

theorem executeTrades_settles {s : SimpleExecutor} (h : s.Counting) (bid_price ask_price : Int) :
    (s.executeTrades bid_price ask_price).1.Settled bid_price ask_price := by
  intro side
  obtain ⟨hpresent, hpriced⟩ := executeTrades_side h bid_price ask_price side
  refine ⟨hpriced, ?_⟩
  intro hid hmay
  rw [mayInsert_congr (executeTrades_position s bid_price ask_price)] at hmay
  exact hpresent.mpr (Or.inl hmay) hid

theorem executeTrades_settled {s : SimpleExecutor} {bid_price ask_price : Int}
    (h : s.Settled bid_price ask_price) : s.executeTrades bid_price ask_price = (s, []) := by
  rw [executeTrades_eq]
  apply runFrom_fixed
  intro branch hbranch
  obtain ⟨side, rfl | rfl⟩ := mem_branches hbranch
  · apply if_neg
    rintro ⟨hid, hprice⟩
    exact hprice ((h side).1 hid).symm
  · apply if_neg
    rintro ⟨hid, hmay⟩
    exact (h side).2 hid hmay

end SimpleExecutor

end RtoAutotrader
