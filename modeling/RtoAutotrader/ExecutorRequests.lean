import RtoAutotrader.ExecutorSteps

namespace RtoAutotrader

namespace SimpleExecutor

/-- What every request of a call has in common. -/
structure AskedFor (s : SimpleExecutor) (bid_price ask_price : Int) (r : Request) : Prop where
  position : r.position = s.position_
  insert : ∀ id side price volume lifespan,
    r.command = .insertOrder id side price volume lifespan →
    side = r.side ∧ price = asked bid_price ask_price side ∧ volume = 10 ∧
      lifespan = .goodForDay ∧ s.MayInsert side

theorem AskedFor.congr {s s' : SimpleExecutor} {bid_price ask_price : Int} {r : Request}
    (h : s'.AskedFor bid_price ask_price r) (hposition : s'.position_ = s.position_) :
    s.AskedFor bid_price ask_price r := by
  refine ⟨h.position.trans hposition, ?_⟩
  intro id side price volume lifespan hcommand
  have hinsert := h.insert id side price volume lifespan hcommand
  rw [mayInsert_congr hposition] at hinsert
  exact hinsert

theorem branch_position {bid_price ask_price : Int}
    {branch : SimpleExecutor → SimpleExecutor × List Request}
    (h : branch ∈ branches bid_price ask_price) (s : SimpleExecutor) :
    (branch s).1.position_ = s.position_ := by
  obtain ⟨side, rfl | rfl⟩ := mem_branches h
  · exact (cancelStale_frame s side _).2
  · exact insertMissing_position s side _

theorem branch_askedFor {bid_price ask_price : Int}
    {branch : SimpleExecutor → SimpleExecutor × List Request}
    (h : branch ∈ branches bid_price ask_price) (s : SimpleExecutor) :
    ∀ r ∈ (branch s).2, s.AskedFor bid_price ask_price r := by
  intro r hr
  obtain ⟨side, rfl | rfl⟩ := mem_branches h
  · unfold cancelStale at hr
    split_ifs at hr
    · rw [List.mem_singleton.mp hr]
      exact ⟨rfl, fun id other price volume lifespan hcommand => by cases hcommand⟩
    · simp at hr
  · unfold insertMissing at hr
    split_ifs at hr with hmissing
    · rw [List.mem_singleton.mp hr]
      refine ⟨rfl, ?_⟩
      intro id other price volume lifespan hcommand
      cases hcommand
      exact ⟨rfl, rfl, rfl, rfl, hmissing.2⟩
    · simp at hr

theorem executeTrades_askedFor (s : SimpleExecutor) (bid_price ask_price : Int) :
    ∀ r ∈ (s.executeTrades bid_price ask_price).2, s.AskedFor bid_price ask_price r := by
  rw [executeTrades_eq]
  refine (runFrom_holds (I := fun (s' : SimpleExecutor) log => s'.position_ = s.position_ ∧
    ∀ r ∈ log, s.AskedFor bid_price ask_price r) ⟨rfl, by simp⟩ ?_).2
  intro s' log branch hbranch hold
  refine ⟨(branch_position hbranch s').trans hold.1, ?_⟩
  intro r hr
  rcases List.mem_append.mp hr with hlog | hnew
  · exact hold.2 r hlog
  · exact (branch_askedFor hbranch s' r hnew).congr hold.1

end SimpleExecutor

/-- An insert is for 10 lots, from a position short of its side's limit. -/
def Request.Limited (r : Request) : Prop :=
  ∀ id side price volume lifespan, r.command = .insertOrder id side price volume lifespan →
    volume = 10 ∧ (side = .buy → r.position < 80) ∧ (side = .sell → r.position > -80)

namespace SimpleExecutor

theorem executeTrades_limited (s : SimpleExecutor) (bid_price ask_price : Int) :
    ∀ r ∈ (s.executeTrades bid_price ask_price).2, r.Limited := by
  intro r hr id side price volume lifespan hcommand
  have hasked := s.executeTrades_askedFor bid_price ask_price r hr
  obtain ⟨_, _, hvolume, _, hmay⟩ := hasked.insert id side price volume lifespan hcommand
  rw [hasked.position]
  refine ⟨hvolume, ?_, ?_⟩
  · rintro rfl
    exact hmay
  · rintro rfl
    exact hmay

/-- With no quote at all a call inserts one: no position is past both limits. -/
theorem executeTrades_inserts {s : SimpleExecutor} (h : ∀ side, s.id_ side = 0)
    (bid_price ask_price : Int) : ∃ r ∈ (s.executeTrades bid_price ask_price).2,
      ∃ id side price volume lifespan, r.command = .insertOrder id side price volume lifespan := by
  have hbid : s.bid_id_ = 0 := h .buy
  have hask : s.ask_id_ = 0 := h .sell
  by_cases hposition : s.position_ < 80
  · refine ⟨s.insertRequest .buy bid_price, ?_, s.nextId, .buy, bid_price, 10, .goodForDay, rfl⟩
    simp [executeTrades, hbid, hask, hposition, insertRequest, nextId]
  · refine ⟨s.insertRequest .sell ask_price, ?_, s.nextId, .sell, ask_price, 10, .goodForDay, rfl⟩
    have hroom : s.position_ > -80 := by omega
    simp [executeTrades, hbid, hask, hposition, hroom, insertRequest, nextId]

theorem cancelStale_requests (s : SimpleExecutor) (side : Side) (price id : Int) :
    (∃ r ∈ (cancelStale side price s).2, r.command = .cancelOrder id) ↔
      s.id_ side = id ∧ id ≠ 0 ∧ s.price_ side ≠ price := by
  unfold cancelStale
  split_ifs with h
  · simp only [cancelRequest, List.mem_singleton, exists_eq_left, Command.cancelOrder.injEq]
    constructor
    · rintro rfl
      exact ⟨rfl, h.1, Ne.symm h.2⟩
    · exact And.left
  · simp only [List.not_mem_nil, false_and, exists_false, false_iff, not_and]
    rintro rfl hid hprice
    exact h ⟨hid, Ne.symm hprice⟩

theorem cancelStale_command {s : SimpleExecutor} {side : Side} {price : Int} {r : Request}
    (h : r ∈ (cancelStale side price s).2) : ∃ id, r.command = .cancelOrder id := by
  unfold cancelStale at h
  split_ifs at h
  · rw [List.mem_singleton.mp h]
    exact ⟨_, rfl⟩
  · simp at h

theorem insertMissing_requests (s : SimpleExecutor) (side : Side) (price id : Int) :
    ∀ r ∈ (insertMissing side price s).2, r.command ≠ .cancelOrder id := by
  intro r hr
  unfold insertMissing at hr
  split_ifs at hr
  · rw [List.mem_singleton.mp hr]
    simp [insertRequest]
  · simp at hr

theorem executeTrades_cancels (s : SimpleExecutor) (bid_price ask_price id : Int) :
    (∃ r ∈ (s.executeTrades bid_price ask_price).2, r.command = .cancelOrder id) ↔
      ∃ side, s.id_ side = id ∧ id ≠ 0 ∧ s.price_ side ≠ asked bid_price ask_price side := by
  have hbuy := cancelStale_requests s .buy bid_price id
  have hsell := cancelStale_requests (cancelStale .buy bid_price s).1 .sell ask_price id
  have hskip := cancelStale_other s bid_price (show Side.sell ≠ .buy by decide)
  rw [hskip.1, hskip.2] at hsell
  rw [executeTrades_eq, branches, runFrom_append]
  constructor
  · rintro ⟨r, hr, hcommand⟩
    rcases List.mem_append.mp hr with hcancel | hinsert
    · simp only [cancels, runFrom_cons, runFrom_nil, List.append_nil, List.mem_append] at hcancel
      rcases hcancel with hfirst | hsecond
      · exact ⟨.buy, hbuy.mp ⟨r, hfirst, hcommand⟩⟩
      · exact ⟨.sell, hsell.mp ⟨r, hsecond, hcommand⟩⟩
    · simp only [inserts, runFrom_cons, runFrom_nil, List.append_nil, List.mem_append] at hinsert
      rcases hinsert with hfirst | hsecond
      · exact absurd hcommand (insertMissing_requests _ .buy bid_price id r hfirst)
      · exact absurd hcommand (insertMissing_requests _ .sell ask_price id r hsecond)
  · rintro ⟨side, hside⟩
    cases side with
    | buy =>
      obtain ⟨r, hr, hcommand⟩ := hbuy.mpr hside
      exact ⟨r, List.mem_append_left _ (List.mem_append_left _ hr), hcommand⟩
    | sell =>
      obtain ⟨r, hr, hcommand⟩ := hsell.mpr hside
      refine ⟨r, List.mem_append_left _ (List.mem_append_right _ ?_), hcommand⟩
      exact List.mem_append_left _ hr

theorem insertMissing_inserted {s : SimpleExecutor} {side other : Side} {price price' id : Int}
    {volume : Int} {lifespan : Lifespan} {r : Request} (hr : r ∈ (insertMissing side price s).2)
    (hcommand : r.command = .insertOrder id other price' volume lifespan) :
    other = side ∧ (insertMissing side price s).1.id_ side = id := by
  unfold insertMissing at hr ⊢
  split_ifs at hr ⊢
  · rw [List.mem_singleton.mp hr] at hcommand
    cases hcommand
    exact ⟨rfl, withQuote_id_same _ _ _ _⟩
  · simp at hr

theorem executeTrades_inserted {s : SimpleExecutor} {bid_price ask_price : Int} {id : Int}
    {side : Side} {price volume : Int} {lifespan : Lifespan} {r : Request}
    (hr : r ∈ (s.executeTrades bid_price ask_price).2)
    (hcommand : r.command = .insertOrder id side price volume lifespan) :
    (s.executeTrades bid_price ask_price).1.id_ side = id := by
  rw [executeTrades_eq, branches, runFrom_append] at hr ⊢
  rcases List.mem_append.mp hr with hcancel | hinsert
  · simp only [cancels, runFrom_cons, runFrom_nil, List.append_nil, List.mem_append] at hcancel
    rcases hcancel with hfirst | hsecond
    · obtain ⟨cancelled, heq⟩ := cancelStale_command hfirst
      cases heq.symm.trans hcommand
    · obtain ⟨cancelled, heq⟩ := cancelStale_command hsecond
      cases heq.symm.trans hcommand
  · generalize (runFrom (fun s branch => branch s) s (cancels bid_price ask_price)).1 = s' at hinsert ⊢
    simp only [inserts, runFrom_cons, runFrom_nil, List.append_nil, List.mem_append] at hinsert ⊢
    rcases hinsert with hfirst | hsecond
    · obtain ⟨rfl, hid⟩ := insertMissing_inserted hfirst hcommand
      rw [(insertMissing_other _ ask_price (show Side.buy ≠ .sell by decide)).1]
      exact hid
    · obtain ⟨rfl, hid⟩ := insertMissing_inserted hsecond hcommand
      exact hid

theorem executeTrades_keeps {s : SimpleExecutor} {bid_price ask_price : Int} {side : Side}
    (hid : s.id_ side ≠ 0) (hprice : s.price_ side = asked bid_price ask_price side) :
    (s.executeTrades bid_price ask_price).1.id_ side = s.id_ side := by
  rw [executeTrades_eq]
  refine (runFrom_holds (I := fun (s' : SimpleExecutor) _ =>
    s'.id_ side = s.id_ side ∧ s'.price_ side = s.price_ side) ⟨rfl, rfl⟩ ?_).1
  intro s' _ branch hbranch hsame
  obtain ⟨other, rfl | rfl⟩ := mem_branches hbranch
  · by_cases heq : side = other
    · subst heq
      unfold cancelStale
      rw [if_neg fun hstale => hstale.2 (hprice.symm.trans hsame.2.symm)]
      exact hsame
    · rw [(cancelStale_other s' _ heq).1, (cancelStale_other s' _ heq).2]
      exact hsame
  · by_cases heq : side = other
    · subst heq
      unfold insertMissing
      rw [if_neg fun hmissing => hid (hsame.1.symm.trans hmissing.1)]
      exact hsame
    · rw [(insertMissing_other s' _ heq).1, (insertMissing_other s' _ heq).2]
      exact hsame

end SimpleExecutor

end RtoAutotrader
