import Mathlib.Data.List.Perm.Basic
import RtoAutotrader.Market

namespace RtoAutotrader

/-- A client that trades through a `SimpleExecutor`. -/
structure Hosts {σ ι : Type} (client : Client σ ι) (executor : σ → SimpleExecutor) : Prop where
  act : ∀ s input, ∃ bid_price ask_price,
    executor (client.act s input).1 = ((executor s).executeTrades bid_price ask_price).1 ∧
      (client.act s input).2 = ((executor s).executeTrades bid_price ask_price).2
  receive : ∀ s c, executor (client.receive s c) = executor s ∨ ∃ future_position etf_position,
    executor (client.receive s c) = (executor s).onPositionUpdate future_position etf_position

namespace Market

variable {σ ι : Type}

/-- The exchange holds what the processed requests opened, less what was reported done. -/
structure Consistent (executor : σ → SimpleExecutor) (m : Market σ) : Prop where
  tracks : (executor m.client).Tracks m.sent
  limited : ∀ r ∈ m.sent, r.Limited
  completed : ∀ id ∈ m.done, ∃ order ∈ inserted m.processed, order.id = id
  book : m.exchange.book = (openOrders m.processed).filter fun order => order.id ∉ m.done

theorem Consistent.increasing {executor : σ → SimpleExecutor} {m : Market σ}
    (h : m.Consistent executor) {log : List Request} (hlog : log <+: m.sent) :
    (inserted log).Pairwise fun first second => first.id < second.id :=
  (h.tracks.sound log hlog).increasing

theorem Consistent.book_inserted {executor : σ → SimpleExecutor} {m : Market σ}
    (h : m.Consistent executor) {order : Order} (horder : order ∈ m.exchange.book) :
    order ∈ inserted m.processed := by
  rw [h.book] at horder
  exact (openOrders_sublist _).subset (List.mem_of_mem_filter horder)

theorem Consistent.book_distinct {executor : σ → SimpleExecutor} {m : Market σ}
    (h : m.Consistent executor) :
    m.exchange.book.Pairwise fun first second => first.id < second.id := by
  rw [h.book]
  exact (h.increasing (List.prefix_append _ _)).sublist
    (List.filter_sublist.trans (openOrders_sublist _))

theorem Consistent.act {client : Client σ ι} {executor : σ → SimpleExecutor} {m : Market σ}
    (hosts : Hosts client executor) (h : m.Consistent executor) {input : ι}
    (hlimit : (inserted (m.sent ++ (client.act m.client input).2)).length ≤ INSERT_LIMIT) :
    Consistent executor { m with
      client := (client.act m.client input).1
      inFlight := m.inFlight ++ (client.act m.client input).2 } := by
  obtain ⟨bid_price, ask_price, hstate, hout⟩ := hosts.act m.client input
  refine ⟨?_, ?_, h.completed, h.book⟩
  · have htracks := SimpleExecutor.TracksWithin.executeTrades (fun _ => h.tracks) bid_price ask_price
    rw [hout] at hlimit
    have hnow := htracks hlimit
    rw [← hstate, ← hout] at hnow
    simpa only [sent, List.append_assoc] using hnow
  · intro r hr
    simp only [sent, ← List.append_assoc] at hr
    rcases List.mem_append.mp hr with hold | hnew
    · exact h.limited r hold
    · rw [hout] at hnew
      exact SimpleExecutor.executeTrades_limited _ _ _ r hnew

theorem done_deliver {m : Market σ} {k : Nat} {report : Callback}
    (h : m.reports[k]? = some report) (client : σ) (id : Int) :
    id ∈ Market.done { m with
      client := client
      reports := m.reports.eraseIdx k
      delivered := m.delivered ++ [report] } ↔ id ∈ m.done := by
  obtain ⟨hk, hget⟩ := List.getElem?_eq_some_iff.mp h
  have hperm : ((m.delivered ++ [report]) ++ m.reports.eraseIdx k).Perm
      (m.delivered ++ m.reports) := by
    rw [List.append_assoc, ← hget]
    exact (List.getElem_cons_eraseIdx_perm hk).append_left m.delivered
  exact (hperm.filterMap Callback.done?).mem_iff

theorem Consistent.deliver {client : Client σ ι} {executor : σ → SimpleExecutor} {m : Market σ}
    (hosts : Hosts client executor) (h : m.Consistent executor) {k : Nat} {report : Callback}
    (hreport : m.reports[k]? = some report) :
    Consistent executor { m with
      client := client.receive m.client report
      reports := m.reports.eraseIdx k
      delivered := m.delivered ++ [report] } := by
  have hdone := done_deliver hreport (client.receive m.client report)
  refine ⟨?_, h.limited, fun id hid => h.completed id ((hdone id).mp hid), ?_⟩
  · rcases hosts.receive m.client report with hsame | ⟨future_position, etf_position, hupdate⟩
    · simp only [hsame]
      exact h.tracks
    · simp only [hupdate]
      exact h.tracks.onPositionUpdate future_position etf_position
  · refine h.book.trans (List.filter_congr fun order _ => ?_)
    exact decide_eq_decide.mpr (not_congr (hdone order.id).symm)

theorem Consistent.later_not_done {executor : σ → SimpleExecutor} {m : Market σ}
    (h : m.Consistent executor) {later : List Request}
    (hincreasing : (inserted (m.processed ++ later)).Pairwise
      fun first second => first.id < second.id) : ∀ order ∈ inserted later, order.id ∉ m.done := by
  intro order horder hdone
  obtain ⟨old, hold, hid⟩ := h.completed _ hdone
  rw [inserted_append] at hincreasing
  have hlt := (List.pairwise_append.mp hincreasing).2.2 old hold order horder
  omega

theorem Consistent.fresh {executor : σ → SimpleExecutor} {m : Market σ} {r : Request}
    {rest : List Request} (h : m.Consistent executor) (hflight : m.inFlight = r :: rest)
    {order : Order} (horder : r.command.entry.opened? = some order) : order.id ∉ m.done :=
  h.later_not_done (h.increasing (show m.processed ++ [r] <+: m.sent by simp [sent, hflight]))
    order (by simp [inserted, horder])

theorem Consistent.process {executor : σ → SimpleExecutor} {m : Market σ} {r : Request}
    {rest : List Request} (h : m.Consistent executor) (hflight : m.inFlight = r :: rest)
    (fees : Int) :
    Consistent executor { m with
      processed := m.processed ++ [r]
      inFlight := rest
      exchange := m.exchange.process r.command
      reports := m.reports ++ m.exchange.cancelReports fees r.command
      accepted := m.accepted ++ m.acceptedBy r } := by
  generalize hm' : ({ m with
    processed := m.processed ++ [r]
    inFlight := rest
    exchange := m.exchange.process r.command
    reports := m.reports ++ m.exchange.cancelReports fees r.command
    accepted := m.accepted ++ m.acceptedBy r } : Market σ) = m'
  have hsent : m'.sent = m.sent := by
    simp [← hm', sent, hflight]
  have hdone : ∀ id, id ∈ m'.done ↔
      id ∈ m.done ∨ id ∈ doneIds (m.exchange.cancelReports fees r.command) := by
    intro id
    rw [← hm', done, done, ← List.append_assoc, doneIds_append _ (m.exchange.cancelReports _ _),
      List.mem_append]
  have hpositive : ∀ id side price volume lifespan,
      r.command = .insertOrder id side price volume lifespan → 0 < volume := by
    intro id side price volume lifespan hcommand
    have hlimited := h.limited r (by simp [sent, hflight]) id side price volume lifespan hcommand
    omega
  refine ⟨?_, ?_, ?_, ?_⟩
  · rw [hsent, ← hm']
    exact h.tracks
  · rw [hsent]
    exact h.limited
  · intro id hid
    have hprocessed : m'.processed = m.processed ++ [r] := by rw [← hm']
    rw [hprocessed, inserted_append]
    rcases (hdone id).mp hid with hold | hnew
    · obtain ⟨order, horder, heq⟩ := h.completed id hold
      exact ⟨order, List.mem_append_left _ horder, heq⟩
    · obtain ⟨_, order, horder, heq⟩ := mem_doneIds_cancelReports hnew
      exact ⟨order, List.mem_append_left _ (h.book_inserted horder), heq⟩
  · have hbook : m'.exchange.book = applyEntry Order.id m.exchange.book r.command.entry := by
      rw [← hm']
      exact Exchange.process_book hpositive
    have hprocessed : openOrders m'.processed =
        applyEntry Order.id (openOrders m.processed) r.command.entry := by
      rw [← hm']
      exact openOrders_concat _ _
    rw [hbook, hprocessed, h.book,
      applyEntry_filter fun order horder => h.fresh hflight horder]
    refine List.filter_congr fun order horder => decide_eq_decide.mpr (not_congr ?_)
    rw [hdone]
    constructor
    · exact Or.inl
    · rintro (hold | hnew)
      · exact hold
      · obtain ⟨hcommand, _⟩ := mem_doneIds_cancelReports hnew
        rw [hcommand] at horder
        simp [Command.entry, applyEntry] at horder

theorem Consistent.fill {executor : σ → SimpleExecutor} {m : Market σ} {k : Nat}
    {volume fees future_position : Int} {live : LiveOrder} {exchange : Exchange}
    (h : m.Consistent executor) (hlive : m.exchange.orders[k]? = some live)
    (hfill : m.exchange.fill k volume = some exchange) :
    Consistent executor { m with
      exchange := exchange
      reports := m.reports ++
        [live.traded volume fees, .onPositionUpdate future_position exchange.position] } := by
  generalize hm' : ({ m with
    exchange := exchange
    reports := m.reports ++
      [live.traded volume fees, .onPositionUpdate future_position exchange.position] } :
    Market σ) = m'
  have hdone : ∀ id, id ∈ m'.done ↔
      id ∈ m.done ∨ (volume = live.remaining ∧ id = live.order.id) := by
    intro id
    rw [← hm', done, done, ← List.append_assoc, doneIds_append _ [_, _], List.mem_append,
      doneIds_traded]
    split_ifs with hall <;> simp [hall]
  have hmem : live.order ∈ m.exchange.book := List.mem_map_of_mem (List.mem_of_getElem? hlive)
  refine ⟨by rw [← hm']; exact h.tracks, by rw [← hm']; exact h.limited, ?_, ?_⟩
  · have hprocessed : m'.processed = m.processed := by rw [← hm']
    rw [hprocessed]
    intro id hid
    rcases (hdone id).mp hid with hold | ⟨_, rfl⟩
    · exact h.completed id hold
    · exact ⟨live.order, h.book_inserted hmem, rfl⟩
  · have hexchange : m'.exchange = exchange := by rw [← hm']
    have hprocessed : m'.processed = m.processed := by rw [← hm']
    rw [hexchange, hprocessed]
    obtain ⟨before, traded, after, horders, hget, hcases⟩ := Exchange.fill_book hfill
    rw [hlive] at hget
    cases hget
    rcases hcases with ⟨hall, hbook⟩ | ⟨hpart, hbook⟩
    · have hsplit : m.exchange.book =
          before.map LiveOrder.order ++ live.order :: after.map LiveOrder.order := by
        simp [Exchange.book, horders]
      have hdistinct := h.book_distinct
      rw [hsplit] at hdistinct
      rw [hbook, ← filter_ne_of_increasing hdistinct, ← hsplit, h.book, List.filter_filter]
      apply List.filter_congr
      intro order _
      rw [← Bool.decide_and]
      apply decide_eq_decide.mpr
      rw [hdone, not_or, and_comm]
      simp [hall]
    · rw [hbook, h.book]
      refine List.filter_congr fun order _ => decide_eq_decide.mpr (not_congr ?_)
      rw [hdone]
      simp [hpart]

theorem Consistent.report {executor : σ → SimpleExecutor} {m : Market σ}
    (h : m.Consistent executor) (future_position : Int) :
    Consistent executor { m with
      reports := m.reports ++ [.onPositionUpdate future_position m.exchange.position] } := by
  have hdone : doneIds (m.delivered ++ (m.reports ++ [.onPositionUpdate future_position
      m.exchange.position])) = m.done := by
    rw [← List.append_assoc, doneIds_append]
    exact List.append_nil _
  refine ⟨h.tracks, h.limited, ?_, ?_⟩
  · simp only [done, hdone]
    exact h.completed
  · simp only [done, hdone]
    exact h.book

theorem step_sent {client : Client σ ι} {m m' : Market σ} {action : Action ι}
    (h : m.step client action = some m') : m.sent <+: m'.sent := by
  obtain ⟨input, -, rfl⟩ | ⟨fees, r, rest, -, hflight, rfl⟩ |
    ⟨k, volume, fees, future_position, live, exchange, -, -, -, rfl⟩ |
    ⟨future_position, -, rfl⟩ | ⟨k, report, -, -, rfl⟩ := step_cases h
  · simp [sent]
  · simp [sent, hflight]
  · exact List.prefix_refl _
  · exact List.prefix_refl _
  · exact List.prefix_refl _

theorem playFrom_sent {client : Client σ ι} {m final : Market σ} {actions : List (Action ι)}
    (h : playFrom (step client) m actions = some final) : m.sent <+: final.sent := by
  refine playFrom_invariant (I := fun _ m' => m.sent <+: m'.sent) (List.prefix_refl _) ?_ actions h
  intro _ m' action m'' hold hstep
  exact hold.trans (step_sent hstep)

theorem run_act_sent {client : Client σ ι} {s : σ} {earlier later : List (Action ι)} {input : ι}
    {m final : Market σ} (hearlier : run client s earlier = some m)
    (h : run client s (earlier ++ .act input :: later) = some final) :
    m.sent ++ (client.act m.client input).2 <+: final.sent := by
  obtain ⟨middle, hmiddle, hlater⟩ := playFrom_split h
  rw [run] at hearlier
  rw [hearlier] at hmiddle
  cases hmiddle
  have hsent := playFrom_sent (show playFrom (step client) _ later = some final from hlater)
  simpa [sent] using hsent

theorem Consistent.step {client : Client σ ι} {executor : σ → SimpleExecutor} {m m' : Market σ}
    {action : Action ι} (hosts : Hosts client executor) (h : m.Consistent executor)
    (hstep : m.step client action = some m')
    (hlimit : (inserted m'.sent).length ≤ INSERT_LIMIT) : m'.Consistent executor := by
  obtain ⟨input, -, rfl⟩ | ⟨fees, r, rest, -, hflight, rfl⟩ |
    ⟨k, volume, fees, future_position, live, exchange, -, hlive, hfill, rfl⟩ |
    ⟨future_position, -, rfl⟩ | ⟨k, report, -, hreport, rfl⟩ := step_cases hstep
  · exact h.act hosts (by simpa [sent] using hlimit)
  · exact h.process hflight fees
  · exact h.fill hlive hfill
  · exact h.report future_position
  · exact h.deliver hosts hreport

theorem consistent_start {executor : σ → SimpleExecutor} {s : σ} (h : executor s = .start) :
    (start s).Consistent executor := by
  refine ⟨?_, by simp [sent, start], by simp [done, start, doneIds], rfl⟩
  simp only [start, h]
  exact SimpleExecutor.tracks_start

/-- Every reachable market is consistent for as long as there are ids left. -/
theorem run_consistent {client : Client σ ι} {executor : σ → SimpleExecutor} {s : σ}
    (hosts : Hosts client executor) (hs : executor s = .start) {actions : List (Action ι)}
    {m : Market σ} (h : run client s actions = some m)
    (hlimit : (inserted m.sent).length ≤ INSERT_LIMIT) : m.Consistent executor := by
  refine playFrom_invariant_within (P := fun m => (inserted m.sent).length ≤ INSERT_LIMIT)
    (I := fun _ m => m.Consistent executor) (consistent_start hs) ?_ ?_ actions h hlimit
  · exact fun _ _ _ hstep hroom => Nat.le_trans (inserted_length_mono (step_sent hstep)) hroom
  · exact fun _ _ _ _ hold hstep hroom => hold.step hosts hstep hroom

end Market

end RtoAutotrader
