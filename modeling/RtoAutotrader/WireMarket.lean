import RtoAutotrader.ExactReads
import RtoAutotrader.WireCarries

namespace RtoAutotrader

/-- The socket takes every message whole. -/
def AllWhole (records : List SendRecord) : Prop := ∀ record ∈ records, record.Whole

instance (records : List SendRecord) : Decidable (AllWhole records) :=
  inferInstanceAs (Decidable (∀ record ∈ records, record.Whole))

theorem AllWhole.allOrNothing {records : List SendRecord} (h : AllWhole records) :
    AllOrNothing records := fun record hrecord => Or.inl (h record hrecord)

theorem AllWhole.requests {records : List SendRecord} (h : AllWhole records) :
    wholeRequests records = records.map SendRecord.request := by
  rw [wholeRequests, List.filter_eq_self.mpr fun record hrecord => decide_eq_true (h record hrecord)]

variable {π : Type} {results : Nat → SendResult}

/-- The byte level and the market that stands for it. -/
structure Related (results : Nat → SendResult) (w : Wire π)
    (m : Market (AutoTrader π SimpleExecutor)) : Prop where
  trader : w.trader = m.client
  exchange : w.exchange = m.exchange
  inbound : encodeReports m.reports = some w.inbound
  carried : Carried results w m.processed m.inFlight
  msg : w.msg = w.heard.foldl Message.received Message.zero
  done : doneIds w.callbacks = doneIds m.delivered

namespace Related

variable {w w' : Wire π} {m : Market (AutoTrader π SimpleExecutor)}

theorem sent (h : Related results w m) (htaken : AllWhole (sends results w.sent)) :
    w.sent = m.sent := by
  have hsent := h.carried.sent
  rw [htaken.requests, sends_requests] at hsent
  exact hsent

theorem no_reports (h : Related results w m) (hnone : w.inbound = []) : m.reports = [] :=
  encodeReports_nil (hnone ▸ h.inbound)

theorem no_flight (h : Related results w m) (hnone : w.outbound = []) : m.inFlight = [] := by
  have houtbound := h.carried.outbound
  rw [hnone] at houtbound
  have hbytes := (List.append_eq_nil_iff.mp houtbound.symm).2
  cases hflight : m.inFlight with
  | nil => rfl
  | cons r later =>
    have hfirst := List.flatMap_eq_nil_iff.mp hbytes r (by rw [hflight]; exact List.mem_cons_self)
    exact absurd hfirst r.command.bytes_ne_nil

/-- The exchange goes on in the same way in both, and writes the same reports. -/
theorem write (h : Related results w m) (outbound : List UInt8) {exchange : Exchange}
    {reports : List Callback} (hwrite : { w with outbound := outbound }.write exchange reports = some w')
    {processed inFlight : List Request} (hcarried : Carried results w' processed inFlight)
    (accepted : List (Int × Int)) :
    Related results w' { m with
      processed := processed
      inFlight := inFlight
      exchange := exchange
      reports := m.reports ++ reports
      accepted := accepted } := by
  obtain ⟨bytes, hbytes, rfl⟩ := Wire.write_eq hwrite
  exact ⟨h.trader, rfl, encodeReports_append h.inbound hbytes, hcarried, h.msg, h.done⟩

theorem start (model : π) {login : SendResult} (hlogin : LOGIN_MESSAGE_SIZE ≤ login.count) :
    Related results (Wire.start model login) (Market.start (newTrader model)) :=
  ⟨rfl, rfl, rfl, carried_start model results hlogin, rfl, rfl⟩

variable [PricingModel π]

theorem callbacks_read {data : List UInt8} {callback : Callback}
    (hmsg : w.msg = w.heard.foldl Message.received Message.zero)
    (hcalled : dispatch (w.msg.received data) = .called callback) :
    (w.read results data).callbacks = w.callbacks ++ [callback] := by
  rw [Wire.callbacks, Wire.passes_read results hmsg, hcalled, List.filterMap_append]
  rfl

theorem answer_called {t : AutoTrader π SimpleExecutor} {pass : Pass} {callback : Callback}
    (h : pass = .called callback) : Wire.answer t pass = t.handle callback := by
  rw [h]
  rfl

theorem datagram (h : Related results w m) (frame : BookFrame)
    (htaken : AllWhole (sends results (w.read results frame.bytes).sent)) :
    Related results (w.read results frame.bytes) { m with
      client := (traderClient.act m.client frame.message.book).1
      inFlight := m.inFlight ++ (traderClient.act m.client frame.message.book).2 } := by
  have hcalled := frame.dispatch_received w.msg
  obtain ⟨more, hmore, hcarried⟩ := h.carried.read frame.bytes htaken.allOrNothing
  rw [answer_called hcalled, h.trader] at hmore
  have hwhole : AllWhole (sendsFrom results w.sent.length
      (m.client.handle (.onOrderBookUpdate frame.message.book)).2) := by
    intro record hrecord
    apply htaken record
    rw [Wire.read_called hcalled, h.trader, sends_append]
    exact List.mem_append_right _ hrecord
  have hrequests : more = (traderClient.act m.client frame.message.book).2 := by
    rw [← hmore, hwhole.requests, sendsFrom, List.map_map]
    exact List.zipIdx_map_fst _ _
  subst hrequests
  refine ⟨?_, h.exchange, h.inbound, hcarried, Wire.msg_read results h.msg frame.bytes, ?_⟩
  · rw [Wire.read_called hcalled, h.trader]
    rfl
  · rw [callbacks_read h.msg hcalled, Market.doneIds_append, h.done]
    exact List.append_nil _

theorem receive {report : Callback} {reports : List Callback} {rest : List UInt8} {frame : Frame}
    (h : Related results w m) (hframe : report.frame? = some frame)
    (hrest : encodeReports reports = some rest) :
    Related results ({ w with inbound := rest }.read results frame.encode) { m with
      client := traderClient.receive m.client report
      reports := reports
      delivered := m.delivered ++ [report] } := by
  obtain ⟨hcalled, hread⟩ := Wire.read_report results hframe { w with inbound := rest }
  have hcallbacks : ({ w with inbound := rest }.read results frame.encode).callbacks =
      w.callbacks ++ [report] := callbacks_read h.msg hcalled
  have hheard : ({ w with inbound := rest }.read results frame.encode).msg =
      ({ w with inbound := rest }.read results frame.encode).heard.foldl Message.received
        Message.zero := Wire.msg_read results h.msg frame.encode
  have hids := (handle_fits h.carried.ids report).1
  rw [Wire.handle_report _ hframe] at hids
  have hcarried := h.carried
  refine ⟨?_, ?_, ?_, ?_, hheard, ?_⟩
  · rw [hread, h.trader]
  · rw [hread]
    exact h.exchange
  · rw [hread]
    exact hrest
  · rw [hread]
    exact ⟨hcarried.sent, hcarried.outbound, hcarried.credentials, hcarried.waiting, hcarried.traded,
      hids, hcarried.fits, hcarried.orders⟩
  · rw [hcallbacks, Market.doneIds_append, Market.doneIds_append, h.done]

/-- What the wire does, the market does in at most one step, reports in order. A datagram is its
only book. -/
theorem step (h : Related results w m) {action : WireAction}
    (hstep : w.exactStep results action = some w') (htaken : AllWhole (sends results w'.sent)) :
    ∃ m', Related results w' m' ∧ (m' = m ∨ ∃ step, m.step traderClient step = some m' ∧
      ∀ update, step = .act update → ∃ chunk, action = .datagram chunk) := by
  obtain ⟨frame, rfl, rfl⟩ | ⟨report, later, frame, rest, -, hreports, hframe, hrest, -, rfl⟩ |
    ⟨fees, frame, rest, credentials, -, hnone, hcut, hlogin, rfl⟩ |
    ⟨fees, credentials, command, rest, -, hsome, hnext, hwritten⟩ |
    ⟨k, volume, fees, future_position, live, exchange, -, hlive, hfill, hwritten⟩ |
    ⟨future_position, -, hwritten⟩ := Wire.exactStep_cases h.inbound hstep
  · exact ⟨_, h.datagram frame htaken, Or.inr ⟨.act frame.message.book, rfl, fun _ _ => ⟨_, rfl⟩⟩⟩
  · refine ⟨_, h.receive hframe hrest, Or.inr ⟨.deliver 0, ?_, fun _ heq => by cases heq⟩⟩
    simp only [Market.step, hreports, List.getElem?_cons_zero, List.eraseIdx_cons_zero]
  · exact ⟨m, ⟨h.trader, h.exchange, h.inbound, h.carried.login hnone hcut hlogin, h.msg, h.done⟩,
      Or.inl rfl⟩
  · obtain ⟨r, later, hflight, rfl, rfl⟩ := h.carried.next hsome hnext
    have hcarried := h.carried.process hsome hflight hwritten
    refine ⟨_, h.write _ hwritten hcarried (m.accepted ++ m.acceptedBy r),
      Or.inr ⟨.process fees, ?_, fun _ heq => by cases heq⟩⟩
    simp only [Market.step, hflight, h.exchange]
  · have hcarried := h.carried.fill hfill hwritten
    rw [h.exchange] at hlive hfill
    refine ⟨_, h.write _ hwritten hcarried m.accepted, Or.inr ⟨.fill k volume fees future_position, ?_,
      fun _ heq => by cases heq⟩⟩
    simp only [Market.step, hlive, hfill]
  · have hcarried := h.carried.write hwritten h.carried.traded h.carried.orders
    refine ⟨_, h.write _ hwritten hcarried m.accepted, Or.inr ⟨.report future_position, ?_,
      fun _ heq => by cases heq⟩⟩
    rw [h.exchange]
    rfl

end Related

theorem AllWhole.earlier [PricingModel π] {w w' : Wire π} {action : WireAction}
    (h : AllWhole (sends results w'.sent)) (hstep : w.exactStep results action = some w') :
    AllWhole (sends results w.sent) := fun record hrecord =>
  h record (sends_mono (Wire.step_sent (Wire.exactStep_step hstep).2) hrecord)

/-- What happens on the wire happens in a market, if reads are exact and messages taken whole. -/
theorem exactRun_related [PricingModel π] {model : π} {login : SendResult}
    {actions : List WireAction} {w : Wire π}
    (h : Wire.exactRun model login results actions = some w)
    (hlogin : LOGIN_MESSAGE_SIZE ≤ login.count) (htaken : AllWhole (sends results w.sent)) :
    ∃ actions' m, Market.run traderClient (newTrader model) actions' = some m ∧
      Related results w m := by
  refine playFrom_invariant_within (P := fun (w : Wire π) => AllWhole (sends results w.sent))
    (I := fun _ (w : Wire π) => ∃ actions' m,
      Market.run traderClient (newTrader model) actions' = some m ∧ Related results w m)
    ⟨[], _, rfl, Related.start model hlogin⟩ (fun _ _ _ hstep hnow => hnow.earlier hstep) ?_ actions h
    htaken
  rintro _ w action w' ⟨actions', m, hrun, hrelated⟩ hstep hnow
  obtain ⟨m', hrelated', rfl | ⟨next, hnext, _⟩⟩ := hrelated.step hstep hnow
  · exact ⟨actions', m', hrun, hrelated'⟩
  · refine ⟨actions' ++ [next], m', ?_, hrelated'⟩
    have hlast : playFrom (Market.step traderClient) m [next] = some m' := by
      rw [playFrom, hnext]
      rfl
    rw [Market.run, playFrom_append, show playFrom (Market.step traderClient)
      (Market.start (newTrader model)) actions' = some m from hrun]
    exact hlast

end RtoAutotrader
