import RtoAutotrader.WireStreams

namespace RtoAutotrader

/-- The requests whose messages the socket took whole. -/
def wholeRequests (records : List SendRecord) : List Request :=
  (records.filter fun record => record.Whole).map SendRecord.request

/-- The socket takes each message whole or not at all. -/
def AllOrNothing (records : List SendRecord) : Prop :=
  ∀ record ∈ records, record.Whole ∨ record.accepted = []

instance (records : List SendRecord) : Decidable (AllOrNothing records) :=
  inferInstanceAs (Decidable (∀ record ∈ records, record.Whole ∨ record.accepted = []))

theorem AllOrNothing.accepted {records : List SendRecord} (h : AllOrNothing records) :
    acceptedBytes records = (wholeRequests records).flatMap fun r => r.command.bytes := by
  rw [acceptedBytes_settled h, wholeBytes, wholeRequests, List.flatMap_map]

theorem wholeRequests_append (first second : List SendRecord) :
    wholeRequests (first ++ second) = wholeRequests first ++ wholeRequests second := by
  simp [wholeRequests]

theorem process_orders {e : Exchange} {command : Command} (hfits : command.Fits)
    (h : ∀ live ∈ e.orders, FitsInt live.order.id ∧ FitsInt live.order.volume) :
    ∀ live ∈ (e.process command).orders, FitsInt live.order.id ∧ FitsInt live.order.volume := by
  intro live hlive
  cases command with
  | cancelOrder id => exact h live (List.mem_of_mem_filter hlive)
  | insertOrder id side price volume lifespan =>
    rcases List.mem_append.mp hlive with hold | hnew
    · exact h live hold
    · rw [Order.accept] at hnew
      split_ifs at hnew
      · rw [List.mem_singleton.mp hnew]
        exact ⟨hfits.1, hfits.2.2⟩
      · cases hnew

theorem fill_orders {e e' : Exchange} {k : Nat} {volume : Int} (hfill : e.fill k volume = some e')
    (h : ∀ live ∈ e.orders, FitsInt live.order.id ∧ FitsInt live.order.volume) :
    ∀ live ∈ e'.orders, FitsInt live.order.id ∧ FitsInt live.order.volume := by
  intro live hlive
  have hbook := (Exchange.fill_book_sublist hfill).subset (List.mem_map_of_mem hlive)
  obtain ⟨old, hold, heq⟩ := List.mem_map.mp hbook
  rw [← heq]
  exact h old hold

/-- What the socket took whole, the exchange has processed or will read next. -/
structure Carried {π : Type} (results : Nat → SendResult) (w : Wire π)
    (processed inFlight : List Request) : Prop where
  sent : wholeRequests (sends results w.sent) = processed ++ inFlight
  outbound : w.outbound = (if w.credentials = none then loginFrame NAME SECRET else []) ++
    inFlight.flatMap fun r => r.command.bytes
  credentials : ∀ credentials, w.credentials = some credentials → credentials = ⟨NAME, SECRET⟩
  waiting : w.credentials = none → processed = []
  traded : ∃ events, playFrom Exchange.step .start events = some w.exchange ∧
    Exchange.commands events = processed.map Request.command
  ids : w.trader.executor_.IdsFit
  fits : ∀ r ∈ w.sent, r.command.Fits
  orders : ∀ live ∈ w.exchange.orders, FitsInt live.order.id ∧ FitsInt live.order.volume

namespace Carried

variable {π : Type} {results : Nat → SendResult} {w w' : Wire π}
  {processed inFlight : List Request}

theorem flight_fits (h : Carried results w processed inFlight) {r : Request} (hr : r ∈ inFlight) :
    r.command.Fits := by
  have hmem : r ∈ wholeRequests (sends results w.sent) := by
    rw [h.sent]
    exact List.mem_append_right _ hr
  obtain ⟨record, hrecord, rfl⟩ := List.mem_map.mp hmem
  exact h.fits _ (sends_request (List.mem_of_mem_filter hrecord))

theorem login (h : Carried results w processed inFlight) (hnone : w.credentials = none)
    {frame rest : List UInt8} {credentials : Credentials}
    (hcut : cutFrame w.outbound = some (frame, rest)) (hread : readLogin frame = some credentials) :
    Carried results { w with outbound := rest, credentials := some credentials } processed
      inFlight := by
  have houtbound := h.outbound
  rw [if_pos hnone] at houtbound
  rw [houtbound, cutFrame_login (by decide) (by decide)] at hcut
  cases hcut
  rw [readLogin_loginFrame (by decide) (by decide) (by decide) (by decide)] at hread
  cases hread
  refine ⟨h.sent, ?_, ?_, fun hnone => absurd hnone (Option.some_ne_none _), h.traded, h.ids, h.fits,
    h.orders⟩
  · rw [if_neg (Option.some_ne_none _)]
    rfl
  · intro credentials heq
    exact (Option.some.inj heq).symm

/-- The next command on the wire is the first one under way. -/
theorem next (h : Carried results w processed inFlight) {credentials : Credentials}
    (hcredentials : w.credentials = some credentials) {command : Command} {rest : List UInt8}
    (hnext : nextCommand w.outbound = some (command, rest)) :
    ∃ r later, inFlight = r :: later ∧ r.command = command ∧
      rest = later.flatMap fun r => r.command.bytes := by
  have houtbound := h.outbound
  rw [if_neg (by rw [hcredentials]; exact Option.some_ne_none _), List.nil_append] at houtbound
  rw [houtbound] at hnext
  cases inFlight with
  | nil => cases hnext
  | cons r later =>
    rw [List.flatMap_cons, nextCommand_bytes (h.flight_fits List.mem_cons_self)] at hnext
    cases hnext
    exact ⟨r, later, rfl, rfl, rfl⟩

/-- Reports, and an exchange that has gone on by some events. -/
theorem write (h : Carried results w processed inFlight) {exchange : Exchange}
    {reports : List Callback} (hwrite : w.write exchange reports = some w')
    (htraded : ∃ events, playFrom Exchange.step .start events = some exchange ∧
      Exchange.commands events = processed.map Request.command)
    (horders : ∀ live ∈ exchange.orders, FitsInt live.order.id ∧ FitsInt live.order.volume) :
    Carried results w' processed inFlight := by
  obtain ⟨bytes, _, rfl⟩ := Wire.write_eq hwrite
  exact ⟨h.sent, h.outbound, h.credentials, h.waiting, htraded, h.ids, h.fits, horders⟩

theorem process (h : Carried results w processed inFlight) {credentials : Credentials}
    (hcredentials : w.credentials = some credentials) {fees : Int} {r : Request}
    {later : List Request} (hflight : inFlight = r :: later)
    (hwrite : { w with outbound := later.flatMap fun r : Request => r.command.bytes }.write
      (w.exchange.process r.command) (w.exchange.cancelReports fees r.command) = some w') :
    Carried results w' (processed ++ [r]) later := by
  subst hflight
  obtain ⟨bytes, _, rfl⟩ := Wire.write_eq hwrite
  obtain ⟨events, hrun, hcommands⟩ := h.traded
  refine ⟨?_, ?_, h.credentials, ?_, ⟨events ++ [.processed r.command], ?_, ?_⟩, h.ids, h.fits,
    process_orders (h.flight_fits List.mem_cons_self) h.orders⟩
  · rw [List.append_assoc]
    exact h.sent
  · rw [if_neg (by rw [hcredentials]; exact Option.some_ne_none _)]
    rfl
  · exact fun hnone => absurd (hcredentials.symm.trans hnone) (Option.some_ne_none _)
  · rw [playFrom_append, hrun]
    rfl
  · rw [Exchange.commands, List.filterMap_append, show events.filterMap _ = _ from hcommands,
      List.map_append]
    rfl

theorem fill (h : Carried results w processed inFlight) {k : Nat} {volume : Int}
    {exchange : Exchange} {reports : List Callback} (hfill : w.exchange.fill k volume = some exchange)
    (hwrite : w.write exchange reports = some w') : Carried results w' processed inFlight := by
  obtain ⟨events, hrun, hcommands⟩ := h.traded
  refine h.write hwrite ⟨events ++ [.filled k volume], ?_, ?_⟩ (fill_orders hfill h.orders)
  · rw [playFrom_append, hrun]
    exact congrArg (·.bind fun e => some e) hfill
  · rw [Exchange.commands, List.filterMap_append, show events.filterMap _ = _ from hcommands]
    exact List.append_nil _

theorem withInbound (h : Carried results w processed inFlight) (inbound : List UInt8) :
    Carried results { w with inbound := inbound } processed inFlight :=
  ⟨h.sent, h.outbound, h.credentials, h.waiting, h.traded, h.ids, h.fits, h.orders⟩

variable [PricingModel π]

theorem answer_fits {t : AutoTrader π SimpleExecutor} (h : t.executor_.IdsFit) (pass : Pass) :
    (Wire.answer t pass).1.executor_.IdsFit ∧ ∀ r ∈ (Wire.answer t pass).2, r.command.Fits := by
  unfold Wire.answer
  cases pass.callback? with
  | some callback => exact handle_fits h callback
  | none => exact ⟨h, by simp⟩

/-- What a read leads to is added to what is under way, but for the messages refused. -/
theorem read (h : Carried results w processed inFlight) (data : List UInt8)
    (htaken : AllOrNothing (sends results (w.read results data).sent)) :
    ∃ more, wholeRequests (sendsFrom results w.sent.length
        (Wire.answer w.trader (dispatch (w.msg.received data))).2) = more ∧
      Carried results (w.read results data) processed (inFlight ++ more) := by
  obtain ⟨hids, hfits⟩ := answer_fits h.ids (dispatch (w.msg.received data))
  refine ⟨_, rfl, ?_⟩
  simp only [Wire.read, sends_append] at htaken ⊢
  have hnew : AllOrNothing (sendsFrom results w.sent.length
      (Wire.answer w.trader (dispatch (w.msg.received data))).2) :=
    fun record hrecord => htaken record (List.mem_append_right _ hrecord)
  refine ⟨?_, ?_, h.credentials, h.waiting, h.traded, hids, ?_, h.orders⟩
  · rw [sends_append, wholeRequests_append, h.sent, List.append_assoc]
  · simp only [h.outbound, hnew.accepted, List.flatMap_append, List.append_assoc]
  · intro r hr
    rcases List.mem_append.mp hr with hold | hlater
    · exact h.fits r hold
    · exact hfits r hlater

theorem step (h : Carried results w processed inFlight) {action : WireAction}
    (hstep : w.step results action = some w') (htaken : AllOrNothing (sends results w'.sent)) :
    ∃ processed inFlight, Carried results w' processed inFlight := by
  obtain ⟨chunk, -, rfl⟩ | ⟨size, -, -, -, -, rfl⟩ |
    ⟨fees, frame, rest, credentials, -, hnone, hcut, hlogin, rfl⟩ |
    ⟨fees, credentials, command, rest, -, hsome, hnext, hwritten⟩ |
    ⟨k, volume, fees, future_position, live, exchange, -, -, hfill, hwritten⟩ |
    ⟨future_position, -, hwritten⟩ := Wire.step_cases hstep
  · obtain ⟨more, _, hread⟩ := h.read chunk.data htaken
    exact ⟨_, _, hread⟩
  · obtain ⟨more, _, hread⟩ := (h.withInbound _).read _ htaken
    exact ⟨_, _, hread⟩
  · exact ⟨_, _, h.login hnone hcut hlogin⟩
  · obtain ⟨r, later, hflight, rfl, rfl⟩ := h.next hsome hnext
    exact ⟨_, _, h.process hsome hflight hwritten⟩
  · exact ⟨_, _, h.fill hfill hwritten⟩
  · exact ⟨_, _, h.write hwritten h.traded h.orders⟩

end Carried

variable {π : Type}

theorem carried_start (model : π) (results : Nat → SendResult) {login : SendResult}
    (hlogin : LOGIN_MESSAGE_SIZE ≤ login.count) :
    Carried results (Wire.start model login) [] [] where
  sent := rfl
  outbound := by
    have hall : (loginFrame NAME SECRET).take login.count = loginFrame NAME SECRET := by
      apply List.take_of_length_le
      rw [loginFrame_length (by decide) (by decide)]
      exact hlogin
    rw [Wire.start, hall]
    rfl
  credentials _ h := by cases h
  waiting _ := rfl
  traded := ⟨[], rfl, rfl⟩
  ids := start_idsFit
  fits _ h := by cases h
  orders _ h := by cases h

variable [PricingModel π] {model : π} {login : SendResult} {results : Nat → SendResult}

/-- Bytes come in whatever pieces: as long as the socket takes whole messages, the exchange has
processed the first of these and the others are what it reads next. -/
theorem wire_run_carried {actions : List WireAction} {w : Wire π}
    (h : Wire.run model login results actions = some w) (hlogin : LOGIN_MESSAGE_SIZE ≤ login.count)
    (htaken : AllOrNothing (sends results w.sent)) :
    ∃ processed inFlight, Carried results w processed inFlight := by
  refine playFrom_invariant_within (P := fun (w : Wire π) => AllOrNothing (sends results w.sent))
    (I := fun _ (w : Wire π) => ∃ processed inFlight, Carried results w processed inFlight)
    ⟨[], [], carried_start model results hlogin⟩ ?_ ?_ actions h htaken
  · intro w action w' hstep hnow record hrecord
    exact hnow record (sends_mono (Wire.step_sent hstep) hrecord)
  · rintro _ w action w' ⟨processed, inFlight, hcarried⟩ hstep hnow
    exact hcarried.step hstep hnow

end RtoAutotrader
