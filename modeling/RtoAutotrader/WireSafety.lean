import RtoAutotrader.MainFaults
import RtoAutotrader.Uncrossed
import RtoAutotrader.WireCarries

namespace RtoAutotrader

theorem encodeReports_exists {reports : List Callback}
    (h : ∀ report ∈ reports, ∃ frame, report.frame? = some frame) :
    ∃ bytes, encodeReports reports = some bytes := by
  induction reports with
  | nil => exact ⟨[], rfl⟩
  | cons report reports ih =>
    obtain ⟨frame, hframe⟩ := h report List.mem_cons_self
    obtain ⟨rest, hrest⟩ := ih fun other hother => h other (List.mem_cons_of_mem report hother)
    exact ⟨frame.encode ++ rest, by rw [encodeReports, hframe, hrest]; rfl⟩

theorem encode_cancelReports {e : Exchange} (command : Command) {fees : Int} (hfees : FitsInt fees)
    (h : ∀ live ∈ e.orders, FitsInt live.order.id ∧ FitsInt live.order.volume) :
    ∃ bytes, encodeReports (e.cancelReports fees command) = some bytes := by
  apply encodeReports_exists
  intro report hreport
  cases command with
  | insertOrder id side price volume lifespan => cases hreport
  | cancelOrder id =>
    obtain ⟨live, hlive, rfl⟩ := List.mem_map.mp hreport
    obtain ⟨hid, hvolume⟩ := h live (List.mem_of_mem_filter hlive)
    have hpositive := live.positive
    have hwithin := live.within
    have hfilled : FitsInt (live.order.volume - live.remaining) := by
      unfold FitsInt at hvolume ⊢
      omega
    exact ⟨_, dif_pos ⟨hid, hfilled, by decide, hfees⟩⟩

variable {π : Type} [PricingModel π]

/-- The exchange can read what is on its stream. -/
theorem Carried.process_iff {results : Nat → SendResult} {w : Wire π}
    {processed inFlight : List Request} (h : Carried results w processed inFlight) {fees : Int}
    (hfees : FitsInt fees) : (w.step results (.process fees)).isSome ↔ w.outbound ≠ [] := by
  have houtbound := h.outbound
  cases hcredentials : w.credentials with
  | none =>
    rw [if_pos hcredentials] at houtbound
    have hnonempty : w.outbound ≠ [] := by
      rw [houtbound]
      exact List.cons_ne_nil _ _
    have hcut : cutFrame w.outbound = some (loginFrame NAME SECRET,
        inFlight.flatMap fun r => r.command.bytes) := by
      rw [houtbound]
      exact cutFrame_login (by decide) (by decide) _
    have hlogin : readLogin (loginFrame NAME SECRET) = some ⟨NAME, SECRET⟩ :=
      readLogin_loginFrame (by decide) (by decide) (by decide) (by decide)
    simp only [Wire.step, hcredentials, hcut, Option.bind_eq_bind, Option.bind_some, hlogin]
    exact ⟨fun _ => hnonempty, fun _ => rfl⟩
  | some credentials =>
    rw [if_neg (by rw [hcredentials]; exact Option.some_ne_none _), List.nil_append] at houtbound
    simp only [Wire.step, hcredentials]
    cases inFlight with
    | nil =>
      rw [List.flatMap_nil] at houtbound
      rw [houtbound]
      exact ⟨fun hsome => (by cases hsome), fun hne => absurd rfl hne⟩
    | cons r later =>
      rw [List.flatMap_cons] at houtbound
      obtain ⟨bytes, hbytes⟩ := encode_cancelReports r.command hfees h.orders
      have hnonempty : w.outbound ≠ [] := by
        rw [houtbound]
        exact List.append_ne_nil_of_left_ne_nil r.command.bytes_ne_nil _
      have hnext := nextCommand_bytes (h.flight_fits List.mem_cons_self)
        (later.flatMap fun r => r.command.bytes)
      rw [← houtbound] at hnext
      simp only [hnext, Option.bind_eq_bind, Option.bind_some, Wire.write, hbytes]
      exact ⟨fun _ => hnonempty, fun _ => rfl⟩

/-- However the bytes are cut up and delayed, an exchange to which each message gets whole or not
at all can always read what is on its stream, and has processed the first of the commands that
got there. -/
theorem wire_never_stuck (model : π) (login : SendResult) (results : Nat → SendResult)
    (actions : List WireAction) (w : Wire π) (h : Wire.run model login results actions = some w)
    (hlogin : LOGIN_MESSAGE_SIZE ≤ login.count) (htaken : AllOrNothing (sends results w.sent)) :
    (∀ fees, FitsInt fees → ((w.step results (.process fees)).isSome ↔ w.outbound ≠ [])) ∧
      ∃ events, playFrom Exchange.step .start events = some w.exchange ∧
        Exchange.commands events <+:
          (wholeRequests (sends results w.sent)).map Request.command := by
  obtain ⟨processed, inFlight, hcarried⟩ := wire_run_carried h hlogin htaken
  obtain ⟨events, hrun, hcommands⟩ := hcarried.traded
  refine ⟨fun _ hfees => hcarried.process_iff hfees, events, hrun, ?_⟩
  rw [hcommands, hcarried.sent, List.map_append]
  exact List.prefix_append _ _

/-- The bid of the first book is refused, and all else taken. -/
def bookResults (i : Nat) : SendResult := if i = 0 then .failed else .accepted 17

/-- The exchange has read the login and the ask of a book, and has filled a part of it. The trader
has read the reports of this in two pieces, and then a book at another price. The exchange has
read the cancel of the bid that it has not got. -/
def bookWire? : Option (Wire FutureMidpoint) :=
  Wire.run FutureMidpoint.start (.accepted 73) bookResults
    [.datagram olderFrame.chunk, .process 0, .process 0, .fill 0 4 3 0, .receive 20, .receive 10,
      .datagram newerFrame.chunk, .process 0]

theorem bookWire_exists : bookWire?.isSome := by decide

def bookWire : Wire FutureMidpoint := bookWire?.get bookWire_exists

theorem bookWire_run : bookWire? = some bookWire := (Option.some_get bookWire_exists).symm

theorem bookWire_never_stuck :
    (∀ fees, FitsInt fees →
      ((bookWire.step bookResults (.process fees)).isSome ↔ bookWire.outbound ≠ [])) ∧
      ∃ events, playFrom Exchange.step .start events = some bookWire.exchange ∧
        Exchange.commands events <+:
          (wholeRequests (sends bookResults bookWire.sent)).map Request.command :=
  wire_never_stuck _ _ _ _ bookWire bookWire_run (by decide) (by decide)

theorem wholeRequests_prefix {records : List SendRecord} {requests : List Request}
    (h : requests <+: wholeRequests records) :
    ∃ first, first <+: records ∧ requests = wholeRequests first := by
  obtain ⟨whole, hwhole, rfl⟩ := List.prefix_map_iff.mp h
  obtain ⟨first, hfirst, rfl⟩ := List.prefix_filter_iff.mp hwhole
  exact ⟨first, hfirst, rfl⟩

/-- What gets to the exchange opens no more than what is sent if every cancel gets there. -/
theorem wholeRequests_openOrders {records : List SendRecord}
    (h : ∀ side, CancelsWhole records side) : (openOrders (wholeRequests records)).Sublist
      (openOrders (records.map SendRecord.request)) := by
  rw [openOrders, openOrders, wholeRequests, List.map_map, List.map_map]
  apply replay_filter_sublist
  intro record hrecord hpart
  cases hcommand : record.request.command with
  | insertOrder id side price volume lifespan =>
    exact ⟨_, by rw [Function.comp_apply, hcommand]; rfl⟩
  | cancelOrder id => exact absurd (h _ record hrecord rfl id hcommand) (of_decide_eq_false hpart)

/-- However the bytes are cut up and delayed, and whichever inserts are refused, the orders that
live at the exchange do not cross, and are at multiples of 100. -/
theorem wire_uncrossed (login : SendResult) (results : Nat → SendResult)
    (actions : List WireAction) (w : Wire FutureMidpoint)
    (h : Wire.run FutureMidpoint.start login results actions = some w)
    (hlogin : LOGIN_MESSAGE_SIZE ≤ login.count) (htaken : AllOrNothing (sends results w.sent))
    (hcancels : ∀ side, CancelsWhole (sends results w.sent) side)
    (hlimit : (inserted w.sent).length ≤ INSERT_LIMIT) : Uncrossed w.exchange.orders := by
  obtain ⟨processed, inFlight, hcarried⟩ := wire_run_carried h hlogin htaken
  obtain ⟨events, hrun, hcommands⟩ := hcarried.traded
  have hprocessed : processed <+: wholeRequests (sends results w.sent) :=
    ⟨inFlight, hcarried.sent.symm⟩
  obtain ⟨first, hfirst, rfl⟩ := wholeRequests_prefix hprocessed
  have hlog := hfirst.map SendRecord.request
  rw [sends_requests] at hlog
  have hsent := Wire.run_sent h
  rw [hsent] at hlimit
  obtain ⟨mid, hmid, haround⟩ := trader_quotesAround w.callbacks hlimit
  apply (haround.history _ (hsent ▸ hlog)).uncrossed
  intro live hlive
  have hbook := Exchange.run_book_sublist hrun ?_
  · rw [openOrders_of_commands hcommands] at hbook
    have hopen := wholeRequests_openOrders fun side record hrecord =>
      hcancels side record (hfirst.subset hrecord)
    exact hopen.subset (hbook.subset (List.mem_map_of_mem hlive))
  · intro id side price volume lifespan hmem
    rw [hcommands] at hmem
    obtain ⟨r, hr, hcommand⟩ := List.mem_map.mp hmem
    obtain ⟨record, hrecord, rfl⟩ := List.mem_map.mp hr
    have hmade := hlog.subset (List.mem_map_of_mem (List.mem_of_mem_filter hrecord))
    rw [hsent] at hmade
    have hlimited := runFrom_outputs AutoTrader.handle_limited _ _ _ hmade id side price volume
      lifespan hcommand
    omega

theorem bookWire_uncrossed : Uncrossed bookWire.exchange.orders := by
  refine wire_uncrossed _ _ _ bookWire bookWire_run (by decide) (by decide) ?_ (by decide)
  intro side record hrecord hside id hcancel
  have hwhole : ∀ record ∈ sends bookResults bookWire.sent,
      record.Whole ∨ record.request.command.entry.opened?.isSome := by decide
  rcases hwhole record hrecord with hwhole | hinsert
  · exact hwhole
  · rw [hcancel] at hinsert
    cases hinsert

end RtoAutotrader
