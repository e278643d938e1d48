import RtoAutotrader.WireStreams

namespace RtoAutotrader

/-- The position a report tells. -/
def Callback.position? : Callback → Option Int
  | .onPositionUpdate _ etf_position => some etf_position
  | _ => none

/-- The position a trader has once it has been told some reports, in order. -/
def lastPosition (position : Int) (reports : List Callback) : Int :=
  reports.foldl (fun position report => report.position?.getD position) position

theorem lastPosition_append (position : Int) (first second : List Callback) :
    lastPosition position (first ++ second) = lastPosition (lastPosition position first) second :=
  List.foldl_append

theorem lastPosition_silent {reports : List Callback} (h : ∀ report ∈ reports, report.position? = none)
    (position : Int) : lastPosition position reports = position := by
  induction reports with
  | nil => rfl
  | cons report reports ih =>
    rw [lastPosition, List.foldl_cons, h report List.mem_cons_self]
    exact ih fun other hother => h other (List.mem_cons_of_mem report hother)

theorem cancelReports_silent {e : Exchange} {fees : Int} {command : Command} {report : Callback}
    (h : report ∈ e.cancelReports fees command) : report.position? = none := by
  cases command with
  | insertOrder id side price volume lifespan => cases h
  | cancelOrder id =>
    obtain ⟨live, _, rfl⟩ := List.mem_map.mp h
    rfl

variable {π : Type}

/-- A datagram is a whole order book, and a read of the stream gets its first frame and no more. -/
def WireAction.Exact (w : Wire π) : WireAction → Prop
  | .datagram chunk => chunk.data.length = MESSAGE_SIZE ∧
      chunk.data.getD 2 0 = ORDER_BOOK_UPDATE_MESSAGE_TYPE
  | .receive size => (cutFrame w.inbound).map (fun cut => cut.1.length) = some size
  | _ => True

instance (w : Wire π) : DecidablePred (WireAction.Exact w)
  | .datagram chunk => inferInstanceAs (Decidable (chunk.data.length = MESSAGE_SIZE ∧
      chunk.data.getD 2 0 = ORDER_BOOK_UPDATE_MESSAGE_TYPE))
  | .receive size =>
    inferInstanceAs (Decidable ((cutFrame w.inbound).map (fun cut => cut.1.length) = some size))
  | .process _ => isTrue trivial
  | .fill _ _ _ _ => isTrue trivial
  | .report _ => isTrue trivial

namespace Wire

variable {results : Nat → SendResult} {w w' : Wire π}

/-- Once it has read all that is under way, the trader has the exchange's position. -/
def Informed (w : Wire π) : Prop := ∃ reports, encodeReports reports = some w.inbound ∧
  lastPosition w.trader.executor_.position_ reports = w.exchange.position

theorem Informed.write {exchange : Exchange} {reports : List Callback} (h : w.Informed)
    (hwrite : w.write exchange reports = some w')
    (hposition : lastPosition w.exchange.position reports = exchange.position) : w'.Informed := by
  obtain ⟨earlier, hearlier, hinformed⟩ := h
  obtain ⟨bytes, hbytes, rfl⟩ := write_eq hwrite
  refine ⟨earlier ++ reports, encodeReports_append hearlier hbytes, ?_⟩
  rw [lastPosition_append, hinformed, hposition]

theorem Informed.heard (h : w.Informed) (hread : w.inbound = []) :
    w.trader.executor_.position_ = w.exchange.position := by
  obtain ⟨reports, hreports, hinformed⟩ := h
  rw [hread] at hreports
  obtain rfl := encodeReports_nil hreports
  exact hinformed

variable [PricingModel π]

theorem receive_position (t : AutoTrader π SimpleExecutor) (report : Callback) :
    (traderClient.receive t report).executor_.position_ =
      report.position?.getD t.executor_.position_ := by
  cases report <;> rfl

def exactStep (results : Nat → SendResult) (w : Wire π) (action : WireAction) : Option (Wire π) :=
  if action.Exact w then w.step results action else none

def exactRun (model : π) (login : SendResult) (results : Nat → SendResult)
    (actions : List WireAction) : Option (Wire π) :=
  playFrom (exactStep results) (start model login) actions

theorem exactStep_step {action : WireAction} (h : w.exactStep results action = some w') :
    action.Exact w ∧ w.step results action = some w' := by
  unfold exactStep at h
  split_ifs at h with hexact
  exact ⟨hexact, h⟩

/-- All that an action can do when the reports under way are the given ones. -/
theorem exactStep_cases {action : WireAction} {reports : List Callback}
    (hreports : encodeReports reports = some w.inbound) (h : w.exactStep results action = some w') :
    (∃ frame : BookFrame, action = .datagram frame.chunk ∧ w' = w.read results frame.bytes) ∨
    (∃ report later frame rest, action = .receive frame.encode.length ∧ reports = report :: later ∧
      report.frame? = some frame ∧ encodeReports later = some rest ∧
      w.inbound = frame.encode ++ rest ∧
      w' = { w with inbound := rest }.read results frame.encode) ∨
    (∃ fees frame rest credentials, action = .process fees ∧ w.credentials = none ∧
      cutFrame w.outbound = some (frame, rest) ∧ readLogin frame = some credentials ∧
      w' = { w with outbound := rest, credentials := some credentials }) ∨
    (∃ fees credentials command rest, action = .process fees ∧ w.credentials = some credentials ∧
      nextCommand w.outbound = some (command, rest) ∧ { w with outbound := rest }.write
        (w.exchange.process command) (w.exchange.cancelReports fees command) = some w') ∨
    (∃ k volume fees future_position live exchange,
      action = .fill k volume fees future_position ∧ w.exchange.orders[k]? = some live ∧
      w.exchange.fill k volume = some exchange ∧ w.write exchange [live.traded volume fees,
        .onPositionUpdate future_position exchange.position] = some w') ∨
    ∃ future_position, action = .report future_position ∧ w.write w.exchange
      [.onPositionUpdate future_position w.exchange.position] = some w' := by
  obtain ⟨hexact, hstep⟩ := exactStep_step h
  obtain ⟨chunk, rfl, rfl⟩ | ⟨size, rfl, -, -, -, rfl⟩ | hrest := step_cases hstep
  · exact Or.inl ⟨⟨chunk.data, hexact.1, hexact.2⟩, rfl, rfl⟩
  · obtain ⟨⟨data, later⟩, hcut, rfl⟩ := Option.map_eq_some_iff.mp hexact
    cases reports with
    | nil =>
      rw [← Option.some.inj hreports] at hcut
      cases hcut
    | cons report reports =>
      obtain ⟨frame, rest, hframe, hrest, hbytes⟩ := encodeReports_cons hreports
      rw [hbytes, cutFrame_encode hframe] at hcut
      cases hcut
      refine Or.inr (Or.inl ⟨report, reports, frame, later, rfl, rfl, hframe, hrest, hbytes, ?_⟩)
      rw [hbytes, List.take_left' rfl, List.drop_left' rfl]
  · exact Or.inr (Or.inr hrest)

theorem read_called {data : List UInt8} {callback : Callback}
    (hcalled : dispatch (w.msg.received data) = .called callback) :
    w.read results data = { w with
      msg := w.msg.received data
      trader := (w.trader.handle callback).1
      outbound := w.outbound ++
        acceptedBytes (sendsFrom results w.sent.length (w.trader.handle callback).2)
      sent := w.sent ++ (w.trader.handle callback).2
      heard := w.heard ++ [data] } := by
  simp only [Wire.read, hcalled]
  rfl

theorem handle_report (t : AutoTrader π SimpleExecutor) {report : Callback} {frame : Frame}
    (h : report.frame? = some frame) : t.handle report = (traderClient.receive t report, []) := by
  cases report with
  | onOrderBookUpdate update => cases h
  | onOrderStatusUpdate id fill_volume remaining_volume fees => rfl
  | onPositionUpdate future_position etf_position => rfl

/-- What the trader reads of a report. -/
theorem read_report (results : Nat → SendResult) {report : Callback} {frame : Frame}
    (hframe : report.frame? = some frame) (w : Wire π) : dispatch (w.msg.received frame.encode) = .called report ∧
      w.read results frame.encode = { w with
        msg := w.msg.received frame.encode
        trader := traderClient.receive w.trader report
        heard := w.heard ++ [frame.encode] } := by
  have hstarts : Starts frame.encode frame := ⟨[], by rw [List.append_nil, Frame.encode_drop]⟩
  have hcalled := dispatch_of_starts w.msg hstarts (Callback.frame?_callback hframe)
  refine ⟨hcalled, ?_⟩
  rw [read_called hcalled, handle_report _ hframe]
  simp only [sendsFrom, List.zipIdx_nil, List.map_nil, acceptedBytes, List.flatMap_nil, List.append_nil]

theorem Informed.step {action : WireAction} (h : w.Informed)
    (hstep : w.exactStep results action = some w') : w'.Informed := by
  obtain ⟨reports, hreports, hinformed⟩ := h
  obtain ⟨frame, -, rfl⟩ | ⟨report, later, frame, rest, -, rfl, hframe, hrest, -, rfl⟩ |
    ⟨fees, frame, rest, credentials, -, -, -, -, rfl⟩ |
    ⟨fees, credentials, command, rest, -, -, -, hwritten⟩ |
    ⟨k, volume, fees, future_position, live, exchange, -, -, -, hwritten⟩ |
    ⟨future_position, -, hwritten⟩ := exactStep_cases hreports hstep
  · refine ⟨reports, hreports, ?_⟩
    rw [read_called (frame.dispatch_received w.msg), ← hinformed]
    exact congrArg (lastPosition · reports) (SimpleExecutor.executeTrades_position _ _ _)
  · refine ⟨later, ?_, ?_⟩
    · rw [(read_report results hframe { w with inbound := rest }).2]
      exact hrest
    · rw [(read_report results hframe { w with inbound := rest }).2, ← hinformed, receive_position]
      rfl
  · exact ⟨reports, hreports, hinformed⟩
  · have hkept : { w with outbound := rest }.Informed := ⟨reports, hreports, hinformed⟩
    apply hkept.write hwritten
    rw [lastPosition_silent fun _ => cancelReports_silent, Exchange.process_position]
  · exact Informed.write ⟨reports, hreports, hinformed⟩ hwritten rfl
  · exact Informed.write ⟨reports, hreports, hinformed⟩ hwritten rfl

theorem exactRun_informed {model : π} {login : SendResult} {actions : List WireAction}
    (h : exactRun model login results actions = some w) : w.Informed :=
  playFrom_invariant (I := fun _ w => Informed w) ⟨[], rfl, rfl⟩
    (fun _ _ _ _ hold hstep => hold.step hstep) actions h

end Wire

/-- A trader whose reads have got the frames one at a time, all there were, has the exchange's
position, whatever has become of what it has sent. -/
theorem wire_position_heard [PricingModel π] (model : π) (login : SendResult) (results : Nat → SendResult)
    (actions : List WireAction) (w : Wire π)
    (h : Wire.exactRun model login results actions = some w) (hread : w.inbound = []) :
    w.trader.executor_.position_ = w.exchange.position :=
  (Wire.exactRun_informed h).heard hread

/-- A bid has traded, and the trader has read of it. -/
def filledWire? : Option (Wire FutureMidpoint) :=
  Wire.exactRun FutureMidpoint.start (.accepted 73) (fun _ => .accepted 17)
    [.datagram olderFrame.chunk, .process 0, .process 0, .process 0, .fill 0 10 0 0, .receive 19,
      .receive 11]

theorem filledWire_exists : filledWire?.isSome := by decide

def filledWire : Wire FutureMidpoint := filledWire?.get filledWire_exists

theorem filledWire_run : filledWire? = some filledWire := (Option.some_get filledWire_exists).symm

theorem filledWire_position_heard :
    filledWire.trader.executor_.position_ = filledWire.exchange.position :=
  wire_position_heard _ _ _ _ filledWire filledWire_run (by decide)

/-- A read of both frames of the trade loses the position. -/
example : (Wire.run FutureMidpoint.start (.accepted 73) (fun _ => .accepted 17)
    [.datagram olderFrame.chunk, .process 0, .process 0, .process 0, .fill 0 10 0 0,
      .receive 30]).map (fun w => (w.trader.executor_.position_, w.exchange.position, w.inbound)) =
      some (0, 10, []) := by decide

end RtoAutotrader
