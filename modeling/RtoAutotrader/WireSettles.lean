import RtoAutotrader.WireMarket
import RtoAutotrader.WireSafety

namespace RtoAutotrader

theorem cutFrame_shorter {stream frame rest : List UInt8}
    (h : cutFrame stream = some (frame, rest)) : rest.length < stream.length := by
  simp only [cutFrame] at h
  split_ifs at h with hsize
  cases h
  rw [List.length_drop]
  omega

theorem encode_length_le {report : Callback} {frame : Frame} (h : report.frame? = some frame) :
    frame.encode.length ≤ 19 := by
  cases report with
  | onOrderBookUpdate update => cases h
  | onOrderStatusUpdate id fill_volume remaining_volume fees =>
    simp only [Callback.frame?] at h
    split_ifs at h
    cases h
    simp [Frame.encode, Frame.body]
  | onPositionUpdate future_position etf_position =>
    simp only [Callback.frame?] at h
    split_ifs at h
    cases h
    simp [Frame.encode, Frame.body]

theorem encodeReports_length_le {reports : List Callback} {bytes : List UInt8}
    (h : encodeReports reports = some bytes) : bytes.length ≤ 19 * reports.length := by
  induction reports generalizing bytes with
  | nil =>
    cases h
    exact Nat.le_refl 0
  | cons report reports ih =>
    obtain ⟨frame, rest, hframe, hrest, rfl⟩ := encodeReports_cons h
    have hfirst := encode_length_le hframe
    have hlater := ih hrest
    rw [List.length_append, List.length_cons]
    omega

/-- Each order that a command takes away is reported, and at most one is added. -/
theorem process_orders_length (e : Exchange) (fees : Int) (command : Command) :
    (e.process command).orders.length + (e.cancelReports fees command).length ≤
      e.orders.length + 1 := by
  cases command with
  | insertOrder id side price volume lifespan =>
    simp only [Exchange.process, Exchange.cancelReports, Order.accept]
    split_ifs <;> simp
  | cancelOrder id =>
    have hboth := List.length_eq_length_filter_add (l := e.orders) fun live => live.order.id = id
    simp only [Exchange.process, Exchange.cancelReports, List.length_map]
    simp only [ne_eq, decide_not]
    omega

variable {π : Type} {results : Nat → SendResult}

theorem Related.book_settled {w : Wire π} {m : Market (AutoTrader π SimpleExecutor)}
    (h : Related results w m) (hconsistent : m.Consistent AutoTrader.executor_)
    (houtbound : w.outbound = []) (hinbound : w.inbound = []) (side : Side) :
    ordersOn side w.exchange.book =
      (w.trader.executor_.quote side).filter fun order => order.id ∉ doneIds w.callbacks := by
  have hdone : m.done = doneIds w.callbacks := by
    rw [Market.done, h.no_reports hinbound, List.append_nil, h.done]
  have htracks : m.client.executor_.Tracks (m.sent ++ []) := by
    rw [List.append_nil]
    exact hconsistent.tracks
  have hside := hconsistent.settled_side htracks (fun _ hr => by cases hr) side
  rw [h.no_flight houtbound, hdone] at hside
  rw [h.exchange, h.trader]
  exact hside

/-- The actions that only bring on what is under way. -/
def WireAction.Settles : WireAction → Prop
  | .receive _ => True
  | .process fees => FitsInt fees
  | _ => False

instance : DecidablePred WireAction.Settles
  | .receive _ => isTrue trivial
  | .process fees => inferInstanceAs (Decidable (FitsInt fees))
  | .datagram _ => isFalse id
  | .fill _ _ _ _ => isFalse id
  | .report _ => isFalse id

namespace Wire

/-- The bytes under way, and a bound on what they can give rise to. -/
def underWay (w : Wire π) : Nat :=
  20 * w.outbound.length + 19 * w.exchange.orders.length + w.inbound.length

variable [PricingModel π]

def settleStep (results : Nat → SendResult) (w : Wire π) (action : WireAction) : Option (Wire π) :=
  if action.Settles then w.exactStep results action else none

/-- Nothing is under way, and the exchange has what the trader can tell from what it has sent
and heard: its own quotes but those reported as done. -/
structure Settled (w : Wire π) : Prop where
  outbound : w.outbound = []
  inbound : w.inbound = []
  position : w.trader.executor_.position_ = w.exchange.position
  quotes : ∀ side, ordersOn side w.exchange.book =
    (w.trader.executor_.quote side).filter fun order => order.id ∉ doneIds w.callbacks

theorem settleStep_cases {w w' : Wire π} {action : WireAction}
    (h : w.settleStep results action = some w') :
    action.Settles ∧ w.exactStep results action = some w' := by
  unfold settleStep at h
  split_ifs at h with hsettles
  exact ⟨hsettles, h⟩

end Wire

namespace Related

variable [PricingModel π] {w w' : Wire π} {m : Market (AutoTrader π SimpleExecutor)}

/-- What is under way gets less, and nothing new is sent. -/
theorem settles (h : Related results w m) {action : WireAction}
    (hstep : w.settleStep results action = some w') :
    w'.sent = w.sent ∧ w'.underWay < w.underWay := by
  obtain ⟨hsettles, hexact⟩ := Wire.settleStep_cases hstep
  obtain ⟨frame, rfl, -⟩ | ⟨report, later, frame, rest, -, -, hframe, -, hbytes, rfl⟩ |
    ⟨fees, frame, rest, credentials, -, -, hcut, -, rfl⟩ |
    ⟨fees, credentials, command, rest, -, hsome, hnext, hwritten⟩ |
    ⟨k, volume, fees, future_position, live, exchange, rfl, -, -, -⟩ |
    ⟨future_position, rfl, -⟩ := Wire.exactStep_cases h.inbound hexact
  · exact absurd hsettles id
  · rw [(Wire.read_report results hframe { w with inbound := rest }).2]
    have htwo := (encode_size hframe).1
    have hlength := congrArg List.length hbytes
    rw [List.length_append] at hlength
    refine ⟨rfl, ?_⟩
    simp only [Wire.underWay]
    omega
  · have hshorter := cutFrame_shorter hcut
    refine ⟨rfl, ?_⟩
    simp only [Wire.underWay]
    omega
  · obtain ⟨r, later, hflight, rfl, rfl⟩ := h.carried.next hsome hnext
    obtain ⟨bytes, hbytes, rfl⟩ := Wire.write_eq hwritten
    have houtbound := h.carried.outbound
    rw [if_neg (by rw [hsome]; exact Option.some_ne_none _), List.nil_append, hflight,
      List.flatMap_cons] at houtbound
    have hcommand := List.length_pos_of_ne_nil r.command.bytes_ne_nil
    have hlength := congrArg List.length houtbound
    rw [List.length_append] at hlength
    have hreports := encodeReports_length_le hbytes
    have horders := process_orders_length w.exchange fees r.command
    refine ⟨rfl, ?_⟩
    simp only [Wire.underWay, List.length_append]
    omega
  · exact absurd hsettles id
  · exact absurd hsettles id

/-- The trader can read the first frame on its stream. -/
theorem receive_exists (h : Related results w m) (hne : w.inbound ≠ []) :
    ∃ size, (w.settleStep results (.receive size)).isSome := by
  have hinbound := h.inbound
  cases hreports : m.reports with
  | nil =>
    rw [hreports] at hinbound
    exact absurd (Option.some.inj hinbound).symm hne
  | cons report reports =>
    rw [hreports] at hinbound
    obtain ⟨frame, rest, hframe, _, hbytes⟩ := encodeReports_cons hinbound
    have htwo := (encode_size hframe).1
    have hlong := encode_length_le hframe
    have hexact : (WireAction.receive frame.encode.length).Exact w := by
      change (cutFrame w.inbound).map _ = _
      rw [hbytes, cutFrame_encode hframe]
      rfl
    have hsize : 1 ≤ frame.encode.length ∧ frame.encode.length ≤ MESSAGE_SIZE ∧
        frame.encode.length ≤ w.inbound.length := by
      rw [hbytes, List.length_append, MESSAGE_SIZE]
      omega
    have hsettles : (WireAction.receive frame.encode.length).Settles := trivial
    refine ⟨frame.encode.length, ?_⟩
    rw [Wire.settleStep, if_pos hsettles, Wire.exactStep, if_pos hexact]
    simp only [Wire.step, if_pos hsize, Option.isSome_some]

end Related

variable [PricingModel π]

/-- Without more books and trades what is under way comes to an end, in whatever order it is
processed and read, if each read gets one frame and the socket takes whole messages. It ends with
both sides agreed. -/
theorem wire_settles (model : π) (login : SendResult) (results : Nat → SendResult)
    (actions : List WireAction) (w : Wire π)
    (h : Wire.exactRun model login results actions = some w)
    (hlogin : LOGIN_MESSAGE_SIZE ≤ login.count) (htaken : AllWhole (sends results w.sent))
    (hlimit : (inserted w.sent).length ≤ INSERT_LIMIT)
    (more : List WireAction) (w' : Wire π)
    (hmore : playFrom (Wire.settleStep results) w more = some w') :
    w'.sent = w.sent ∧ more.length + w'.underWay ≤ w.underWay ∧
      ((∀ action, w'.settleStep results action = none) → w'.Settled) := by
  have hfall : ∀ (v : Wire π) action (v' : Wire π), ((∃ m, Related results v m) ∧ v.sent = w.sent) →
      v.settleStep results action = some v' →
      ((∃ m, Related results v' m) ∧ v'.sent = w.sent) ∧ v'.underWay < v.underWay := by
    rintro v action v' ⟨⟨m, hrelated⟩, hsent⟩ hstep
    obtain ⟨hquiet, hless⟩ := hrelated.settles hstep
    have hsent' := hquiet.trans hsent
    obtain ⟨m', hrelated', _⟩ :=
      hrelated.step (Wire.settleStep_cases hstep).2 (hsent' ▸ htaken)
    exact ⟨⟨⟨m', hrelated'⟩, hsent'⟩, hless⟩
  obtain ⟨_, start, _, hstart⟩ := exactRun_related h hlogin htaken
  obtain ⟨⟨_, hsent⟩, hless⟩ := playFrom_bounded hfall ⟨⟨start, hstart⟩, rfl⟩ more hmore
  refine ⟨hsent, hless, fun hstuck => ?_⟩
  have hlater := playFrom_mono (fun _ _ _ hstep => (Wire.settleStep_cases hstep).2) more hmore
  have hrun : Wire.exactRun model login results (actions ++ more) = some w' := by
    rw [Wire.exactRun, playFrom_append,
      show playFrom (Wire.exactStep results) (Wire.start model login) actions = some w from h]
    exact hlater
  obtain ⟨_, m, hmarket, hrelated⟩ := exactRun_related hrun hlogin (hsent ▸ htaken)
  have hconsistent := Market.run_consistent traderClient_hosts rfl hmarket
    (by rw [← hrelated.sent (hsent ▸ htaken), hsent]; exact hlimit)
  have houtbound : w'.outbound = [] := by
    by_contra hne
    have hfees : FitsInt 0 := by decide
    obtain ⟨v, hv⟩ := Option.isSome_iff_exists.mp ((hrelated.carried.process_iff hfees).mpr hne)
    exact Option.some_ne_none v (hv.symm.trans (hstuck (.process 0)))
  have hinbound : w'.inbound = [] := by
    by_contra hne
    obtain ⟨size, hsize⟩ := hrelated.receive_exists hne
    rw [hstuck (.receive size)] at hsize
    cases hsize
  exact ⟨houtbound, hinbound, (Wire.exactRun_informed hrun).heard hinbound,
    hrelated.book_settled hconsistent houtbound hinbound⟩

/-- The bid of a book has traded in part when the ask is still under way. -/
def halfWire? : Option (Wire FutureMidpoint) :=
  Wire.exactRun FutureMidpoint.start (.accepted 73) (fun _ => .accepted 17)
    [.datagram olderFrame.chunk, .process 0, .process 0, .fill 0 4 3 0]

theorem halfWire_exists : halfWire?.isSome := by decide

def halfWire : Wire FutureMidpoint := halfWire?.get halfWire_exists

theorem halfWire_run : halfWire? = some halfWire := (Option.some_get halfWire_exists).symm

def restWire? : Option (Wire FutureMidpoint) :=
  playFrom (Wire.settleStep fun _ => .accepted 17) halfWire [.receive 19, .process 0, .receive 11]

theorem restWire_exists : restWire?.isSome := by decide +kernel

def restWire : Wire FutureMidpoint := restWire?.get restWire_exists

theorem restWire_run : restWire? = some restWire := (Option.some_get restWire_exists).symm

theorem halfWire_settles : restWire.sent = halfWire.sent ∧
    [WireAction.receive 19, .process 0, .receive 11].length + restWire.underWay ≤
      halfWire.underWay ∧
      ((∀ action, restWire.settleStep (fun _ => .accepted 17) action = none) → restWire.Settled) :=
  wire_settles _ _ _ _ halfWire halfWire_run (by decide) (by decide) (by decide) _ restWire restWire_run

end RtoAutotrader
