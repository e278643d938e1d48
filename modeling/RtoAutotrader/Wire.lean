import RtoAutotrader.DeadQuotes
import RtoAutotrader.ExecutionStream
import RtoAutotrader.SendFraming
import RtoAutotrader.Session

namespace RtoAutotrader

/-- The frame that tells the trader of something, if the values fit into its fields. -/
def Callback.frame? : Callback → Option Frame
  | .onOrderBookUpdate _ => none
  | .onOrderStatusUpdate id fill_volume remaining_volume fees =>
    if h : FitsInt id ∧ FitsInt fill_volume ∧ FitsInt remaining_volume ∧ FitsInt fees then
      some (.orderStatus ⟨id, h.1⟩ ⟨fill_volume, h.2.1⟩ ⟨remaining_volume, h.2.2.1⟩
        ⟨fees, h.2.2.2⟩)
    else none
  | .onPositionUpdate future_position etf_position =>
    if h : FitsInt future_position ∧ FitsInt etf_position then
      some (.position ⟨future_position, h.1⟩ ⟨etf_position, h.2⟩)
    else none

def encodeReports : List Callback → Option (List UInt8)
  | [] => some []
  | report :: reports => do
    let frame ← report.frame?
    let rest ← encodeReports reports
    pure (frame.encode ++ rest)

/-- A trader and the exchange with the bytes that are under way between them. The exchange has
`credentials` once it has read a login. What the trader has called and been given is kept too. -/
structure Wire (π : Type) where
  msg : Message UInt8
  trader : AutoTrader π SimpleExecutor
  outbound : List UInt8
  credentials : Option Credentials
  exchange : Exchange
  inbound : List UInt8
  sent : List Request
  heard : List (List UInt8)

/-- A read gets a datagram, or some of the bytes that the exchange has written. -/
inductive WireAction
  | datagram (chunk : Chunk)
  | receive (size : Nat)
  | process (fees : Int)
  | fill (k : Nat) (volume fees future_position : Int)
  | report (future_position : Int)

/-- The records of the sends that come after the first ones. -/
def sendsFrom (results : Nat → SendResult) (start : Nat) (requests : List Request) :
    List SendRecord := (requests.zipIdx start).map fun p => ⟨p.1, results p.2⟩

theorem sends_append (results : Nat → SendResult) (log more : List Request) :
    sends results (log ++ more) = sends results log ++ sendsFrom results log.length more := by
  rw [sends, sendsFrom, List.zipIdx_append, List.map_append, Nat.zero_add]
  rfl

namespace Wire

variable {π : Type} [PricingModel π]

/-- The trader is registered, and the socket has taken what it would of the login. -/
def start (model : π) (login : SendResult) : Wire π :=
  ⟨Message.zero, newTrader model, (loginFrame NAME SECRET).take login.count, none, .start, [], [], []⟩

def answer (t : AutoTrader π SimpleExecutor) (pass : Pass) :
    AutoTrader π SimpleExecutor × List Request :=
  match pass.callback? with
  | some callback => t.handle callback
  | none => (t, [])

/-- One pass of `runLoop` over what a read delivers. The i-th command has the i-th result. -/
def read (results : Nat → SendResult) (w : Wire π) (data : List UInt8) : Wire π :=
  let msg := w.msg.received data
  let answered := answer w.trader (dispatch msg)
  { w with
    msg := msg
    trader := answered.1
    outbound := w.outbound ++ acceptedBytes (sendsFrom results w.sent.length answered.2)
    sent := w.sent ++ answered.2
    heard := w.heard ++ [data] }

def write (w : Wire π) (exchange : Exchange) (reports : List Callback) : Option (Wire π) := do
  let bytes ← encodeReports reports
  pure { w with exchange := exchange, inbound := w.inbound ++ bytes }

def step (results : Nat → SendResult) (w : Wire π) : WireAction → Option (Wire π)
  | .datagram chunk => some (w.read results chunk.data)
  | .receive size =>
    if 1 ≤ size ∧ size ≤ MESSAGE_SIZE ∧ size ≤ w.inbound.length then
      some ({ w with inbound := w.inbound.drop size }.read results (w.inbound.take size))
    else none
  | .process fees =>
    match w.credentials with
    | none => do
      let (frame, rest) ← cutFrame w.outbound
      let credentials ← readLogin frame
      pure { w with outbound := rest, credentials := some credentials }
    | some _ => do
      let (command, rest) ← nextCommand w.outbound
      { w with outbound := rest }.write (w.exchange.process command)
        (w.exchange.cancelReports fees command)
  | .fill k volume fees future_position =>
    match w.exchange.orders[k]?, w.exchange.fill k volume with
    | some live, some exchange =>
      w.write exchange [live.traded volume fees, .onPositionUpdate future_position exchange.position]
    | _, _ => none
  | .report future_position =>
    w.write w.exchange [.onPositionUpdate future_position w.exchange.position]

/-- The callbacks that `runLoop` makes for what has been read. -/
def callbacks (w : Wire π) : List Callback :=
  ((buffers Message.zero w.heard).map dispatch).filterMap Pass.callback?

def run (model : π) (login : SendResult) (results : Nat → SendResult) (actions : List WireAction) :
    Option (Wire π) := playFrom (step results) (start model login) actions

end Wire

theorem Callback.frame?_callback {report : Callback} {frame : Frame}
    (h : report.frame? = some frame) : frame.callback? = some report := by
  cases report with
  | onOrderBookUpdate update => cases h
  | onOrderStatusUpdate id fill_volume remaining_volume fees =>
    simp only [Callback.frame?] at h
    split_ifs at h
    cases h
    rfl
  | onPositionUpdate future_position etf_position =>
    simp only [Callback.frame?] at h
    split_ifs at h
    cases h
    rfl

theorem encodeReports_cons {report : Callback} {reports : List Callback} {bytes : List UInt8}
    (h : encodeReports (report :: reports) = some bytes) :
    ∃ frame rest, report.frame? = some frame ∧ encodeReports reports = some rest ∧
      bytes = frame.encode ++ rest := by
  obtain ⟨frame, hframe, hrest⟩ := Option.bind_eq_some_iff.mp h
  obtain ⟨rest, hlater, heq⟩ := Option.bind_eq_some_iff.mp hrest
  exact ⟨frame, rest, hframe, hlater, (Option.some.inj heq).symm⟩

theorem encodeReports_append {first second : List Callback} {bytes bytes' : List UInt8}
    (hfirst : encodeReports first = some bytes) (hsecond : encodeReports second = some bytes') :
    encodeReports (first ++ second) = some (bytes ++ bytes') := by
  induction first generalizing bytes with
  | nil =>
    cases hfirst
    exact hsecond
  | cons report first ih =>
    obtain ⟨frame, rest, hframe, hrest, rfl⟩ := encodeReports_cons hfirst
    rw [List.append_assoc, List.cons_append, encodeReports, hframe, ih hrest]
    rfl

theorem encode_size {report : Callback} {frame : Frame} (h : report.frame? = some frame) :
    2 ≤ frame.encode.length ∧ networkValue (frame.encode.take 2) = frame.encode.length := by
  have hbody : frame.body.length + 3 < 65536 := by
    cases report with
    | onOrderBookUpdate update => cases h
    | onOrderStatusUpdate id fill_volume remaining_volume fees =>
      simp only [Callback.frame?] at h
      split_ifs at h
      cases h
      simp [Frame.body]
    | onPositionUpdate future_position etf_position =>
      simp only [Callback.frame?] at h
      split_ifs at h
      cases h
      simp [Frame.body]
  have hlength : frame.encode.length = frame.body.length + 3 := by
    simp only [Frame.encode, List.length_append, networkBytes_length, List.length_cons]
    omega
  refine ⟨by omega, ?_⟩
  rw [hlength, Frame.encode, List.take_left' (networkBytes_length 2 _), networkValue_networkBytes]
  exact Nat.mod_eq_of_lt hbody

theorem encodeReports_nil {reports : List Callback} (h : encodeReports reports = some []) :
    reports = [] := by
  cases reports with
  | nil => rfl
  | cons report reports =>
    obtain ⟨frame, rest, hframe, _, hbytes⟩ := encodeReports_cons h
    have htwo := (encode_size hframe).1
    have hlength := congrArg List.length hbytes
    rw [List.length_append, List.length_nil] at hlength
    omega

theorem cutFrame_encode {report : Callback} {frame : Frame} (h : report.frame? = some frame)
    (rest : List UInt8) : cutFrame (frame.encode ++ rest) = some (frame.encode, rest) :=
  cutFrame_append (encode_size h).1 (encode_size h).2 rest

end RtoAutotrader
