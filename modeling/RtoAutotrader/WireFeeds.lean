import RtoAutotrader.WireSafety

namespace RtoAutotrader

/-- The data of a `send` that has come back, with its result. -/
def handed? : SystemEvent → Option (List UInt8 × SendResult)
  | ⟨.send _ data, .returned result⟩ => some (data, result)
  | _ => none

def handed (events : List SystemEvent) : List (List UInt8 × SendResult) := events.filterMap handed?

/-- The result of the n-th `send` of a run. -/
def sendResult (events : List SystemEvent) (n : Nat) : SendResult :=
  ((handed events).map Prod.snd).getD n .failed

/-- The bytes that the socket has taken in a run. -/
def takenData (events : List SystemEvent) : List UInt8 :=
  (handed events).flatMap fun sent => sent.1.take sent.2.count

theorem handed_data {events : List SystemEvent}
    (h : ∀ sock data, ⟨.send sock data, SendReply.sigpipe⟩ ∉ events) :
    (handed events).map Prod.fst = (sentData events).map Prod.snd := by
  induction events with
  | nil => rfl
  | cons event events ih =>
    have hrest := ih fun sock data hmem => h sock data (List.mem_cons_of_mem _ hmem)
    obtain ⟨call, reply⟩ := event
    cases call with
    | send sock data =>
      cases reply with
      | returned result => exact congrArg (data :: ·) hrest
      | sigpipe => exact absurd List.mem_cons_self (h sock data)
    | _ => exact hrest

theorem takenData_eq {events : List SystemEvent} {first : List UInt8} {requests : List Request}
    (h : (handed events).map Prod.fst = first :: requests.map fun r => r.command.bytes) :
    takenData events = first.take (sendResult events 0).count ++
      acceptedBytes (sends (fun i => sendResult events (i + 1)) requests) := by
  obtain ⟨sent, later, hhanded, rfl, hlater⟩ := List.map_eq_cons_iff.mp h
  rw [takenData, hhanded, List.flatMap_cons]
  have hresult : sendResult events 0 = sent.2 := by
    rw [sendResult, hhanded]
    rfl
  have hresults : ∀ i, sendResult events (i + 1) = (later.map Prod.snd).getD i .failed := by
    intro i
    rw [sendResult, hhanded]
    rfl
  simp only [hresult, hresults, acceptedBytes, sends, List.flatMap_map]
  rw [List.flatMap_def, List.flatMap_def]
  congr 2
  have hlength := congrArg List.length hlater
  rw [List.length_map, List.length_map] at hlength
  apply List.ext_getElem
  · rw [List.length_map, List.length_map, List.length_zipIdx, hlength]
  · intro i hi hi'
    rw [List.length_map] at hi
    have hdata := List.getElem_of_eq hlater (i := i) (by simpa using hi)
    rw [List.getElem_map, List.getElem_map] at hdata
    simp [hdata, SendRecord.accepted, hi]

open Program

/-- A run of `main` that has not ended, and a wire on which each send takes what it took in that
run. If both have read the same, `main` has handed to `send`, byte for byte, what the trader of the
wire has sent, its socket has taken the same bytes of it, and these end with what the exchange has
not read yet. -/
theorem main_feeds_wire (link : MarketLink) (polls : Nat) (events : List SystemEvent)
    (h : Runs (main link polls) events (.ok .running)) (actions : List WireAction)
    (w : Wire FutureMidpoint) (hrun : Wire.run FutureMidpoint.start (sendResult events 0)
      (fun i => sendResult events (i + 1)) actions = some w)
    (hheard : delivered (readResults events) = w.heard) :
    (sentData events).flatMap Prod.snd = loginFrame NAME SECRET ++
        w.sent.flatMap (fun r => r.command.bytes) ∧
      takenData events = (loginFrame NAME SECRET).take (sendResult events 0).count ++
        acceptedBytes (sends (fun i => sendResult events (i + 1)) w.sent) ∧
      w.outbound <:+ takenData events := by
  have hsession : (sentData events).map Prod.snd = loginFrame NAME SECRET ::
      w.sent.map (fun r => r.command.bytes) := by
    rcases main_session link polls events .running h with ⟨_, _, hexit⟩ | ⟨⟨sock, requests, hover⟩, _⟩
    · cases hexit
    · have hsent : requests = w.sent := by
        rw [hover.all (fun heq => by cases heq), calledFor, runLoop_callbacks, hheard,
          Wire.run_sent hrun]
        rfl
      rw [hover.sent, sessionOf, hsent, List.map_cons, List.map_map]
      rfl
  have halive : ∀ sock data, ⟨.send sock data, SendReply.sigpipe⟩ ∉ events := by
    intro sock data hmem
    obtain ⟨earlier, later, hsplit⟩ := List.append_of_mem hmem
    cases main_faultless h earlier _ later hsplit
  have htaken := takenData_eq ((handed_data halive).trans hsession)
  refine ⟨?_, htaken, htaken ▸ Wire.run_outbound hrun⟩
  rw [List.flatMap_def, hsession, List.flatten_cons, List.flatMap_def]

/-- The exchange has read the login and the bid of the book that `main` has read. -/
def quotedWire? : Option (Wire FutureMidpoint) :=
  Wire.run FutureMidpoint.start (sendResult bookRun.1 0) (fun i => sendResult bookRun.1 (i + 1))
    [.datagram olderFrame.chunk, .process 0, .process 0]

theorem quotedWire_exists : quotedWire?.isSome := by decide

def quotedWire : Wire FutureMidpoint := quotedWire?.get quotedWire_exists

theorem quotedWire_run : quotedWire? = some quotedWire := (Option.some_get quotedWire_exists).symm

theorem bookRun_feeds_wire : (sentData bookRun.1).flatMap Prod.snd = loginFrame NAME SECRET ++
      quotedWire.sent.flatMap (fun r => r.command.bytes) ∧
    takenData bookRun.1 = (loginFrame NAME SECRET).take (sendResult bookRun.1 0).count ++
      acceptedBytes (sends (fun i => sendResult bookRun.1 (i + 1)) quotedWire.sent) ∧
    quotedWire.outbound <:+ takenData bookRun.1 :=
  main_feeds_wire mainLink 4 bookRun.1 bookRun_runs _ quotedWire quotedWire_run (by decide)

end RtoAutotrader
