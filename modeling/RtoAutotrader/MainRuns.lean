import RtoAutotrader.Faults
import RtoAutotrader.LateBooks

namespace RtoAutotrader

open Program

/-- A system on which every call goes well. Its reads have the given results, one after the
other, and find nothing once there are no more. -/
def goodSystem (reads : List ReadResult) (history : List SystemEvent) : (c : Syscall) → c.Reply
  | .socket .SOCK_STREAM => (3 : Int)
  | .socket .SOCK_DGRAM => (4 : Int)
  | .setsockopt _ => (0 : Int)
  | .inet_pton _ => some [127, 0, 0, 1]
  | .connect _ _ => (0 : Int)
  | .bind _ _ => (0 : Int)
  | .getFlags _ => (2 : BitVec 32)
  | .setFlags _ _ => (0 : Int)
  | .read _ => reads.getD (readResults history).length (.failed EWOULDBLOCK)
  | .send _ data => .returned (.accepted data.length)
  | .write _ _ => ()

/-- What `main` does in four polls when the second read of the information socket gets a book. -/
def bookRun : List SystemEvent × Except Empty Exit :=
  run (goodSystem [.failed EWOULDBLOCK, .failed EWOULDBLOCK, .failed EWOULDBLOCK,
    .returned olderFrame.chunk]) [] (main mainLink 4)

theorem bookRun_runs : Runs (main mainLink 4) bookRun.1 (.ok .running) := run_runs _ _ _

/-- What a connection has to be before it is used. -/
def MarketLink.Permits (link : MarketLink) (log : List SystemEvent) : Syscall → Prop
  | .read sock => link.ExecReady sock log ∨ link.InfoReady sock log
  | .send sock _ => link.ExecReady sock log
  | _ => True

theorem MarketLink.permits_plain (link : MarketLink) (log : List SystemEvent) (c : Syscall)
    (h : ¬c.Traffic) : link.Permits log c := by
  cases c with
  | read sock => exact absurd trivial h
  | send sock data => exact absurd trivial h
  | _ => exact trivial

/-- Both sockets of a link are set up. -/
structure MarketLink.Connected (link : MarketLink) (sockets : Sockets) (log : List SystemEvent) :
    Prop where
  exec : link.ExecReady sockets.exec_sock_ log
  info : link.InfoReady sockets.info_sock_ log

namespace Sockets

variable {link : MarketLink} {sockets : Sockets} {log : List SystemEvent}
variable {π ε : Type} [PricingModel π] [TradeExecutor ε]

theorem connected_append (h : link.Connected sockets log) (events : List SystemEvent) :
    link.Connected sockets (log ++ events) :=
  ⟨h.exec.mono (List.sublist_append_left _ _), h.info.mono (List.sublist_append_left _ _)⟩

theorem poll_permitted (h : link.Connected sockets log) (msg : Message UInt8) :
    (sockets.poll msg).Obeys link.Permits log := by
  apply (Obeys.call (Or.inl h.exec)).bind
  intro first result _
  cases result with
  | returned chunk => exact trivial
  | failed errno =>
    refine (Obeys.throwIf _ _).bind fun second _ _ => ?_
    have hlater := connected_append (connected_append h first) second
    apply (Obeys.call (Or.inr hlater.info)).bind
    intro third result _
    cases result with
    | returned chunk => exact trivial
    | failed errno => exact (Obeys.throwIf _ _).bind fun _ _ _ => trivial

theorem sendAll_permitted (requests : List Request) (h : link.Connected sockets log) :
    (sockets.sendAll requests).Obeys link.Permits log := by
  induction requests generalizing log with
  | nil => exact trivial
  | cons r requests ih =>
    exact (send_obeys h.exec).bind fun events _ _ => ih (connected_append h events)

theorem respond_permitted (h : link.Connected sockets log) (t : AutoTrader π ε) (pass : Pass) :
    (sockets.respond t pass).Obeys link.Permits log := by
  cases pass with
  | unknownType type => exact (Obeys.call trivial).bind fun _ _ _ => trivial
  | called callback =>
    cases callback with
    | onOrderBookUpdate update =>
      refine (Obeys.call trivial).bind fun events _ _ => ?_
      exact (sendAll_permitted _ (connected_append h events)).bind fun _ _ _ => trivial
    | onOrderStatusUpdate => exact trivial
    | onPositionUpdate => exact trivial

theorem runLoop_permitted (h : link.Connected sockets log) (polls : Nat) (t : AutoTrader π ε) :
    (sockets.runLoop polls t).Obeys link.Permits log := by
  refine Obeys.iterate (I := fun log _ => link.Connected sockets log) ?_ ?_ polls h
  · intro log state hlog
    apply (poll_permitted hlog state.1).bind
    intro events polled _
    cases polled with
    | none => exact trivial
    | some msg =>
      exact (respond_permitted (connected_append hlog events) _ _).bind fun _ _ _ => trivial
  · intro log state events state' hlog _
    exact connected_append hlog events

end Sockets

/-- What holds of all calls but reads and sends holds of all calls of `main` if the login and the
loop keep to it. -/
theorem main_obeys {P : List SystemEvent → Syscall → Prop} (link : MarketLink) (polls : Nat)
    (hplain : ∀ log c, ¬c.Traffic → P log c)
    (hserving : ∀ startup sockets, Runs link.initConnection startup (.ok sockets) →
      (∀ data, P startup (.send sockets.exec_sock_ data)) ∧ ∀ login,
        Runs (sockets.registerTrader mainTrader mainTrader_printable) login (.ok ()) →
          (sockets.runLoop polls mainTrader).Obeys P (startup ++ login)) :
    (main link polls).Obeys P [] := by
  have hbody : (mainBody link polls).Obeys P [] := by
    apply (MarketLink.initConnection_obeys hplain).bind
    intro startup sockets hstartup
    obtain ⟨hsend, hloop⟩ := hserving startup sockets hstartup
    have hlogin : (sockets.registerTrader mainTrader mainTrader_printable).Obeys P
        ([] ++ startup) := Sockets.send_obeys (hsend _)
    apply hlogin.bind
    intro login _ hregister
    exact (hloop login hregister).bind fun _ _ _ => trivial
  apply hbody.handle
  intro _ error _
  cases error with
  | runtime_error what => exact (Obeys.call (hplain _ _ id)).bind fun _ _ _ => trivial
  | errno value => exact (Obeys.call (hplain _ _ id)).bind fun _ _ _ => trivial
  | sigpipe => exact trivial

/-- Whatever the system replies, `main` reads only from sockets it has set up, sends only on
the execution socket once that is connected, and has made both non-blocking by then: `F_SETFL` has
succeeded, with what `F_GETFL` returned, which is not checked. -/
theorem main_traffic_ready (link : MarketLink) (polls : Nat) (events : List SystemEvent)
    (result : Except Empty Exit) (h : Runs (main link polls) events result) :
    ∀ earlier event later, events = earlier ++ event :: later →
      link.Permits earlier event.call := by
  have hmain : (main link polls).Obeys link.Permits [] := by
    apply main_obeys link polls link.permits_plain
    intro startup sockets hstartup
    obtain ⟨hexec, hinfo⟩ := MarketLink.initConnection_ready hstartup
    refine ⟨fun _ => hexec, fun login _ => ?_⟩
    exact Sockets.runLoop_permitted (Sockets.connected_append ⟨hexec, hinfo⟩ login) polls mainTrader
  exact hmain.runs h

theorem bookRun_traffic_ready : mainLink.Permits (bookRun.1.take 19) (.read 4) :=
  main_traffic_ready mainLink 4 bookRun.1 (.ok .running) bookRun_runs (bookRun.1.take 19)
    ⟨.read 4, ReadResult.returned olderFrame.chunk⟩ (bookRun.1.drop 20) rfl

def Syscall.sent? : Syscall → Option (Int × List UInt8)
  | .send sock data => some (sock, data)
  | _ => none

/-- What a run hands to `send`, with the sockets. -/
def sentData (events : List SystemEvent) : List (Int × List UInt8) :=
  (actions events).filterMap Syscall.sent?

theorem sentData_append (first second : List SystemEvent) :
    sentData (first ++ second) = sentData first ++ sentData second := by
  rw [sentData, actions_append, List.filterMap_append]
  rfl

theorem no_traffic {events : List SystemEvent} (h : ∀ event ∈ events, ¬event.call.Traffic) :
    readResults events = [] ∧ sentData events = [] := by
  constructor
  · apply List.filterMap_eq_nil_iff.mpr
    rintro ⟨call, reply⟩ hevent
    have hquiet := h _ hevent
    cases call <;> first | rfl | exact absurd trivial hquiet
  · apply List.filterMap_eq_nil_iff.mpr
    intro call hcall
    obtain ⟨event, hevent, rfl⟩ := List.mem_map.mp hcall
    have hquiet := h event (List.mem_of_mem_filter hevent)
    cases hcase : event.call with
    | send sock data =>
      rw [hcase] at hquiet
      exact absurd trivial hquiet
    | _ => rfl

theorem initConnection_quiet {link : MarketLink} {events : List SystemEvent}
    {result : Except Abort Sockets} (h : Runs link.initConnection events result) :
    readResults events = [] ∧ sentData events = [] :=
  no_traffic (initConnection_plain h)

theorem answer_run {π ε : Type} [PricingModel π] [TradeExecutor ε] (sockets : Sockets)
    (t : AutoTrader π ε) (passes : List Pass) :
    (runFrom sockets.answer t passes).1 =
        (runFrom AutoTrader.handle t (passes.filterMap Pass.callback?)).1 ∧
      (runFrom sockets.answer t passes).2.filterMap Syscall.sent? =
        (runFrom AutoTrader.handle t (passes.filterMap Pass.callback?)).2.map
          fun r => (sockets.exec_sock_, r.command.bytes) := by
  induction passes generalizing t with
  | nil => exact ⟨rfl, rfl⟩
  | cons pass passes ih =>
    rw [runFrom_cons, List.filterMap_append]
    cases pass with
    | unknownType type => exact ih t
    | called callback =>
      have hsends : ∀ requests : List Request,
          (requests.map fun r => Syscall.send sockets.exec_sock_ r.command.bytes).filterMap
            Syscall.sent? = requests.map fun r => (sockets.exec_sock_, r.command.bytes) := by
        intro requests
        rw [List.filterMap_map]
        exact congrFun List.filterMap_eq_map requests
      have hcons : (Pass.called callback :: passes).filterMap Pass.callback? =
          callback :: passes.filterMap Pass.callback? := rfl
      rw [hcons, runFrom_cons, List.map_append]
      cases callback with
      | onOrderBookUpdate update =>
        refine ⟨(ih _).1, ?_⟩
        rw [← hsends (t.handle (.onOrderBookUpdate update)).2]
        exact congrArg _ (ih _).2
      | onOrderStatusUpdate id fill_volume remaining_volume fees => exact ih _
      | onPositionUpdate future_position etf_position => exact ih _

theorem registerTrader_runs {sockets : Sockets} {events : List SystemEvent}
    {result : Except Abort Unit}
    (h : Runs (sockets.registerTrader mainTrader mainTrader_printable) events result) :
    readResults events = [] ∧ actions events = [.send sockets.exec_sock_ (loginFrame NAME SECRET)] ∧
      (result = .ok () ∨ result = .error .sigpipe) := by
  have hframe : (MarketLink.registerTrader mainTrader).get mainTrader_printable =
      loginFrame NAME SECRET := by decide
  rw [← hframe]
  exact Sockets.send_runs h

/-- The commands that the reads of a run call for. -/
def calledFor (events : List SystemEvent) : List Request :=
  (runFrom AutoTrader.handle mainTrader (runLoop (readResults events)).callbacks).2

/-- Commands, as they are sent after the login. -/
def sessionOf (sock : Int) (requests : List Request) : List (Int × List UInt8) :=
  (sock, loginFrame NAME SECRET) :: requests.map fun r => (sock, r.command.bytes)

/-- The login and commands are handed to `send`: what the reads call for, or the first of it when
the process is killed. -/
structure HandsOver (sock : Int) (events : List SystemEvent) (requests : List Request)
    (killed : Prop) : Prop where
  sent : sentData events = sessionOf sock requests
  first : requests <+: calledFor events
  all : ¬killed → requests = calledFor events

/-- How the end of the loop shows in the end of the `try`. -/
def BodyEnds : Except Abort Exit → Ending → Prop
  | .ok exit, ending => exit = .running ∧ ending = .waiting
  | .error .sigpipe, ending => ending = .waiting
  | .error _, ending => ∃ errno, ending = .threw errno

def Ending.exit : Ending → Exit
  | .waiting => .running
  | .threw _ => .returned 1

theorem loop_handsOver {sockets : Sockets} {polls : Nat} {startup login loop : List SystemEvent}
    {result : Except Abort (Message UInt8 × AutoTrader FutureMidpoint SimpleExecutor)}
    (hreads : readResults startup = []) (hsent : sentData startup = [])
    (hlogin : Runs (sockets.registerTrader mainTrader mainTrader_printable) login (.ok ()))
    (hloop : Runs (sockets.runLoop polls mainTrader) loop result) :
    (∃ requests, HandsOver sockets.exec_sock_ (startup ++ (login ++ loop)) requests
      (result = .error .sigpipe)) ∧
      sockets.EndsAs mainTrader (runLoop (readResults (startup ++ (login ++ loop)))) result := by
  obtain ⟨hloginReads, hloginActions, _⟩ := registerTrader_runs hlogin
  have hagrees := Sockets.loop_agrees polls hloop
  have hall : readResults (startup ++ (login ++ loop)) = readResults loop := by
    rw [readResults_append, readResults_append, hreads, hloginReads]
    rfl
  have hbytes : sentData (startup ++ (login ++ loop)) =
      (sockets.exec_sock_, loginFrame NAME SECRET) :: sentData loop := by
    rw [sentData_append, sentData_append, hsent, sentData, hloginActions]
    rfl
  have hcalled : (runFrom sockets.answer mainTrader (runLoop (readResults loop)).passes).2.filterMap
      Syscall.sent? = (calledFor (startup ++ (login ++ loop))).map
        fun r => (sockets.exec_sock_, r.command.bytes) := by
    rw [calledFor, hall]
    exact (answer_run sockets mainTrader _).2
  refine ⟨?_, hall ▸ hagrees.ends⟩
  by_cases hresult : result = .error .sigpipe
  · have hmade : sentData loop <+: (calledFor (startup ++ (login ++ loop))).map
        fun r => (sockets.exec_sock_, r.command.bytes) := hcalled ▸ hagrees.made.filterMap _
    obtain ⟨requests, hfirst, hrequests⟩ := List.prefix_map_iff.mp hmade
    exact ⟨requests, hbytes.trans (congrArg _ hrequests), hfirst, fun h => absurd hresult h⟩
  · refine ⟨_, ?_, List.prefix_rfl, fun _ => rfl⟩
    rw [hbytes, sessionOf, ← hcalled, sentData, hagrees.unkilled hresult]
    rfl

theorem mainBody_session {link : MarketLink} {polls : Nat} {events : List SystemEvent}
    {result : Except Abort Exit} (h : Runs (mainBody link polls) events result) :
    (readResults events = [] ∧ sentData events = [] ∧ ∃ what, result = .error (.runtime_error what)) ∨
    (∃ sock requests, HandsOver sock events requests (result = .error .sigpipe)) ∧
      BodyEnds result (runLoop (readResults events)).ending := by
  rcases runs_bind h with ⟨sockets, startup, rest, rfl, hstartup, hrest⟩ | ⟨error, rfl, hstartup⟩
  · obtain ⟨hreads, hsent⟩ := initConnection_quiet hstartup
    right
    rcases runs_bind hrest with ⟨_, login, later, rfl, hlogin, hlater⟩ | ⟨error, rfl, hlogin⟩
    · rcases runs_bind hlater with ⟨state, loop, last, rfl, hloop, hlast⟩ | ⟨error, rfl, hloop⟩
      · obtain ⟨rfl, rfl⟩ := runs_done hlast
        obtain ⟨⟨requests, hover⟩, hends⟩ := loop_handsOver hreads hsent hlogin hloop
        rw [List.append_nil]
        refine ⟨⟨_, requests, hover.sent, hover.first, fun _ => hover.all ?_⟩, rfl, hends.2⟩
        exact fun heq => by cases heq
      · obtain ⟨⟨requests, hover⟩, hends⟩ := loop_handsOver hreads hsent hlogin hloop
        refine ⟨⟨_, requests, hover.sent, hover.first, fun hresult => hover.all ?_⟩, ?_⟩
        · rintro heq
          cases heq
          exact hresult rfl
        · cases error with
          | sigpipe => exact hends
          | _ =>
            obtain ⟨errno, _, hending⟩ := hends
            exact ⟨errno, hending⟩
    · obtain ⟨hloginReads, hlogged, hend⟩ := registerTrader_runs hlogin
      cases hend.resolve_left fun heq => by cases heq
      refine ⟨⟨sockets.exec_sock_, [], ?_, List.nil_prefix, fun hresult => absurd rfl hresult⟩, ?_⟩
      · rw [sentData_append, hsent, sentData, hlogged]
        rfl
      · rw [readResults_append, hreads, hloginReads, List.append_nil, runLoop, runLoopFrom_waiting rfl]
        rfl
  · obtain ⟨hreads, hsent⟩ := initConnection_quiet hstartup
    obtain ⟨what, rfl⟩ := initConnection_error hstartup
    exact Or.inl ⟨hreads, hsent, what, rfl⟩

/-- The line that `main` prints when its `try` is left, if it is still there to do so. -/
def caughtLine : Abort → Option String
  | .runtime_error what => some (what ++ "\n")
  | .errno _ => some "unknown error\n"
  | .sigpipe => none

theorem mainHandler_runs {error : Abort} {events : List SystemEvent}
    {result : Except Empty Exit} (h : Runs (mainHandler error) events result) :
    (error = .sigpipe ∧ events = [] ∧ result = .ok .killed) ∨
    error ≠ .sigpipe ∧ result = .ok (.returned 1) ∧
      ∃ text, events = [⟨.write .cerr text, ()⟩] ∧ caughtLine error = some text := by
  cases error with
  | runtime_error what =>
    obtain ⟨_, rest, rfl, hrest⟩ := runs_call h
    obtain ⟨rfl, rfl⟩ := runs_done hrest
    exact Or.inr ⟨by simp, rfl, _, rfl, rfl⟩
  | errno value =>
    obtain ⟨_, rest, rfl, hrest⟩ := runs_call h
    obtain ⟨rfl, rfl⟩ := runs_done hrest
    exact Or.inr ⟨by simp, rfl, _, rfl, rfl⟩
  | sigpipe =>
    obtain ⟨rfl, rfl⟩ := runs_done h
    exact Or.inl ⟨rfl, rfl, rfl⟩

theorem HandsOver.write {sock : Int} {events : List SystemEvent} {requests : List Request}
    {killed killed' : Prop} (h : HandsOver sock events requests killed) (hkilled : ¬killed)
    (output : Output) (text : String) :
    HandsOver sock (events ++ [⟨.write output text, ()⟩]) requests killed' := by
  have hreads : readResults (events ++ [⟨.write output text, ()⟩]) = readResults events := by
    rw [readResults_append]
    exact List.append_nil _
  have hcalled : requests = calledFor (events ++ [⟨.write output text, ()⟩]) := by
    rw [calledFor, hreads]
    exact h.all hkilled
  refine ⟨?_, hcalled ▸ List.prefix_rfl, fun _ => hcalled⟩
  rw [sentData_append, h.sent]
  exact List.append_nil _

/-- `main` as a whole: either it never gets to send or read anything and returns 1, or it sends
its login and then, byte for byte, what the trader asks for after the callbacks of its reads, up
to a signal that kills it. -/
theorem main_session (link : MarketLink) (polls : Nat) (events : List SystemEvent) (exit : Exit)
    (h : Runs (main link polls) events (.ok exit)) :
    (readResults events = [] ∧ sentData events = [] ∧ exit = .returned 1) ∨
    (∃ sock requests, HandsOver sock events requests (exit = .killed)) ∧
      (exit = .killed ∨ exit = (runLoop (readResults events)).ending.exit) := by
  rcases runs_handle h with ⟨value, hvalue, hbody⟩ | ⟨error, first, last, rfl, hbody, hcaught⟩
  · rcases mainBody_session hbody with ⟨_, _, what, herror⟩ | ⟨⟨sock, requests, hover⟩, hexit, hending⟩
    · cases herror
    · cases hvalue
      refine Or.inr ⟨⟨sock, requests, hover.sent, hover.first, fun _ => hover.all ?_⟩, Or.inr ?_⟩
      · exact fun heq => by cases heq
      · rw [hending, hexit, Ending.exit]
  · rcases mainHandler_runs hcaught with ⟨rfl, rfl, hexit⟩ | ⟨hcatch, hexit, text, rfl, _⟩
    · cases hexit
      rw [List.append_nil]
      rcases mainBody_session hbody with ⟨_, _, what, herror⟩ | ⟨⟨sock, requests, hover⟩, _⟩
      · cases herror
      · exact Or.inr ⟨⟨sock, requests, hover.sent, hover.first, fun h => absurd rfl h⟩, Or.inl rfl⟩
    · cases hexit
      have hreads : readResults (first ++ [⟨.write .cerr text, ()⟩]) = readResults first := by
        rw [readResults_append]
        exact List.append_nil _
      have huncaught : ¬(Except.error error : Except Abort Exit) = .error .sigpipe :=
        fun heq => hcatch (Except.error.inj heq)
      rcases mainBody_session hbody with ⟨hnone, hsent, _⟩ | ⟨⟨sock, requests, hover⟩, hends⟩
      · refine Or.inl ⟨hreads.trans hnone, ?_, rfl⟩
        rw [sentData_append, hsent]
        rfl
      · refine Or.inr ⟨⟨sock, requests, hover.write huncaught .cerr text⟩, Or.inr ?_⟩
        obtain ⟨errno, hending⟩ : ∃ errno, (runLoop (readResults first)).ending = .threw errno := by
          cases error with
          | sigpipe => exact absurd rfl hcatch
          | _ => exact hends
        rw [hreads, hending, Ending.exit]

end RtoAutotrader
