import RtoAutotrader.MainRuns

namespace RtoAutotrader

open Program

/-- What `runLoop` does about all that has been read. -/
def passesOf (log : List SystemEvent) : List Pass := (runLoop (readResults log)).passes

/-- Every read has returned something or would have blocked. -/
def Unfailing (log : List SystemEvent) : Prop :=
  ∀ errno, ReadResult.failed errno ∈ readResults log → errno = EWOULDBLOCK

/-- The sockets were set up, and after that the calls are the login and those that the messages
read call for. -/
def MarketLink.Answered (link : MarketLink) (sockets : Sockets) (log : List SystemEvent) : Prop :=
  ∃ startup since, log = startup ++ since ∧ Runs link.initConnection startup (.ok sockets) ∧
    actions since = .send sockets.exec_sock_ (loginFrame NAME SECRET) ::
      (runFrom sockets.answer mainTrader (passesOf log)).2

namespace Sockets

/-- All that was read is answered, and the loop is in the state that this leads to. -/
structure CaughtUp (link : MarketLink) (sockets : Sockets) (log : List SystemEvent)
    (state : Message UInt8 × AutoTrader FutureMidpoint SimpleExecutor) : Prop where
  answered : link.Answered sockets log
  buffer : state.1 = (delivered (readResults log)).foldl Message.received Message.zero
  trader : state.2 = (runFrom sockets.answer mainTrader (passesOf log)).1
  unfailing : Unfailing log

variable {link : MarketLink} {sockets : Sockets} {log : List SystemEvent}
  {msg : Message UInt8} {t : AutoTrader FutureMidpoint SimpleExecutor}

theorem passesOf_blocked (h : Unfailing log) {events : List SystemEvent}
    (hreads : delivered (readResults events) = []) : passesOf (log ++ events) = passesOf log := by
  rw [passesOf, passesOf, runLoop_passes, runLoop_passes, readResults_append, delivered_append h,
    hreads, List.append_nil]

/-- One more message, and one more pass. -/
theorem passesOf_message (h : Unfailing log) {events : List SystemEvent} {data : List UInt8}
    (hreads : delivered (readResults events) = [data]) : passesOf (log ++ events) =
      passesOf log ++ [dispatch (((delivered (readResults log)).foldl Message.received
        Message.zero).received data)] := by
  rw [passesOf, passesOf, runLoop_passes, runLoop_passes, readResults_append, delivered_append h,
    hreads, buffers_concat, List.map_append]
  rfl

theorem CaughtUp.blocked {state : Message UInt8 × AutoTrader FutureMidpoint SimpleExecutor}
    (h : CaughtUp link sockets log state) {events : List SystemEvent} (hunfailing : Unfailing events)
    (hreads : delivered (readResults events) = []) (hactions : actions events = []) :
    CaughtUp link sockets (log ++ events) state := by
  have hpasses := passesOf_blocked h.unfailing hreads
  obtain ⟨startup, since, rfl, hstartup, hanswered⟩ := h.answered
  refine ⟨⟨startup, since ++ events, List.append_assoc _ _ _, hstartup, ?_⟩, ?_, ?_, ?_⟩
  · rw [actions_append, hactions, List.append_nil, hpasses, hanswered]
  · rw [readResults_append, delivered_append h.unfailing, hreads, List.append_nil]
    exact h.buffer
  · rw [hpasses]
    exact h.trader
  · intro errno herrno
    rw [readResults_append] at herrno
    rcases List.mem_append.mp herrno with hold | hnew
    · exact h.unfailing errno hold
    · exact hunfailing errno hnew

theorem CaughtUp.message (h : CaughtUp link sockets log (msg, t)) {data : List UInt8}
    {polled responded : List SystemEvent} (hunfailing : Unfailing polled)
    (hreads : delivered (readResults polled) = [data]) (hpolled : actions polled = [])
    (hresponded : readResults responded = [])
    (hactions : actions responded = (sockets.answer t (dispatch (msg.received data))).2) :
    CaughtUp link sockets (log ++ (polled ++ responded))
      (msg.received data, (sockets.answer t (dispatch (msg.received data))).1) := by
  have hall : readResults (polled ++ responded) = readResults polled := by
    rw [readResults_append, hresponded, List.append_nil]
  have hnew : delivered (readResults (polled ++ responded)) = [data] := by rw [hall, hreads]
  have hpasses := passesOf_message h.unfailing hnew
  have hbuffer : (delivered (readResults log)).foldl Message.received Message.zero = msg :=
    h.buffer.symm
  have htrader : (runFrom sockets.answer mainTrader (passesOf log)).1 = t := h.trader.symm
  rw [hbuffer] at hpasses
  obtain ⟨startup, since, rfl, hstartup, hanswered⟩ := h.answered
  refine ⟨⟨startup, since ++ (polled ++ responded), List.append_assoc _ _ _, hstartup, ?_⟩,
    ?_, ?_, ?_⟩
  · rw [actions_append, actions_append, hpolled, hactions, hpasses, runFrom_concat, htrader, hanswered]
    rfl
  · rw [readResults_append, delivered_append h.unfailing, hnew, List.foldl_append, hbuffer]
    rfl
  · rw [hpasses, runFrom_concat, htrader]
  · intro errno herrno
    rw [readResults_append, hall] at herrno
    rcases List.mem_append.mp herrno with hold | hlater
    · exact h.unfailing errno hold
    · exact hunfailing errno hlater

theorem CaughtUp.loopPass {state state' : Message UInt8 × AutoTrader FutureMidpoint SimpleExecutor}
    {events : List SystemEvent} (h : CaughtUp link sockets log state)
    (hrun : Runs (sockets.loopPass state) events (.ok state')) :
    CaughtUp link sockets (log ++ events) state' := by
  obtain ⟨result, polled, responded, rfl, hpolled, hrest⟩ := runs_bind_ok hrun
  cases poll_runs hpolled with
  | nothing =>
    obtain ⟨rfl, heq⟩ := runs_done hrest
    cases heq
    refine h.blocked ?_ rfl rfl
    intro errno herrno
    simpa [readResults, readResult?] using herrno
  | exec chunk =>
    obtain ⟨hreads, hactions, hstate⟩ := message_runs hrest
    obtain rfl := hstate state' rfl
    refine h.message ?_ rfl rfl hreads hactions
    intro errno herrno
    simp [readResults, readResult?] at herrno
  | info chunk =>
    obtain ⟨hreads, hactions, hstate⟩ := message_runs hrest
    obtain rfl := hstate state' rfl
    refine h.message ?_ rfl rfl hreads hactions
    intro errno herrno
    simpa [readResults, readResult?] using herrno

end Sockets

/-- A read is of one of the two sockets, when all that was read before is answered. -/
def MarketLink.AnswersFirst (link : MarketLink) (log : List SystemEvent) : Syscall → Prop
  | .read sock => ∃ sockets, link.Answered sockets log ∧
      (sock = sockets.exec_sock_ ∨ sock = sockets.info_sock_)
  | _ => True

theorem MarketLink.answersFirst_unread (link : MarketLink) (log : List SystemEvent) (c : Syscall)
    (h : ∀ sock, c ≠ .read sock) : link.AnswersFirst log c := by
  cases c with
  | read sock => exact absurd rfl (h sock)
  | _ => exact trivial

namespace Sockets

variable {link : MarketLink} {sockets : Sockets} {log : List SystemEvent}

theorem poll_answersFirst {state : Message UInt8 × AutoTrader FutureMidpoint SimpleExecutor}
    (h : CaughtUp link sockets log state) : (sockets.poll state.1).Obeys link.AnswersFirst log := by
  refine ⟨⟨sockets, h.answered, Or.inl rfl⟩, fun result => ?_⟩
  cases result with
  | returned chunk => exact trivial
  | failed errno =>
    apply Obeys.check
    intro herrno
    obtain rfl := not_not.mp herrno
    have hblocked : CaughtUp link sockets
        (log ++ [⟨.read sockets.exec_sock_, ReadResult.failed EWOULDBLOCK⟩]) state := by
      refine h.blocked ?_ rfl rfl
      intro errno herrno
      simpa [readResults, readResult?] using herrno
    refine ⟨⟨sockets, hblocked.answered, Or.inr rfl⟩, fun result => ?_⟩
    cases result with
    | returned chunk => exact trivial
    | failed errno => exact Obeys.check fun _ => trivial

theorem runLoop_answersFirst (h : CaughtUp link sockets log (Message.zero, mainTrader)) (polls : Nat) :
    (sockets.runLoop polls mainTrader).Obeys link.AnswersFirst log := by
  refine Obeys.iterate (I := CaughtUp link sockets) ?_ ?_ polls h
  · intro log state hlog
    apply (poll_answersFirst hlog).bind
    intro events polled _
    cases polled with
    | none => exact trivial
    | some msg =>
      exact (respond_obeys link.answersFirst_unread _ _ _).bind fun _ _ _ => trivial
  · intro log state events state' hlog hrun
    exact hlog.loopPass hrun

theorem caughtUp_start {startup login : List SystemEvent}
    (hstartup : Runs link.initConnection startup (.ok sockets))
    (hlogin : Runs (sockets.registerTrader mainTrader mainTrader_printable) login (.ok ())) :
    CaughtUp link sockets (startup ++ login) (Message.zero, mainTrader) := by
  obtain ⟨hquiet, _⟩ := initConnection_quiet hstartup
  obtain ⟨hreads, hlogged, _⟩ := registerTrader_runs hlogin
  have hnone : readResults (startup ++ login) = [] := by
    rw [readResults_append, hquiet, hreads, List.append_nil]
  have hpasses : passesOf (startup ++ login) = [] := by
    rw [passesOf, runLoop_passes, hnone]
    rfl
  refine ⟨⟨startup, login, rfl, hstartup, ?_⟩, ?_, ?_, ?_⟩
  · rw [hpasses, hlogged]
    rfl
  · rw [hnone]
    rfl
  · rw [hpasses]
    rfl
  · intro errno herrno
    rw [hnone] at herrno
    cases herrno

end Sockets

/-- Whenever `main` reads, it is one of the two sockets it has set up, and it has by then answered
all that it read before, message by message, and made no other call since it logged in. -/
theorem main_answers_first (link : MarketLink) (polls : Nat) (events : List SystemEvent)
    (result : Except Empty Exit) (h : Runs (main link polls) events result) :
    ∀ earlier event later, events = earlier ++ event :: later →
      link.AnswersFirst earlier event.call := by
  have hmain : (main link polls).Obeys link.AnswersFirst [] := by
    apply main_obeys link polls
    · intro log c hplain
      apply link.answersFirst_unread log c
      rintro sock rfl
      exact hplain trivial
    · intro startup sockets hstartup
      refine ⟨fun _ => trivial, fun login hlogin => ?_⟩
      exact Sockets.runLoop_answersFirst (Sockets.caughtUp_start hstartup hlogin) polls
  exact hmain.runs h

/-- The two requests that a book gives rise to are out before the next read. -/
theorem bookRun_answers_first : mainLink.AnswersFirst (bookRun.1.take 23) (.read 3) :=
  main_answers_first mainLink 4 bookRun.1 (.ok .running) bookRun_runs (bookRun.1.take 23)
    ⟨.read 3, ReadResult.failed EWOULDBLOCK⟩ (bookRun.1.drop 24) rfl

end RtoAutotrader
