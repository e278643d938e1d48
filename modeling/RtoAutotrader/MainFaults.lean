import RtoAutotrader.MainRuns

namespace RtoAutotrader

open Program

variable {log : List SystemEvent}

theorem read_provoked {α : Type} (sock : Int) {next : ReadResult → Process α}
    (hreturned : ∀ log chunk, (next (.returned chunk)).Provoked fault log)
    (hfailed : ∀ errno, errno ≠ EWOULDBLOCK → next (.failed errno) = .threw (.errno errno))
    (hblocked : ∀ log, (next (.failed EWOULDBLOCK)).Provoked fault log) :
    ((syscall (.read sock)).bind next).Provoked fault log := by
  intro result
  cases result with
  | returned chunk => exact ⟨fun _ hfault => (by cases hfault), fun _ => hreturned _ chunk⟩
  | failed errno =>
    by_cases h : errno = EWOULDBLOCK
    · subst h
      exact ⟨fun _ hfault => (by cases hfault), fun _ => hblocked _⟩
    · have hfault : fault log ⟨.read sock, ReadResult.failed errno⟩ = some (.errno errno) := if_pos h
      refine ⟨?_, fun hfine => by cases hfault.symm.trans hfine⟩
      intro error herror
      cases hfault.symm.trans herror
      exact hfailed errno h

namespace Sockets

variable {π ε : Type} [PricingModel π] [TradeExecutor ε]

theorem poll_provoked (sockets : Sockets) (msg : Message UInt8) :
    (sockets.poll msg).Provoked fault log := by
  apply read_provoked
  · exact fun _ _ => trivial
  · intro errno h
    exact congrArg (Program.bind · _) (throwIf_pos h _)
  · intro log
    apply read_provoked
    · exact fun _ _ => trivial
    · intro errno h
      exact congrArg (Program.bind · _) (throwIf_pos h _)
    · exact fun _ => trivial

theorem send_provoked (sockets : Sockets) (data : List UInt8) :
    (sockets.send data).Provoked fault log := by
  intro reply
  by_cases h : reply = .sigpipe
  · subst h
    refine ⟨?_, fun hfine => by cases hfine⟩
    intro error herror
    cases herror
    rfl
  · have hfine : fault log ⟨.send sockets.exec_sock_ data, reply⟩ = none := if_neg h
    refine ⟨fun _ herror => (by cases hfine.symm.trans herror), fun _ => ?_⟩
    have hpassed : (throwIf (reply = .sigpipe) .sigpipe : Process Unit) = done () := throwIf_neg h _
    change (throwIf (reply = .sigpipe) .sigpipe : Process Unit).Provoked fault _
    rw [hpassed]
    exact trivial

theorem sendAll_provoked (sockets : Sockets) (requests : List Request) :
    (sockets.sendAll requests).Provoked fault log := by
  induction requests generalizing log with
  | nil => exact trivial
  | cons r requests ih => exact (send_provoked sockets _).bind fun _ _ _ => ih

theorem respond_provoked (sockets : Sockets) (t : AutoTrader π ε) (pass : Pass) :
    (sockets.respond t pass).Provoked fault log := by
  cases pass with
  | unknownType type => exact write_harmless trivial
  | called callback =>
    cases callback with
    | onOrderBookUpdate update =>
      apply write_harmless
      exact (sendAll_provoked sockets _).bind fun _ _ _ => trivial
    | onOrderStatusUpdate => exact trivial
    | onPositionUpdate => exact trivial

theorem loopPass_provoked (sockets : Sockets) (log : List SystemEvent)
    (state : Message UInt8 × AutoTrader π ε) : (sockets.loopPass state).Provoked fault log := by
  apply (poll_provoked sockets state.1).bind
  intro _ polled _
  cases polled with
  | none => exact trivial
  | some msg => exact (respond_provoked sockets _ _).bind fun _ _ _ => trivial

end Sockets

theorem mainBody_provoked (link : MarketLink) (polls : Nat) :
    (mainBody link polls).Provoked fault [] := by
  apply (initConnection_provoked link).bind
  intro _ sockets _
  have hlogin : ∀ log, (sockets.registerTrader mainTrader mainTrader_printable).Provoked fault log :=
    fun _ => Sockets.send_provoked sockets _
  apply (hlogin _).bind
  intro _ _ _
  exact (Provoked.iterate (Sockets.loopPass_provoked sockets) polls _ _).bind fun _ _ _ => trivial

theorem main_faultless {link : MarketLink} {polls : Nat} {events : List SystemEvent}
    (h : Runs (main link polls) events (.ok .running)) : Faultless fault [] events := by
  rcases runs_handle h with ⟨value, _, hbody⟩ | ⟨error, first, written, rfl, _, hcaught⟩
  · exact (mainBody_provoked link polls).runs hbody
  · rcases mainHandler_runs hcaught with ⟨_, _, hexit⟩ | ⟨_, hexit, _⟩ <;> cases hexit

/-- `main` runs for as long as every call on the system goes well. The first one that does not
is the last it makes, but for the line it prints about this one before it returns 1. -/
theorem main_exit (link : MarketLink) (polls : Nat) (events : List SystemEvent) (exit : Exit)
    (h : Runs (main link polls) events (.ok exit)) :
    (exit = .running ∧ Faultless fault [] events) ∨
    ∃ earlier last error, fault earlier last = some error ∧ Faultless fault [] earlier ∧
      ((∃ text, caughtLine error = some text ∧ exit = .returned 1 ∧
          events = earlier ++ [last, ⟨.write .cerr text, ()⟩]) ∨
        error = .sigpipe ∧ exit = .killed ∧ events = earlier ++ [last]) := by
  rcases runs_handle h with ⟨value, hvalue, hbody⟩ | ⟨error, first, written, rfl, hbody, hcaught⟩
  · have hfine := (mainBody_provoked link polls).runs hbody
    cases hvalue
    have hrunning : exit = .running := by
      rcases mainBody_session hbody with ⟨_, _, what, herror⟩ | ⟨_, hexit, _⟩
      · cases herror
      · exact hexit
    exact Or.inl ⟨hrunning, hfine⟩
  · obtain ⟨earlier, last, rfl, hfault, hfine⟩ := (mainBody_provoked link polls).runs hbody
    refine Or.inr ⟨earlier, last, error, hfault, hfine, ?_⟩
    rcases mainHandler_runs hcaught with ⟨rfl, rfl, hexit⟩ | ⟨_, hexit, text, rfl, htext⟩
    · cases hexit
      exact Or.inr ⟨rfl, rfl, List.append_nil _⟩
    · cases hexit
      exact Or.inl ⟨text, htext, rfl, List.append_assoc _ _ _⟩

/-- The exchange resets the connection (`errno` 104) before the first poll. -/
def resetRun : List SystemEvent × Except Empty Exit :=
  run (goodSystem [.failed 104]) [] (main mainLink 1)

theorem resetRun_runs : Runs (main mainLink 1) resetRun.1 (.ok (.returned 1)) := run_runs _ _ _

theorem resetRun_exit : (Exit.returned 1 = .running ∧ Faultless fault [] resetRun.1) ∨
    ∃ earlier last error, fault earlier last = some error ∧ Faultless fault [] earlier ∧
      ((∃ text, caughtLine error = some text ∧ Exit.returned 1 = .returned 1 ∧
          resetRun.1 = earlier ++ [last, ⟨.write .cerr text, ()⟩]) ∨
        error = .sigpipe ∧ Exit.returned 1 = .killed ∧ resetRun.1 = earlier ++ [last]) :=
  main_exit mainLink 1 resetRun.1 (.returned 1) resetRun_runs

end RtoAutotrader
