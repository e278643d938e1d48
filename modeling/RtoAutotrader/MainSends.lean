import RtoAutotrader.MainRuns

namespace RtoAutotrader

open Program

/-- The replies that the program does not tell apart: those of its writes, and of its sends all
but the one that ends the process. -/
def Syscall.Unchecked : (c : Syscall) → c.Reply → c.Reply → Prop
  | .send _ _, reply, reply' => reply ≠ .sigpipe ∧ reply' ≠ .sigpipe
  | .write _ _, _, _ => True
  | _, _, _ => False

theorem write_blind {ε α : Type} {output : Output} {text : String}
    {p : Program Syscall Syscall.Reply ε α} (h : p.Blind Syscall.Unchecked) :
    ((syscall (.write output text)).bind fun _ => p).Blind Syscall.Unchecked := h.ignore

theorem checked_blind {c : Syscall} (h : ∀ reply reply', ¬c.Unchecked reply reply') :
    (syscall c : Process c.Reply).Blind Syscall.Unchecked := .call h

theorem createExecutionSocket_blind (link : MarketLink) :
    link.createExecutionSocket.Blind Syscall.Unchecked := by
  apply write_blind
  refine (checked_blind fun _ _ => id).bind fun _ => ?_
  refine (Blind.throwIf _ _).bind fun _ => ?_
  refine (checked_blind fun _ _ => id).bind fun _ => ?_
  refine (Blind.orThrow _ _).bind fun _ => ?_
  refine (checked_blind fun _ _ => id).bind fun _ => ?_
  refine (Blind.throwIf _ _).bind fun _ => ?_
  refine (checked_blind fun _ _ => id).bind fun _ => ?_
  refine (checked_blind fun _ _ => id).bind fun _ => ?_
  refine (Blind.throwIf _ _).bind fun _ => ?_
  exact write_blind trivial

theorem createInformationSocket_blind (link : MarketLink) :
    link.createInformationSocket.Blind Syscall.Unchecked := by
  apply write_blind
  refine (checked_blind fun _ _ => id).bind fun _ => ?_
  refine (Blind.throwIf _ _).bind fun _ => ?_
  refine (checked_blind fun _ _ => id).bind fun _ => ?_
  refine (Blind.throwIf _ _).bind fun _ => ?_
  refine (checked_blind fun _ _ => id).bind fun _ => ?_
  refine (Blind.orThrow _ _).bind fun _ => ?_
  refine (checked_blind fun _ _ => id).bind fun _ => ?_
  refine (Blind.throwIf _ _).bind fun _ => ?_
  refine (checked_blind fun _ _ => id).bind fun _ => ?_
  refine (checked_blind fun _ _ => id).bind fun _ => ?_
  refine (Blind.throwIf _ _).bind fun _ => ?_
  exact write_blind trivial

namespace Sockets

variable {π ε : Type} [PricingModel π] [TradeExecutor ε]

theorem poll_blind (sockets : Sockets) (msg : Message UInt8) :
    (sockets.poll msg).Blind Syscall.Unchecked := by
  apply (checked_blind fun _ _ => id).bind
  intro first
  cases first with
  | returned chunk => exact trivial
  | failed errno =>
    refine (Blind.throwIf _ _).bind fun _ => ?_
    apply (checked_blind fun _ _ => id).bind
    intro second
    cases second with
    | returned chunk => exact trivial
    | failed errno => exact (Blind.throwIf _ _).bind fun _ => trivial

theorem send_blind (sockets : Sockets) (data : List UInt8) :
    (sockets.send data).Blind Syscall.Unchecked := by
  apply Blind.checked
  rintro reply reply' ⟨hreply, hreply'⟩
  exact iff_of_false hreply hreply'

theorem sendAll_blind (sockets : Sockets) (requests : List Request) :
    (sockets.sendAll requests).Blind Syscall.Unchecked := by
  induction requests with
  | nil => exact trivial
  | cons r requests ih => exact (send_blind sockets _).bind fun _ => ih

theorem respond_blind (sockets : Sockets) (t : AutoTrader π ε) (pass : Pass) :
    (sockets.respond t pass).Blind Syscall.Unchecked := by
  cases pass with
  | unknownType type => exact write_blind trivial
  | called callback =>
    cases callback with
    | onOrderBookUpdate update =>
      apply write_blind
      exact (sendAll_blind sockets _).bind fun _ => trivial
    | onOrderStatusUpdate => exact trivial
    | onPositionUpdate => exact trivial

theorem loopPass_blind (sockets : Sockets) (state : Message UInt8 × AutoTrader π ε) :
    (sockets.loopPass state).Blind Syscall.Unchecked := by
  apply (poll_blind sockets state.1).bind
  intro polled
  cases polled with
  | none => exact trivial
  | some msg => exact (respond_blind sockets _ _).bind fun _ => trivial

end Sockets

theorem mainBody_blind (link : MarketLink) (polls : Nat) :
    (mainBody link polls).Blind Syscall.Unchecked := by
  refine Blind.bind ?_ fun sockets => ?_
  · refine (createExecutionSocket_blind link).bind fun _ => ?_
    exact (createInformationSocket_blind link).bind fun _ => trivial
  · have hlogin : (sockets.registerTrader mainTrader mainTrader_printable).Blind
        Syscall.Unchecked := Sockets.send_blind sockets _
    refine hlogin.bind fun _ => ?_
    exact (Blind.iterate sockets.loopPass_blind polls _).bind fun _ => trivial

/-- No outcome of a `send` that comes back, the login's included, changes what `main` does next:
with any other outcomes it makes the same calls, and ends the same way. -/
theorem main_ignores_sends (link : MarketLink) (polls : Nat) (events events' : List SystemEvent)
    (result : Except Empty Exit) (h : Runs (main link polls) events result)
    (halike : List.Forall₂ (Alike Syscall.Unchecked) events events') :
    Runs (main link polls) events' result := by
  have hmain : (main link polls).Blind Syscall.Unchecked := by
    apply (mainBody_blind link polls).handle
    intro error
    cases error with
    | sigpipe => exact trivial
    | _ => exact write_blind trivial
  exact hmain.runs h halike

/-- The event in which a `send` that came back fails instead. -/
def unsent : SystemEvent → SystemEvent
  | ⟨.send sock data, .returned _⟩ => ⟨.send sock data, SendReply.returned .failed⟩
  | event => event

theorem unsent_alike (event : SystemEvent) : Alike Syscall.Unchecked event (unsent event) := by
  obtain ⟨call, reply⟩ := event
  cases call with
  | send sock data =>
    cases reply with
    | returned result => exact .same _ _ _ ⟨by simp, by simp⟩
    | sigpipe => exact .refl _
  | _ => exact .refl _

/-- A book is answered although the login has failed, and the orders with it. -/
theorem bookRun_unsent : Runs (main mainLink 4) (bookRun.1.map unsent) (.ok .running) :=
  main_ignores_sends mainLink 4 bookRun.1 (bookRun.1.map unsent) (.ok .running) bookRun_runs
    (List.forall₂_map_right_iff.mpr (List.forall₂_same.mpr fun event _ => unsent_alike event))

end RtoAutotrader
