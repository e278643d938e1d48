import RtoAutotrader.Inbox
import RtoAutotrader.MainRuns

namespace RtoAutotrader

open Program

/-- What comes in at the two sockets: the bytes of a stream, which the exchange may close, and
datagrams of any size. -/
structure Network where
  stream : Inbox UInt8
  closing : Option Nat
  datagrams : Inbox (List UInt8)

namespace Network

/-- The datagrams as they are read. -/
def chunks (network : Network) : Inbox Chunk := network.datagrams.map Chunk.first

structure Serves (network : Network) (sockets : Sockets) (events : List SystemEvent) : Prop where
  stream : network.stream.Serves network.closing Chunk.data sockets.exec_sock_ events
  datagrams : network.chunks.Serves none Chunk.whole sockets.info_sock_ events
  apart : sockets.exec_sock_ ≠ sockets.info_sock_

theorem Serves.earlier {network : Network} {sockets : Sockets} {log more : List SystemEvent}
    (h : network.Serves sockets (log ++ more)) : network.Serves sockets log :=
  ⟨h.stream.earlier, h.datagrams.earlier, h.apart⟩

end Network

/-- Reads are of the two sockets, and of the information socket only right after the execution
socket had nothing. -/
def MarketLink.ReadsInTurn (link : MarketLink) (log : List SystemEvent) : Syscall → Prop
  | .read sock => ∃ sockets, link.Connected sockets log ∧ (sock = sockets.exec_sock_ ∨
      sock = sockets.info_sock_ ∧ ∃ before,
        log = before ++ [⟨.read sockets.exec_sock_, ReadResult.failed EWOULDBLOCK⟩])
  | _ => True

theorem MarketLink.readsInTurn_unread (link : MarketLink) (log : List SystemEvent) (c : Syscall)
    (h : ∀ sock, c ≠ .read sock) : link.ReadsInTurn log c := by
  cases c with
  | read sock => exact absurd rfl (h sock)
  | _ => exact trivial

namespace Sockets

variable {π ε : Type} [PricingModel π] [TradeExecutor ε] {sockets : Sockets} {link : MarketLink}
  {log : List SystemEvent}

theorem poll_inTurn (h : link.Connected sockets log) (msg : Message UInt8) :
    (sockets.poll msg).Obeys link.ReadsInTurn log := by
  refine ⟨⟨sockets, h, Or.inl rfl⟩, fun result => ?_⟩
  cases result with
  | returned chunk => exact trivial
  | failed errno =>
    apply Obeys.check
    intro herrno
    obtain rfl := not_not.mp herrno
    refine ⟨⟨sockets, connected_append h _, Or.inr ⟨rfl, log, rfl⟩⟩, fun result => ?_⟩
    cases result with
    | returned chunk => exact trivial
    | failed errno => exact Obeys.check fun _ => trivial

theorem runLoop_inTurn (h : link.Connected sockets log) (polls : Nat) (t : AutoTrader π ε) :
    (sockets.runLoop polls t).Obeys link.ReadsInTurn log := by
  refine Obeys.iterate (I := fun log _ => link.Connected sockets log) ?_ ?_ polls h
  · intro log state hlog
    apply (poll_inTurn hlog state.1).bind
    intro events polled _
    cases polled with
    | none => exact trivial
    | some msg =>
      exact (respond_obeys link.readsInTurn_unread _ _ _).bind fun _ _ _ => trivial
  · intro log state events state' hlog _
    exact connected_append hlog events

end Sockets

theorem main_inTurn (link : MarketLink) (polls : Nat) :
    (main link polls).Obeys link.ReadsInTurn [] := by
  apply main_obeys link polls
  · intro log c hplain
    apply link.readsInTurn_unread log c
    rintro sock rfl
    exact hplain trivial
  · intro startup sockets hstartup
    obtain ⟨hexec, hinfo⟩ := MarketLink.initConnection_ready hstartup
    refine ⟨fun _ => trivial, fun login _ => ?_⟩
    exact Sockets.runLoop_inTurn (Sockets.connected_append ⟨hexec, hinfo⟩ login) polls mainTrader

/-- When a datagram is read, every byte of the stream that had come in by the call before has been
read. -/
theorem main_reads_books_last (link : MarketLink) (polls : Nat) (events : List SystemEvent)
    (exit : Except Empty Exit) (h : Runs (main link polls) events exit) (network : Network)
    (hserves : ∀ sockets, link.Connected sockets events → network.Serves sockets events) :
    ∀ earlier sock result later, events = earlier ++ ⟨.read sock, result⟩ :: later →
      ∃ sockets, link.Connected sockets earlier ∧ (sock = sockets.exec_sock_ ∨
        sock = sockets.info_sock_ ∧ taken Chunk.data sockets.exec_sock_ earlier =
          network.stream.arrived (earlier.length - 1)) := by
  intro earlier sock result later hsplit
  obtain ⟨sockets, hconnected, hturn⟩ := (main_inTurn link polls).runs h earlier _ later hsplit
  rw [List.nil_append] at hconnected hturn
  refine ⟨sockets, hconnected, ?_⟩
  rcases hturn with hexec | ⟨hinfo, before, rfl⟩
  · exact Or.inl hexec
  · right
    refine ⟨hinfo, ?_⟩
    rw [hsplit] at hserves
    have hstream := (hserves sockets (Sockets.connected_append hconnected _)).stream.earlier
    rw [taken_append, taken_failed, List.append_nil, List.length_append, List.length_singleton,
      Nat.add_sub_cancel]
    exact ((hstream before _ [] rfl) rfl).1.symm

/-- A system on which every call goes well and reads are served from a network. -/
def networkSystem (network : Network) (history : List SystemEvent) : (c : Syscall) → c.Reply
  | .read sock =>
    if sock = 3 then streamReply (Inbox.ClosedBy network.closing history.length)
      (network.stream.unread Chunk.data 3 history)
    else datagramReply (network.chunks.unread Chunk.whole 4 history)
  | c => goodSystem [] history c

theorem networkSystem_serves {link : MarketLink} {polls : Nat} {network : Network}
    {sockets : Sockets} (h : link.Connected sockets
      (run (networkSystem network) [] (main link polls)).1) :
    network.Serves sockets (run (networkSystem network) [] (main link polls)).1 := by
  obtain ⟨exec_sock, info_sock⟩ := sockets
  obtain ⟨⟨_, _, _, _, _, _, _, hexec⟩, ⟨_, _, _, _, _, _, _, _, _, hinfo⟩⟩ := h
  obtain ⟨_, _, hexecSplit⟩ := List.append_of_mem (hexec.subset List.mem_cons_self)
  obtain ⟨_, _, hinfoSplit⟩ := List.append_of_mem (hinfo.subset List.mem_cons_self)
  obtain rfl : exec_sock = 3 := run_replies _ _ _ hexecSplit
  obtain rfl : info_sock = 4 := run_replies _ _ _ hinfoSplit
  refine ⟨Inbox.serves_of_prefix ?_, Inbox.serves_of_prefix ?_, by decide⟩
  · intro earlier result later hsplit hfront
    have hreply : result = streamReply (Inbox.ClosedBy network.closing earlier.length)
        (network.stream.unread Chunk.data 3 earlier) := run_replies _ _ _ hsplit
    rw [hreply]
    exact Inbox.streamReply_answers hfront
  · intro earlier result later hsplit hfront
    have hreply : result = datagramReply (network.chunks.unread Chunk.whole 4 earlier) :=
      run_replies _ _ _ hsplit
    rw [hreply]
    exact Inbox.datagramReply_answers hfront

/-- Nothing, and then all there is. -/
def Inbox.at {α : Type} (T : Nat) (messages : List α) : Inbox α where
  arrived n := if n < T then [] else messages
  grows n := by
    by_cases h : n < T
    · rw [if_pos h]
      exact List.nil_prefix
    · have hlater : ¬n + 1 < T := by omega
      simp only [h, hlater, if_false, List.prefix_rfl]

/-- A report that the position is 90 comes in together with a book. -/
def reportNetwork : Network where
  stream := .at 16 ([0, 11, POSITION_UPDATE_TYPE, 0, 0, 0, 0, 0, 0, 0, 90] : List UInt8)
  closing := none
  datagrams := .at 16 [olderFrame.chunk.data]

def reportRun : List SystemEvent × Except Empty Exit :=
  run (networkSystem reportNetwork) [] (main mainLink 28)

theorem reportRun_runs : Runs (main mainLink 28) reportRun.1 (.ok .running) := run_runs _ _ _

theorem reportRun_reads_books_last : ∃ sockets, mainLink.Connected sockets (reportRun.1.take 18) ∧
    (4 = sockets.exec_sock_ ∨ 4 = sockets.info_sock_ ∧
      taken Chunk.data sockets.exec_sock_ (reportRun.1.take 18) = reportNetwork.stream.arrived 17) :=
  main_reads_books_last mainLink 28 reportRun.1 (.ok .running) reportRun_runs reportNetwork
    (fun _ h => networkSystem_serves h) (reportRun.1.take 18) 4
    (.returned olderFrame.chunk) (reportRun.1.drop 19) rfl

end RtoAutotrader
