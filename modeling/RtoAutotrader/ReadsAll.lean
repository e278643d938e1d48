import RtoAutotrader.ReadsInTurn

namespace RtoAutotrader

open Program

namespace Network

/-- From a time on nothing more comes in. -/
def QuietFrom (network : Network) (T : Nat) : Prop :=
  ∀ n, T ≤ n → network.stream.arrived n = network.stream.arrived T ∧
    network.datagrams.arrived n = network.datagrams.arrived T

/-- How many calls, bytes and datagrams there are at most before all is read. Once the stream is
closed no datagram is. -/
def left (network : Network) (sockets : Sockets) (T : Nat) (log : List SystemEvent) : Nat :=
  (T - log.length) +
    ((network.stream.arrived T).length - (taken Chunk.data sockets.exec_sock_ log).length) +
    if network.closing = none then
      (network.chunks.arrived T).length - (taken Chunk.whole sockets.info_sock_ log).length
    else 0

variable {network : Network} {sockets : Sockets} {T : Nat} {log : List SystemEvent}

theorem left_mono (more : List SystemEvent) :
    network.left sockets T (log ++ more) ≤ network.left sockets T log := by
  have hstream := taken_length_mono Chunk.data sockets.exec_sock_ log more
  have hdatagrams := taken_length_mono Chunk.whole sockets.info_sock_ log more
  unfold left
  rw [List.length_append]
  split_ifs <;> omega

/-- A call before the end of what comes in brings that end nearer. -/
theorem left_early {more : List SystemEvent} (hearly : log.length < T) (hmore : more ≠ []) :
    network.left sockets T (log ++ more) ≤ network.left sockets T log - 1 := by
  have hlength := List.length_pos_of_ne_nil hmore
  have hstream := taken_length_mono Chunk.data sockets.exec_sock_ log more
  have hdatagrams := taken_length_mono Chunk.whole sockets.info_sock_ log more
  unfold left
  rw [List.length_append]
  split_ifs <;> omega

end Network

namespace Sockets

variable {π ε : Type} [PricingModel π] [TradeExecutor ε] {sockets : Sockets} {network : Network}
  {T : Nat} {log : List SystemEvent}

/-- A poll after the end of what comes in reads some of it, or finds that all is read. -/
theorem poll_left {msg : Message UInt8} {events : List SystemEvent}
    {polled : Option (Message UInt8)} (hlate : T ≤ log.length)
    (hquiet : network.QuietFrom T) (hserves : network.Serves sockets (log ++ events))
    (h : Polled sockets msg events (.ok polled)) :
    network.left sockets T (log ++ events) ≤ network.left sockets T log - 1 := by
  obtain ⟨hstream, _⟩ := hquiet log.length hlate
  have hstreamMono := taken_length_mono Chunk.data sockets.exec_sock_ log events
  have hdatagramsMono := taken_length_mono Chunk.whole sockets.info_sock_ log events
  have hlater : ∀ events : List SystemEvent, T ≤ (log ++ events).length := by
    intro events
    rw [List.length_append]
    omega
  have hchunks : ∀ events : List SystemEvent,
      network.chunks.arrived (log ++ events).length = network.chunks.arrived T :=
    fun events => congrArg (List.map Chunk.first) (hquiet _ (hlater events)).2
  have hafter := hlater events
  unfold Network.left
  cases h with
  | exec chunk =>
    obtain ⟨hfront, hend⟩ := hserves.stream log _ [] rfl
    have hlength := hfront.length_le
    rw [hstream, List.length_append] at hlength
    have htaken : (taken Chunk.data sockets.exec_sock_
        (log ++ [⟨.read sockets.exec_sock_, ReadResult.returned chunk⟩])).length =
        (taken Chunk.data sockets.exec_sock_ log).length + chunk.data.length := by
      rw [taken_append, taken_returned, List.length_append]
    by_cases hdata : chunk.data = []
    · -- the stream is closed, and all of it was read
      obtain ⟨hall, closed, hclosing, _⟩ := hend hdata
      rw [hstream] at hall
      have hsome : ¬network.closing = none := by simp [hclosing]
      rw [if_neg hsome, if_neg hsome, hall]
      omega
    · have hpos := List.length_pos_of_ne_nil hdata
      split_ifs <;> omega
  | info chunk =>
    rw [List.append_cons] at hserves hstreamMono hafter ⊢
    obtain ⟨hall, _⟩ := (hserves.stream.earlier log _ [] rfl) rfl
    rw [hstream] at hall
    have hlength := (hserves.datagrams _ _ [] rfl).1.length_le
    rw [hchunks, List.length_append, taken_append, taken_failed, List.append_nil] at hlength
    have hwhole : (Chunk.whole chunk).length = 1 := rfl
    have htaken : (taken Chunk.whole sockets.info_sock_
        (log ++ [⟨.read sockets.exec_sock_, ReadResult.failed EWOULDBLOCK⟩] ++
          [⟨.read sockets.info_sock_, ReadResult.returned chunk⟩])).length =
        (taken Chunk.whole sockets.info_sock_ log).length + chunk.whole.length := by
      rw [taken_append, taken_append, taken_failed, taken_returned, List.append_nil,
        List.length_append]
    rw [hall]
    split_ifs <;> omega
  | nothing =>
    rw [List.append_cons] at hserves hstreamMono hdatagramsMono hafter ⊢
    obtain ⟨hstreamRead, _⟩ := (hserves.stream.earlier log _ [] rfl) rfl
    obtain ⟨hdatagramsRead, _⟩ := (hserves.datagrams _ _ [] rfl) rfl
    rw [hstream] at hstreamRead
    rw [hchunks, taken_append, taken_failed, List.append_nil] at hdatagramsRead
    rw [hstreamRead, hdatagramsRead]
    split_ifs <;> omega

/-- As long as anything is left to read or to come in, a pass of the loop makes that less. -/
theorem loopPass_left {state state' : Message UInt8 × AutoTrader π ε} {events : List SystemEvent}
    (hquiet : network.QuietFrom T) (hserves : network.Serves sockets (log ++ events))
    (h : Runs (sockets.loopPass state) events (.ok state')) :
    network.left sockets T (log ++ events) ≤ network.left sockets T log - 1 := by
  obtain ⟨_, polled, _, rfl, hpolled, _⟩ := runs_bind_ok h
  rw [← List.append_assoc] at hserves ⊢
  refine Nat.le_trans (Network.left_mono _) ?_
  by_cases hearly : log.length < T
  · apply Network.left_early hearly
    cases poll_runs hpolled <;> exact List.cons_ne_nil _ _
  · exact poll_left (Nat.not_lt.mp hearly) hquiet hserves.earlier (poll_runs hpolled)

theorem loop_left (polls : Nat) {state state' : Message UInt8 × AutoTrader π ε}
    {events : List SystemEvent} (hquiet : network.QuietFrom T)
    (hserves : network.Serves sockets (log ++ events))
    (h : Runs (iterate sockets.loopPass polls state) events (.ok state')) :
    network.left sockets T (log ++ events) ≤ network.left sockets T log - polls := by
  induction polls generalizing log state events with
  | zero => exact Network.left_mono events
  | succ polls ih =>
    obtain ⟨_, first, later, rfl, hfirst, hlater⟩ := runs_bind_ok h
    rw [← List.append_assoc] at hserves ⊢
    have hpass := loopPass_left hquiet hserves.earlier hfirst
    have hrest := ih hserves hlater
    omega

end Sockets

namespace Network

variable {network : Network} {sockets : Sockets} {T : Nat} {log : List SystemEvent}

theorem left_le (network : Network) (sockets : Sockets) (T : Nat) (log : List SystemEvent) :
    network.left sockets T log ≤
      T + (network.stream.arrived T).length + (network.datagrams.arrived T).length := by
  have hchunks : (network.chunks.arrived T).length = (network.datagrams.arrived T).length :=
    List.length_map _
  unfold left
  split_ifs <;> omega

theorem read_all (hserves : network.Serves sockets log) (hquiet : network.QuietFrom T)
    (h : network.left sockets T log = 0) :
    taken Chunk.data sockets.exec_sock_ log = network.stream.arrived T ∧
      (network.closing = none →
        taken Chunk.whole sockets.info_sock_ log = network.chunks.arrived T) := by
  unfold left at h
  have hstream := hserves.stream.taken_prefix
  have hdatagrams := hserves.datagrams.taken_prefix
  obtain ⟨hstreamLast, hdatagramsLast⟩ := hquiet log.length (by omega)
  have hchunksLast : network.chunks.arrived log.length = network.chunks.arrived T :=
    congrArg (List.map Chunk.first) hdatagramsLast
  rw [hstreamLast] at hstream
  rw [hchunksLast] at hdatagrams
  refine ⟨hstream.eq_of_length_le (by omega), fun hopen => ?_⟩
  rw [if_pos hopen] at h
  exact hdatagrams.eq_of_length_le (by omega)

end Network

/-- Whatever comes in, bytes and datagrams at any times and in any pieces: once no more of it
comes, `main` has read all bytes of the stream in order, after as many polls as there were calls,
bytes and datagrams, and if the stream stays open all datagrams too. -/
theorem main_reads_all (link : MarketLink) (polls : Nat) (events : List SystemEvent)
    (h : Runs (main link polls) events (.ok .running)) (network : Network)
    (hserves : ∀ sockets, link.Connected sockets events → network.Serves sockets events) (T : Nat)
    (hquiet : network.QuietFrom T)
    (hpolls : T + (network.stream.arrived T).length + (network.datagrams.arrived T).length ≤ polls) :
    ∃ sockets, link.Connected sockets events ∧
      taken Chunk.data sockets.exec_sock_ events = network.stream.arrived T ∧
      (network.closing = none → taken Chunk.whole sockets.info_sock_ events =
        (network.datagrams.arrived T).map Chunk.first) := by
  rcases runs_handle h with ⟨exit, hexit, hbody⟩ | ⟨error, first, last, _, _, hcaught⟩
  · obtain ⟨sockets, startup, rest, rfl, hstartup, hrest⟩ := runs_bind_ok hbody
    obtain ⟨hexec, hinfo⟩ := MarketLink.initConnection_ready hstartup
    have hstarted : link.Connected sockets startup := ⟨hexec, hinfo⟩
    have hconnected : link.Connected sockets (startup ++ rest) :=
      Sockets.connected_append hstarted rest
    have hserved := hserves sockets hconnected
    obtain ⟨_, login, later, rfl, _, hlater⟩ := runs_bind_ok hrest
    obtain ⟨_, loop, last, rfl, hloop, hlast⟩ := runs_bind_ok hlater
    obtain ⟨rfl, _⟩ := runs_done hlast
    refine ⟨sockets, hconnected, ?_⟩
    apply Network.read_all hserved hquiet
    rw [List.append_nil, ← List.append_assoc] at hserved ⊢
    have hleft := Sockets.loop_left polls hquiet hserved hloop
    have hmost := network.left_le sockets T (startup ++ login)
    omega
  · rcases mainHandler_runs hcaught with ⟨_, _, hexit⟩ | ⟨_, hexit, _⟩ <;> cases hexit

theorem reportRun_reads_all : ∃ sockets, mainLink.Connected sockets reportRun.1 ∧
    taken Chunk.data sockets.exec_sock_ reportRun.1 =
      [0, 11, POSITION_UPDATE_TYPE, 0, 0, 0, 0, 0, 0, 0, 90] ∧
    (reportNetwork.closing = none →
      taken Chunk.whole sockets.info_sock_ reportRun.1 = [Chunk.first olderFrame.chunk.data]) := by
  refine main_reads_all mainLink 28 reportRun.1 reportRun_runs reportNetwork
    (fun _ h => networkSystem_serves h) 16 ?_ (Nat.le_refl 28)
  intro n hn
  exact ⟨(if_neg (Nat.not_lt.mpr hn)).trans rfl, (if_neg (Nat.not_lt.mpr hn)).trans rfl⟩

end RtoAutotrader
