import RtoAutotrader.LoopRuns

namespace RtoAutotrader

open Program

/-- The two calls that use a connection. -/
def Syscall.Traffic : Syscall → Prop
  | .read _ => True
  | .send _ _ => True
  | _ => False

namespace MarketLink

/-- A stream socket that was connected to the execution host and then made non-blocking, its
other flags kept. -/
def ExecReady (link : MarketLink) (sock : Int) (log : List SystemEvent) : Prop :=
  ∃ (sin_addr : List UInt8) (connected set : Int) (flags : BitVec 32),
    0 ≤ sock ∧ 0 ≤ connected ∧ 0 ≤ set ∧ List.Sublist
      [(⟨.socket .SOCK_STREAM, sock⟩ : SystemEvent), ⟨.inet_pton link.exec_host_, some sin_addr⟩,
        ⟨.connect sock ⟨sinPort link.exec_port_, sin_addr⟩, connected⟩, ⟨.getFlags sock, flags⟩,
        ⟨.setFlags sock (flags ||| O_NONBLOCK), set⟩] log

/-- A datagram socket whose address may be shared, bound to the information host's and then
made non-blocking. -/
def InfoReady (link : MarketLink) (sock : Int) (log : List SystemEvent) : Prop :=
  ∃ (sin_addr : List UInt8) (reused bound set : Int) (flags : BitVec 32),
    0 ≤ sock ∧ 0 ≤ reused ∧ 0 ≤ bound ∧ 0 ≤ set ∧ List.Sublist
      [(⟨.socket .SOCK_DGRAM, sock⟩ : SystemEvent), ⟨.setsockopt sock, reused⟩,
        ⟨.inet_pton link.info_host_, some sin_addr⟩,
        ⟨.bind sock ⟨sinPort link.info_port_, sin_addr⟩, bound⟩, ⟨.getFlags sock, flags⟩,
        ⟨.setFlags sock (flags ||| O_NONBLOCK), set⟩] log

variable {link : MarketLink} {events log : List SystemEvent}

theorem ExecReady.mono {sock : Int} (h : link.ExecReady sock log) (hsub : log.Sublist events) :
    link.ExecReady sock events := by
  obtain ⟨sin_addr, connected, set, flags, hsock, hconnected, hset, hlog⟩ := h
  exact ⟨sin_addr, connected, set, flags, hsock, hconnected, hset, hlog.trans hsub⟩

theorem InfoReady.mono {sock : Int} (h : link.InfoReady sock log) (hsub : log.Sublist events) :
    link.InfoReady sock events := by
  obtain ⟨sin_addr, reused, bound, set, flags, hsock, hreused, hbound, hset, hlog⟩ := h
  exact ⟨sin_addr, reused, bound, set, flags, hsock, hreused, hbound, hset, hlog.trans hsub⟩

theorem createExecutionSocket_ready {sock : Int}
    (h : Runs link.createExecutionSocket events (.ok sock)) : link.ExecReady sock events := by
  obtain ⟨_, _, rfl, h1⟩ := runs_call h
  obtain ⟨sock', _, rfl, h2⟩ := runs_call h1
  obtain ⟨hsock, h3⟩ := runs_throwIf_ok h2
  obtain ⟨_, _, rfl, h4⟩ := runs_call h3
  obtain ⟨sin_addr, rfl, h5⟩ := runs_orThrow_ok h4
  obtain ⟨connected, _, rfl, h6⟩ := runs_call h5
  obtain ⟨hconnected, h7⟩ := runs_throwIf_ok h6
  obtain ⟨flags, _, rfl, h8⟩ := runs_call h7
  obtain ⟨set, _, rfl, h9⟩ := runs_call h8
  obtain ⟨hset, h10⟩ := runs_throwIf_ok h9
  obtain ⟨_, _, rfl, h11⟩ := runs_call h10
  obtain ⟨rfl, heq⟩ := runs_done h11
  cases heq
  refine ⟨sin_addr, connected, set, flags, Int.not_lt.mp hsock, Int.not_lt.mp hconnected,
    Int.not_lt.mp hset, ?_⟩
  exact (List.sublist_append_left _ [_]).cons _

theorem createInformationSocket_ready {sock : Int}
    (h : Runs link.createInformationSocket events (.ok sock)) : link.InfoReady sock events := by
  obtain ⟨_, _, rfl, h1⟩ := runs_call h
  obtain ⟨sock', _, rfl, h2⟩ := runs_call h1
  obtain ⟨hsock, h3⟩ := runs_throwIf_ok h2
  obtain ⟨reused, _, rfl, h4⟩ := runs_call h3
  obtain ⟨hreused, h5⟩ := runs_throwIf_ok h4
  obtain ⟨_, _, rfl, h6⟩ := runs_call h5
  obtain ⟨sin_addr, rfl, h7⟩ := runs_orThrow_ok h6
  obtain ⟨bound, _, rfl, h8⟩ := runs_call h7
  obtain ⟨hbound, h9⟩ := runs_throwIf_ok h8
  obtain ⟨flags, _, rfl, h10⟩ := runs_call h9
  obtain ⟨set, _, rfl, h11⟩ := runs_call h10
  obtain ⟨hset, h12⟩ := runs_throwIf_ok h11
  obtain ⟨_, _, rfl, h13⟩ := runs_call h12
  obtain ⟨rfl, heq⟩ := runs_done h13
  cases heq
  refine ⟨sin_addr, reused, bound, set, flags, Int.not_lt.mp hsock, Int.not_lt.mp hreused,
    Int.not_lt.mp hbound, Int.not_lt.mp hset, ?_⟩
  exact (List.sublist_append_left _ [_]).cons _

/-- Before there are two sockets there is no traffic. -/
theorem initConnection_obeys {P : List SystemEvent → Syscall → Prop}
    (h : ∀ log c, ¬c.Traffic → P log c) : link.initConnection.Obeys P log := by
  have hcall : ∀ {log : List SystemEvent} {c : Syscall}, ¬c.Traffic →
      (syscall c : Process c.Reply).Obeys P log := fun hc => .call (h _ _ hc)
  have hexec : link.createExecutionSocket.Obeys P log := by
    refine (hcall id).bind fun _ _ _ => ?_
    refine (hcall id).bind fun _ _ _ => ?_
    refine (Obeys.throwIf _ _).bind fun _ _ _ => ?_
    refine (hcall id).bind fun _ _ _ => ?_
    refine (Obeys.orThrow _ _).bind fun _ _ _ => ?_
    refine (hcall id).bind fun _ _ _ => ?_
    refine (Obeys.throwIf _ _).bind fun _ _ _ => ?_
    refine (hcall id).bind fun _ _ _ => ?_
    refine (hcall id).bind fun _ _ _ => ?_
    refine (Obeys.throwIf _ _).bind fun _ _ _ => ?_
    exact (hcall id).bind fun _ _ _ => trivial
  refine hexec.bind fun _ _ _ => Obeys.bind ?_ fun _ _ _ => trivial
  refine (hcall id).bind fun _ _ _ => ?_
  refine (hcall id).bind fun _ _ _ => ?_
  refine (Obeys.throwIf _ _).bind fun _ _ _ => ?_
  refine (hcall id).bind fun _ _ _ => ?_
  refine (Obeys.throwIf _ _).bind fun _ _ _ => ?_
  refine (hcall id).bind fun _ _ _ => ?_
  refine (Obeys.orThrow _ _).bind fun _ _ _ => ?_
  refine (hcall id).bind fun _ _ _ => ?_
  refine (Obeys.throwIf _ _).bind fun _ _ _ => ?_
  refine (hcall id).bind fun _ _ _ => ?_
  refine (hcall id).bind fun _ _ _ => ?_
  refine (Obeys.throwIf _ _).bind fun _ _ _ => ?_
  exact (hcall id).bind fun _ _ _ => trivial

theorem initConnection_ready {sockets : Sockets}
    (h : Runs link.initConnection events (.ok sockets)) :
    link.ExecReady sockets.exec_sock_ events ∧ link.InfoReady sockets.info_sock_ events := by
  obtain ⟨exec_sock, first, second, rfl, hexec, hrest⟩ := runs_bind_ok h
  obtain ⟨info_sock, third, last, rfl, hinfo, hdone⟩ := runs_bind_ok hrest
  obtain ⟨rfl, heq⟩ := runs_done hdone
  cases heq
  rw [List.append_nil]
  exact ⟨(createExecutionSocket_ready hexec).mono (List.sublist_append_left _ _),
    (createInformationSocket_ready hinfo).mono (List.sublist_append_right _ _)⟩

end MarketLink

theorem initConnection_plain {link : MarketLink} {events : List SystemEvent}
    {result : Except Abort Sockets} (h : Runs link.initConnection events result) :
    ∀ event ∈ events, ¬event.call.Traffic := by
  have hobeys : link.initConnection.Obeys (fun _ c => ¬c.Traffic) [] :=
    MarketLink.initConnection_obeys fun _ _ hc => hc
  intro event hevent
  obtain ⟨earlier, later, rfl⟩ := List.append_of_mem hevent
  exact hobeys.runs h earlier event later rfl

end RtoAutotrader
