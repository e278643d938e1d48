import RtoAutotrader.Startup

namespace RtoAutotrader

open Program

def AsksForDatagrams (event : SystemEvent) : Prop := event.call = .socket .SOCK_DGRAM

instance (event : SystemEvent) : Decidable (AsksForDatagrams event) :=
  inferInstanceAs (Decidable (event.call = .socket .SOCK_DGRAM))

/-- The two texts for `inet_pton`: it is used for the information socket once there is one. -/
def invalidAddress (log : List SystemEvent) : String :=
  if ∃ event ∈ log, AsksForDatagrams event then "invalid address" else "invalid address for socket"

/-- How a reply ends the program, if it does. -/
def fault (log : List SystemEvent) : SystemEvent → Option Abort
  | ⟨.socket .SOCK_STREAM, sock⟩ =>
    if sock < 0 then some (.runtime_error "failed to create socket") else none
  | ⟨.socket .SOCK_DGRAM, sock⟩ =>
    if sock < 0 then some (.runtime_error "socket creation error") else none
  | ⟨.setsockopt _, reused⟩ =>
    if reused < 0 then some (.runtime_error "setsockopt(SO_REUSEADDR) failed") else none
  | ⟨.inet_pton _, some _⟩ => none
  | ⟨.inet_pton _, none⟩ => some (.runtime_error (invalidAddress log))
  | ⟨.connect _ _, connected⟩ =>
    if connected < 0 then some (.runtime_error "socket connection failed") else none
  | ⟨.bind _ _, bound⟩ => if bound < 0 then some (.runtime_error "connection failed") else none
  | ⟨.getFlags _, _⟩ => none
  | ⟨.setFlags _ _, set⟩ =>
    if set < 0 then some (.runtime_error "failed to set sock to non-blocking") else none
  | ⟨.read _, .failed errno⟩ => if errno ≠ EWOULDBLOCK then some (.errno errno) else none
  | ⟨.read _, .returned _⟩ => none
  | ⟨.send _ _, reply⟩ => if reply = .sigpipe then some .sigpipe else none
  | ⟨.write _ _, _⟩ => none

variable {log : List SystemEvent}

theorem write_harmless {α : Type} {output : Output} {text : String} {f : Unit → Process α}
    (h : (f ()).Provoked fault (log ++ [⟨.write output text, ()⟩])) :
    ((syscall (.write output text)).bind f).Provoked fault log :=
  Provoked.harmless (fun _ => rfl) fun _ => h

/-- The last steps of both sockets. -/
theorem nonBlocking_provoked {α : Type} (sock : Int) {f : Process α}
    (h : ∀ log, f.Provoked fault log) :
    ((syscall (.getFlags sock)).bind fun flags =>
      (syscall (.setFlags sock (flags ||| O_NONBLOCK))).bind fun set =>
        (throwIf (set < 0) (.runtime_error "failed to set sock to non-blocking")).bind fun _ =>
          f).Provoked fault log :=
  Provoked.harmless (fun _ => rfl) fun _ => Provoked.checked (fun _ => rfl) fun _ => h _

theorem resolve_provoked {α : Type} (host : String) {text : String} {f : List UInt8 → Process α}
    (htext : invalidAddress log = text)
    (h : ∀ sin_addr, (f sin_addr).Provoked fault (log ++ [⟨.inet_pton host, some sin_addr⟩])) :
    ((syscall (.inet_pton host)).bind fun found =>
      (orThrow found (.runtime_error text)).bind f).Provoked fault log := by
  intro found
  cases found with
  | none =>
    refine ⟨?_, fun hfine => by cases hfine⟩
    intro error hfault
    cases hfault
    rw [htext]
    rfl
  | some sin_addr => exact ⟨fun _ hfault => (by cases hfault), fun _ => h sin_addr⟩

theorem createExecutionSocket_provoked (link : MarketLink) :
    link.createExecutionSocket.Provoked fault [] := by
  apply write_harmless
  refine Provoked.checked (fun _ => rfl) fun sock => ?_
  refine resolve_provoked _ rfl fun sin_addr => ?_
  refine Provoked.checked (fun _ => rfl) fun _ => ?_
  exact nonBlocking_provoked _ fun _ => write_harmless trivial

theorem createInformationSocket_provoked (link : MarketLink) (log : List SystemEvent) :
    link.createInformationSocket.Provoked fault log := by
  apply write_harmless
  refine Provoked.checked (fun _ => rfl) fun sock => ?_
  refine Provoked.checked (fun _ => rfl) fun _ => ?_
  refine resolve_provoked _ (if_pos ⟨⟨.socket .SOCK_DGRAM, sock⟩, by simp, rfl⟩) fun sin_addr => ?_
  refine Provoked.checked (fun _ => rfl) fun _ => ?_
  exact nonBlocking_provoked _ fun _ => write_harmless trivial

theorem initConnection_provoked (link : MarketLink) : link.initConnection.Provoked fault [] :=
  (createExecutionSocket_provoked link).bind fun _ _ _ =>
    (createInformationSocket_provoked link _).bind fun _ _ _ => trivial

theorem fault_text {event : SystemEvent} {error : Abort} (hplain : ¬event.call.Traffic)
    (h : fault log event = some error) : ∃ what, error = .runtime_error what := by
  unfold fault at h
  split at h
  all_goals first
    | exact absurd trivial hplain
    | split_ifs at h <;> exact ⟨_, (Option.some.inj h).symm⟩
    | cases h <;> exact ⟨_, rfl⟩

/-- The set-up of the sockets fails with a text. -/
theorem initConnection_error {link : MarketLink} {events : List SystemEvent} {error : Abort}
    (h : Runs link.initConnection events (.error error)) : ∃ what, error = .runtime_error what := by
  obtain ⟨earlier, last, rfl, hfault, _⟩ := (initConnection_provoked link).runs h
  exact fault_text (initConnection_plain h last (by simp)) hfault

end RtoAutotrader
