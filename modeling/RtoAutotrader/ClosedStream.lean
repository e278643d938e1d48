import RtoAutotrader.EmptyRead
import RtoAutotrader.MainRuns

namespace RtoAutotrader

open Program

/-- What the last `read` of a socket returned. -/
def lastRead (sock : Int) (log : List SystemEvent) : Option ReadResult :=
  (log.filterMap (readOn? sock)).getLast?

/-- How many inserts have been handed to `send`: no other message has their size. -/
def insertsSent (log : List SystemEvent) : Nat :=
  ((sentData log).filter fun sent => sent.2.length = INSERT_MESSAGE_SIZE).length

/-- Once the last `read` of the socket that the login went out on has returned 0, the next call
reads that socket again, or writes a line. -/
def IdleAtEnd (log : List SystemEvent) (c : Syscall) : Prop :=
  ∀ sock data rest, sentData log = (sock, data) :: rest → insertsSent log ≤ INSERT_LIMIT →
    lastRead sock log = some (.returned nothing) →
    c = .read sock ∨ ∃ output text, c = .write output text

theorem lastRead_append (sock : Int) (log events : List SystemEvent) :
    lastRead sock (log ++ events) = (lastRead sock events).or (lastRead sock log) := by
  rw [lastRead, List.filterMap_append, List.getLast?_append]
  rfl

theorem insertsSent_append (log events : List SystemEvent) :
    insertsSent (log ++ events) = insertsSent log + insertsSent events := by
  rw [insertsSent, sentData_append, List.filter_append, List.length_append]
  rfl

theorem insertsSent_session {log : List SystemEvent} {sock : Int} {login : List UInt8}
    {requests : List Request} (hlogin : login.length = LOGIN_MESSAGE_SIZE)
    (h : sentData log = (sock, login) :: requests.map fun r => (sock, r.command.bytes)) :
    insertsSent log = (inserted requests).length := by
  have hfirst : ¬login.length = INSERT_MESSAGE_SIZE := by
    rw [hlogin]
    decide
  rw [insertsSent, h, List.filter_cons_of_neg (by simpa using hfirst)]
  clear h
  induction requests with
  | nil => rfl
  | cons r requests ih =>
    have hsplit : inserted (r :: requests) = inserted [r] ++ inserted requests :=
      inserted_append [r] requests
    rw [List.map_cons, List.filter_cons, hsplit, List.length_append, ← ih]
    cases hcommand : r.command with
    | insertOrder id side price volume lifespan =>
      simp [inserted, hcommand, Command.entry, Entry.opened?, Command.bytes, insertOrder_eq, htons,
        INSERT_MESSAGE_SIZE, Nat.add_comm]
    | cancelOrder id =>
      simp [inserted, hcommand, Command.entry, Entry.opened?, Command.bytes, cancelOrder_eq, htons,
        INSERT_MESSAGE_SIZE]

/-- Nothing is asked of the next call: the last `read` was another one, or ids have run out. -/
def Busy (sock : Int) (log : List SystemEvent) : Prop :=
  lastRead sock log = some (.returned nothing) → INSERT_LIMIT < insertsSent log

def LoginOn (sock : Int) (log : List SystemEvent) : Prop :=
  ∃ login rest, sentData log = (sock, login) :: rest

theorem LoginOn.append {sock : Int} {log : List SystemEvent} (h : LoginOn sock log)
    (events : List SystemEvent) : LoginOn sock (log ++ events) := by
  obtain ⟨login, rest, hsent⟩ := h
  exact ⟨login, rest ++ sentData events, by rw [sentData_append, hsent, List.cons_append]⟩

theorem Busy.idle {sock : Int} {log : List SystemEvent} (h : Busy sock log)
    (hlogin : LoginOn sock log) (c : Syscall) : IdleAtEnd log c := by
  intro other data rest hsent hlimit hlast
  obtain ⟨login, rest', hlogin⟩ := hlogin
  rw [hlogin] at hsent
  cases hsent
  exact absurd hlimit (Nat.not_le.mpr (h hlast))

theorem Busy.append {sock : Int} {log : List SystemEvent} (h : Busy sock log) {event : SystemEvent}
    (hevent : readOn? sock event = none) : Busy sock (log ++ [event]) := by
  intro hlast
  have hsame : lastRead sock [event] = none := by simp [lastRead, hevent]
  rw [lastRead_append, hsame, Option.none_or] at hlast
  rw [insertsSent_append]
  exact Nat.lt_of_lt_of_le (h hlast) (Nat.le_add_right _ _)

theorem idleAtEnd_write (log : List SystemEvent) (output : Output) (text : String) :
    IdleAtEnd log (.write output text) := fun _ _ _ _ _ _ => Or.inr ⟨output, text, rfl⟩

namespace Sockets

/-- The loop is between two messages, and all it has sent after the login are the commands of its
trader. -/
structure Serving (sockets : Sockets) (log : List SystemEvent)
    (state : Message UInt8 × AutoTrader FutureMidpoint SimpleExecutor) : Prop where
  session : ∃ login requests, login.length = LOGIN_MESSAGE_SIZE ∧
    sentData log = (sockets.exec_sock_, login) ::
      requests.map (fun r => (sockets.exec_sock_, r.command.bytes)) ∧
    state.2.executor_.TracksWithin requests
  absorbed : insertsSent log ≤ INSERT_LIMIT → Absorbed state

variable {sockets : Sockets} {log : List SystemEvent}
  {t : AutoTrader FutureMidpoint SimpleExecutor} {msg : Message UInt8}

theorem sendAll_busy (requests : List Request) (hlogin : LoginOn sockets.exec_sock_ log)
    (h : Busy sockets.exec_sock_ log) : (sockets.sendAll requests).Obeys IdleAtEnd log := by
  induction requests generalizing log with
  | nil => exact trivial
  | cons r requests ih =>
    refine ⟨h.idle hlogin _, fun _ => ?_⟩
    exact Obeys.check fun _ => ih (hlogin.append _) (h.append rfl)

theorem respond_busy (hlogin : LoginOn sockets.exec_sock_ log) (h : Busy sockets.exec_sock_ log)
    (t : AutoTrader FutureMidpoint SimpleExecutor) (pass : Pass) :
    (sockets.respond t pass).Obeys IdleAtEnd log := by
  cases pass with
  | unknownType type => exact ⟨h.idle hlogin _, fun _ => trivial⟩
  | called callback =>
    cases callback with
    | onOrderBookUpdate update =>
      refine ⟨h.idle hlogin _, fun _ => ?_⟩
      exact (sendAll_busy _ (hlogin.append _) (h.append rfl)).bind fun _ _ _ => trivial
    | onOrderStatusUpdate => exact trivial
    | onPositionUpdate => exact trivial

/-- A message that calls for nothing is answered with lines at most. -/
theorem respond_absorbed (h : Absorbed (msg, t)) (log : List SystemEvent) :
    (sockets.respond t (dispatch msg)).Obeys IdleAtEnd log := by
  cases hpass : dispatch msg with
  | unknownType type => exact ⟨idleAtEnd_write _ _ _, fun _ => trivial⟩
  | called callback =>
    have hhandled := h callback hpass
    cases callback with
    | onOrderBookUpdate update =>
      have hnone : (t.onOrderBookUpdate update).2 = [] := congrArg Prod.snd hhandled
      refine ⟨idleAtEnd_write _ _ _, fun _ => ?_⟩
      rw [hnone]
      exact trivial
    | onOrderStatusUpdate => exact trivial
    | onPositionUpdate => exact trivial

theorem Serving.login {state : Message UInt8 × AutoTrader FutureMidpoint SimpleExecutor}
    (h : Serving sockets log state) : LoginOn sockets.exec_sock_ log := by
  obtain ⟨login, requests, _, hsent, _⟩ := h.session
  exact ⟨login, _, hsent⟩

theorem poll_idle (hlogin : LoginOn sockets.exec_sock_ log) :
    (sockets.poll msg).Obeys IdleAtEnd log := by
  refine ⟨?_, fun result => ?_⟩
  · intro sock data rest hsent _ _
    obtain ⟨login, rest', hlogin⟩ := hlogin
    rw [hlogin] at hsent
    cases hsent
    exact Or.inl rfl
  · cases result with
    | returned chunk => exact trivial
    | failed errno =>
      apply Obeys.check
      intro _
      have hbusy : Busy sockets.exec_sock_
          (log ++ [⟨.read sockets.exec_sock_, ReadResult.failed errno⟩]) := by
        intro hlast
        rw [lastRead_append] at hlast
        simp [lastRead, readOn?] at hlast
      refine ⟨hbusy.idle (hlogin.append _) _, fun result => ?_⟩
      cases result with
      | returned chunk => exact trivial
      | failed errno => exact Obeys.check fun _ => trivial

theorem busy_of_read {sock : Int} {polled : List SystemEvent} {result : ReadResult}
    (hlast : lastRead sock polled = some result) (hresult : result ≠ .returned nothing) :
    Busy sock (log ++ polled) := by
  intro h
  rw [lastRead_append, hlast] at h
  exact absurd (Option.some.inj h) hresult

theorem returned_ne_nothing {chunk : Chunk} (h : chunk.data ≠ []) :
    ReadResult.returned chunk ≠ .returned nothing := by
  intro heq
  cases heq
  exact h rfl

theorem received_absorbed (h : Serving sockets log (msg, t)) (polled : List SystemEvent)
    (chunk : Chunk) (hbusy : chunk.data ≠ [] → Busy sockets.exec_sock_ (log ++ polled)) :
    (sockets.respond t (dispatch (msg.received chunk.data))).Obeys IdleAtEnd (log ++ polled) := by
  have hlogin := (h.login).append polled
  by_cases hempty : chunk.data = []
  · by_cases hlimit : insertsSent log ≤ INSERT_LIMIT
    · apply respond_absorbed
      intro callback hcalled
      apply h.absorbed hlimit callback
      rw [← dispatch_nothing]
      rwa [hempty] at hcalled
    · apply respond_busy hlogin
      intro _
      rw [insertsSent_append]
      omega
  · exact respond_busy hlogin (hbusy hempty) _ _

theorem loopPass_idle {state : Message UInt8 × AutoTrader FutureMidpoint SimpleExecutor}
    (h : Serving sockets log state) : (sockets.loopPass state).Obeys IdleAtEnd log := by
  apply (poll_idle (h.login)).bind
  intro polled result hpolled
  cases poll_runs hpolled with
  | nothing => exact trivial
  | exec chunk =>
    refine (received_absorbed h _ chunk fun hdata => ?_).bind fun _ _ _ => trivial
    exact busy_of_read (by simp [lastRead, readOn?]) (returned_ne_nothing hdata)
  | info chunk =>
    refine (received_absorbed h _ chunk fun hdata => ?_).bind fun _ _ _ => trivial
    by_cases hsame : sockets.info_sock_ = sockets.exec_sock_
    · exact busy_of_read (by simp [lastRead, readOn?, hsame]) (returned_ne_nothing hdata)
    · have hother : ReadResult.failed EWOULDBLOCK ≠ .returned nothing := fun heq => by cases heq
      exact busy_of_read (by simp [lastRead, readOn?, hsame]) hother

/-- What a message leaves to say of the loop. -/
theorem Serving.message (h : Serving sockets log (msg, t)) {msg' : Message UInt8}
    {polled responded : List SystemEvent} (hpolled : sentData polled = [])
    (hresponded : actions responded = (sockets.answer t (dispatch msg')).2) :
    Serving sockets (log ++ (polled ++ responded)) (msg', (sockets.answer t (dispatch msg')).1) := by
  obtain ⟨login, requests, hlogin, hsent, htracks⟩ := h.session
  have hlog : sentData (log ++ (polled ++ responded)) = sentData log ++ sentData responded := by
    rw [sentData_append, sentData_append, hpolled, List.nil_append]
  obtain ⟨hstate, hout⟩ := answer_run sockets t [dispatch msg']
  rw [runFrom_cons, runFrom_nil, List.append_nil] at hout
  have hnew : sentData responded = (runFrom AutoTrader.handle t
      ([dispatch msg'].filterMap Pass.callback?)).2.map fun r => (sockets.exec_sock_, r.command.bytes) := by
    rw [sentData, hresponded]
    exact hout
  cases hpass : dispatch msg' with
  | unknownType type =>
    rw [hpass] at hnew
    refine ⟨⟨login, requests, hlogin, ?_, htracks⟩, ?_⟩
    · rw [hlog, hnew, hsent]
      exact List.append_nil _
    · intro _ callback hcalled
      rw [hpass] at hcalled
      cases hcalled
  | called callback =>
    have hafter : (sockets.answer t (.called callback)).1 = (t.handle callback).1 := by
      rw [← hpass]
      refine hstate.trans ?_
      rw [hpass]
      rfl
    have hcommands : sentData responded = (t.handle callback).2.map
        fun r => (sockets.exec_sock_, r.command.bytes) := by
      rw [hnew, hpass]
      exact congrArg _ (List.append_nil _)
    refine ⟨⟨login, requests ++ (t.handle callback).2, hlogin, ?_, ?_⟩, ?_⟩
    · rw [hlog, hsent, hcommands, List.map_append, List.cons_append]
    · rw [hafter]
      exact AutoTrader.handle_tracks htracks callback
    · intro hlimit other hcalled
      rw [hpass] at hcalled
      cases hcalled
      have hbefore : (inserted requests).length ≤ INSERT_LIMIT := by
        rw [← insertsSent_session hlogin hsent]
        rw [insertsSent_append] at hlimit
        omega
      rw [hafter]
      exact handle_again ((htracks hbefore).counting hbefore) callback

theorem Serving.loopPass {state state' : Message UInt8 × AutoTrader FutureMidpoint SimpleExecutor}
    {events : List SystemEvent} (h : Serving sockets log state)
    (hrun : Runs (sockets.loopPass state) events (.ok state')) :
    Serving sockets (log ++ events) state' := by
  obtain ⟨result, polled, responded, rfl, hpolled, hrest⟩ := runs_bind_ok hrun
  cases poll_runs hpolled with
  | nothing =>
    obtain ⟨rfl, heq⟩ := runs_done hrest
    cases heq
    have hquiet : ∀ events, sentData events = [] → sentData (log ++ events) = sentData log := by
      intro events hnone
      rw [sentData_append, hnone, List.append_nil]
    obtain ⟨login, requests, hlogin, hsent, htracks⟩ := h.session
    refine ⟨⟨login, requests, hlogin, (hquiet _ rfl).trans hsent, htracks⟩, ?_⟩
    rw [insertsSent, hquiet _ rfl]
    exact h.absorbed
  | exec chunk =>
    obtain ⟨_, hactions, hstate⟩ := message_runs hrest
    obtain rfl := hstate state' rfl
    exact h.message rfl hactions
  | info chunk =>
    obtain ⟨_, hactions, hstate⟩ := message_runs hrest
    obtain rfl := hstate state' rfl
    exact h.message rfl hactions

end Sockets

theorem main_idleAtEnd (link : MarketLink) (polls : Nat) :
    (main link polls).Obeys IdleAtEnd [] := by
  have hquiet : ∀ {log : List SystemEvent}, sentData log = [] → ∀ c, IdleAtEnd log c := by
    intro log hnone c sock data rest hsent
    rw [hnone] at hsent
    cases hsent
  have hstart : link.initConnection.Obeys IdleAtEnd [] := by
    have hplain : link.initConnection.Obeys (fun _ c => ¬c.Traffic) [] :=
      MarketLink.initConnection_obeys fun _ _ hc => hc
    refine hplain.imp (I := fun log => sentData log = []) rfl ?_ fun log c hlog _ => hquiet hlog c
    intro log c r hlog hc
    rw [sentData_append, hlog]
    cases c with
    | send sock data => exact absurd trivial hc
    | _ => rfl
  have hbody : (mainBody link polls).Obeys IdleAtEnd [] := by
    apply hstart.bind
    intro startup sockets hstartup
    have hnone := (initConnection_quiet hstartup).2
    have hlogin : (sockets.registerTrader mainTrader mainTrader_printable).Obeys IdleAtEnd
        ([] ++ startup) := Sockets.send_obeys (hquiet hnone _)
    apply hlogin.bind
    intro login _ hregister
    obtain ⟨_, hsent, _⟩ := registerTrader_runs hregister
    have hserving : sockets.Serving ([] ++ startup ++ login) (Message.zero, mainTrader) := by
      refine ⟨⟨loginFrame NAME SECRET, [], by decide, ?_, fun _ => SimpleExecutor.tracks_start⟩, ?_⟩
      · rw [sentData_append, List.nil_append, hnone, sentData, hsent]
        rfl
      · intro _ callback hcalled
        cases hcalled
    have hloop : (sockets.runLoop polls mainTrader).Obeys IdleAtEnd ([] ++ startup ++ login) :=
      Obeys.iterate (I := sockets.Serving) (fun _ _ h => Sockets.loopPass_idle h)
        (fun _ _ _ _ h hrun => h.loopPass hrun) polls hserving
    exact hloop.bind fun _ _ _ => trivial
  apply hbody.handle
  intro _ error _
  cases error with
  | runtime_error what => exact ⟨idleAtEnd_write _ _ _, fun _ => trivial⟩
  | errno value => exact ⟨idleAtEnd_write _ _ _, fun _ => trivial⟩
  | sigpipe => exact trivial

theorem lastRead_closed {sock : Int} {before after : List SystemEvent}
    (h : ∀ result, (⟨.read sock, result⟩ : SystemEvent) ∈ after → result = ReadResult.returned nothing) :
    lastRead sock (before ++ (⟨.read sock, ReadResult.returned nothing⟩ :: after)) =
      some (.returned nothing) := by
  have hreads : ∀ result ∈ ReadResult.returned nothing :: after.filterMap (readOn? sock),
      result = .returned nothing := by
    intro result hresult
    rcases List.mem_cons.mp hresult with heq | hlater
    · exact heq
    · obtain ⟨event, hevent, hread⟩ := List.mem_filterMap.mp hlater
      apply h result
      rwa [← readOn?_event hread]
  have hfirst : (⟨.read sock, ReadResult.returned nothing⟩ :: after).filterMap (readOn? sock) =
      ReadResult.returned nothing :: after.filterMap (readOn? sock) :=
    List.filterMap_cons_some (if_pos rfl)
  obtain ⟨last, hlast⟩ := Option.isSome_iff_exists.mp (List.getLast?_isSome.mpr
    (List.cons_ne_nil (ReadResult.returned nothing) (after.filterMap (readOn? sock))))
  rw [lastRead_append, lastRead, hfirst, hlast, Option.some_or,
    hreads last (List.mem_of_getLast? hlast)]

def ReadsOnly (sock : Int) (events : List SystemEvent) : Prop :=
  ∀ event ∈ events, event.call = .read sock ∨ ∃ output text, event.call = .write output text

/-- When the exchange closes the execution stream, every further `read` of it returns 0. From the
first of these on `main` reads nothing else and sends nothing: it takes no more books, and leaves
its orders where they are. -/
theorem main_blind_after_close (link : MarketLink) (polls : Nat)
    (before after : List SystemEvent) (sock : Int) (result : Except Empty Exit)
    (h : Runs (main link polls)
      (before ++ ⟨.read sock, ReadResult.returned nothing⟩ :: after) result)
    (hlogin : LoginOn sock before)
    (hclosed : ∀ result, (⟨.read sock, result⟩ : SystemEvent) ∈ after →
      result = ReadResult.returned nothing)
    (hlimit : insertsSent (before ++ ⟨.read sock, ReadResult.returned nothing⟩ :: after) ≤
      INSERT_LIMIT) : ReadsOnly sock after := by
  intro event hevent
  obtain ⟨earlier, later, rfl⟩ := List.append_of_mem hevent
  have hsplit : before ++ ⟨.read sock, ReadResult.returned nothing⟩ :: (earlier ++ event :: later) =
      (before ++ ⟨.read sock, ReadResult.returned nothing⟩ :: earlier) ++ event :: later := by
    rw [List.append_assoc]
    rfl
  have hidle := (main_idleAtEnd link polls).runs h _ event later hsplit
  rw [List.nil_append] at hidle
  obtain ⟨login, rest, hsent⟩ := hlogin.append (⟨.read sock, ReadResult.returned nothing⟩ :: earlier)
  apply hidle sock login rest hsent
  · rw [hsplit, insertsSent_append] at hlimit
    omega
  · apply lastRead_closed
    intro result hmem
    exact hclosed result (List.mem_append_left _ hmem)

/-- The exchange closes the stream right after a book, which is answered for a second time, and
for a third: with lines only. -/
def closedRun : List SystemEvent × Except Empty Exit :=
  run (goodSystem [.failed EWOULDBLOCK, .returned olderFrame.chunk, .returned nothing,
    .returned nothing]) [] (main mainLink 3)

theorem closedRun_split : closedRun.1 = closedRun.1.take 21 ++
    ⟨.read 3, ReadResult.returned nothing⟩ :: closedRun.1.drop 22 := rfl

theorem closedRun_blind : ReadsOnly 3 (closedRun.1.drop 22) := by
  have hrun : Runs (main mainLink 3) closedRun.1 closedRun.2 := run_runs _ _ _
  rw [closedRun_split] at hrun
  refine main_blind_after_close mainLink 3 _ _ 3 _ hrun ⟨loginFrame NAME SECRET, _, rfl⟩ ?_ (by decide)
  intro result hmem
  have hlater : closedRun.1.drop 22 = [⟨.write .cout "theo price: 1000\n", ()⟩,
      ⟨.read 3, ReadResult.returned nothing⟩, ⟨.write .cout "theo price: 1000\n", ()⟩] := rfl
  rw [hlater] at hmem
  simp at hmem
  exact hmem

end RtoAutotrader
