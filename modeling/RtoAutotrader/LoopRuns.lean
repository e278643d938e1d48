import RtoAutotrader.System

namespace RtoAutotrader

open Program

theorem runLoopFrom_message {msg msg' : Message UInt8} {reads rest : List ReadResult}
    (h : readNextMessage msg reads = .message msg' rest) :
    runLoopFrom msg reads =
      ⟨dispatch msg' :: (runLoopFrom msg' rest).passes, (runLoopFrom msg' rest).ending⟩ := by
  rw [runLoopFrom]
  split
  next hread =>
    cases h.symm.trans hread
    rfl
  next hread => cases h.symm.trans hread
  next hread => cases h.symm.trans hread

theorem runLoopFrom_threw {msg : Message UInt8} {reads : List ReadResult} {errno : Nat}
    (h : readNextMessage msg reads = .threw errno) : runLoopFrom msg reads = ⟨[], .threw errno⟩ := by
  rw [runLoopFrom]
  split
  next hread => cases h.symm.trans hread
  next hread =>
    cases h.symm.trans hread
    rfl
  next hread => cases h.symm.trans hread

theorem runLoopFrom_waiting {msg : Message UInt8} {reads : List ReadResult}
    (h : readNextMessage msg reads = .waiting) : runLoopFrom msg reads = ⟨[], .waiting⟩ := by
  rw [runLoopFrom]
  split
  next hread => cases h.symm.trans hread
  next hread => cases h.symm.trans hread
  next => rfl

theorem runLoopFrom_congr {msg : Message UInt8} {reads reads' : List ReadResult}
    (h : readNextMessage msg reads = readNextMessage msg reads') :
    runLoopFrom msg reads = runLoopFrom msg reads' := by
  cases hread : readNextMessage msg reads' with
  | message msg' rest => rw [runLoopFrom_message hread, runLoopFrom_message (h.trans hread)]
  | threw errno => rw [runLoopFrom_threw hread, runLoopFrom_threw (h.trans hread)]
  | waiting => rw [runLoopFrom_waiting hread, runLoopFrom_waiting (h.trans hread)]

def readResult? : SystemEvent → Option ReadResult
  | ⟨.read _, result⟩ => some result
  | _ => none

/-- The results of the reads of a run, in order. -/
def readResults (events : List SystemEvent) : List ReadResult := events.filterMap readResult?

def readOn? (sock : Int) : SystemEvent → Option ReadResult
  | ⟨.read other, result⟩ => if other = sock then some result else none
  | _ => none

theorem readOn?_event {sock : Int} {event : SystemEvent} {result : ReadResult}
    (h : readOn? sock event = some result) : event = ⟨.read sock, result⟩ := by
  obtain ⟨call, reply⟩ := event
  cases call with
  | read other =>
    simp only [readOn?] at h
    split_ifs at h with hsame
    rw [← hsame, ← Option.some.inj h]
  | _ => cases h

/-- The calls of a run that are no reads, in order. -/
def actions (events : List SystemEvent) : List Syscall :=
  (events.filter fun event => (readResult? event).isNone).map Event.call

theorem readResults_append (first second : List SystemEvent) :
    readResults (first ++ second) = readResults first ++ readResults second :=
  List.filterMap_append

theorem actions_append (first second : List SystemEvent) :
    actions (first ++ second) = actions first ++ actions second := by
  simp [actions]

namespace Sockets

variable {π ε : Type} [PricingModel π] [TradeExecutor ε] {sockets : Sockets}

/-- What comes of one poll: a message of the execution socket, one of the information socket
when the execution socket would block, an error of either, or nothing. -/
inductive Polled (sockets : Sockets) (msg : Message UInt8) :
    List SystemEvent → Except Abort (Option (Message UInt8)) → Prop
  | exec (chunk : Chunk) : Polled sockets msg
      [⟨.read sockets.exec_sock_, ReadResult.returned chunk⟩] (.ok (some (msg.received chunk.data)))
  | execFailed (errno : Nat) (h : errno ≠ EWOULDBLOCK) : Polled sockets msg
      [⟨.read sockets.exec_sock_, ReadResult.failed errno⟩] (.error (.errno errno))
  | info (chunk : Chunk) : Polled sockets msg
      [⟨.read sockets.exec_sock_, ReadResult.failed EWOULDBLOCK⟩,
        ⟨.read sockets.info_sock_, ReadResult.returned chunk⟩]
      (.ok (some (msg.received chunk.data)))
  | infoFailed (errno : Nat) (h : errno ≠ EWOULDBLOCK) : Polled sockets msg
      [⟨.read sockets.exec_sock_, ReadResult.failed EWOULDBLOCK⟩,
        ⟨.read sockets.info_sock_, ReadResult.failed errno⟩] (.error (.errno errno))
  | nothing : Polled sockets msg
      [⟨.read sockets.exec_sock_, ReadResult.failed EWOULDBLOCK⟩,
        ⟨.read sockets.info_sock_, ReadResult.failed EWOULDBLOCK⟩] (.ok none)

theorem poll_runs {msg : Message UInt8} {events : List SystemEvent}
    {result : Except Abort (Option (Message UInt8))}
    (h : Runs (sockets.poll msg) events result) : Polled sockets msg events result := by
  obtain ⟨first, rest, rfl, hfirst⟩ := runs_call h
  cases first with
  | returned chunk =>
    obtain ⟨rfl, rfl⟩ := runs_done hfirst
    exact .exec chunk
  | failed errno =>
    rcases runs_throwIf hfirst with ⟨herrno, rfl, rfl⟩ | ⟨herrno, hblocked⟩
    · exact .execFailed errno herrno
    · obtain rfl := not_not.mp herrno
      obtain ⟨second, last, rfl, hsecond⟩ := runs_call hblocked
      cases second with
      | returned chunk =>
        obtain ⟨rfl, rfl⟩ := runs_done hsecond
        exact .info chunk
      | failed errno =>
        rcases runs_throwIf hsecond with ⟨herrno', rfl, rfl⟩ | ⟨herrno', hnothing⟩
        · exact .infoFailed errno herrno'
        · obtain rfl := not_not.mp herrno'
          obtain ⟨rfl, rfl⟩ := runs_done hnothing
          exact .nothing

/-- A program makes the given calls and ends, or is killed at one of them. -/
def Makes {α : Type} (calls : List Syscall) (events : List SystemEvent) :
    Except Abort α → Prop
  | .ok _ => actions events = calls
  | .error error => error = .sigpipe ∧ actions events <+: calls

theorem send_runs {data : List UInt8} {events : List SystemEvent} {result : Except Abort Unit}
    (h : Runs (sockets.send data) events result) :
    readResults events = [] ∧ actions events = [.send sockets.exec_sock_ data] ∧
      (result = .ok () ∨ result = .error .sigpipe) := by
  obtain ⟨reply, rest, rfl, hrest⟩ := runs_call h
  by_cases hreply : reply = .sigpipe
  · rw [throwIf_pos hreply] at hrest
    cases hrest
    exact ⟨rfl, rfl, Or.inr rfl⟩
  · rw [throwIf_neg hreply] at hrest
    obtain ⟨rfl, rfl⟩ := runs_done hrest
    exact ⟨rfl, rfl, Or.inl rfl⟩

theorem sendAll_runs {requests : List Request} {events : List SystemEvent}
    {result : Except Abort Unit} (h : Runs (sockets.sendAll requests) events result) :
    readResults events = [] ∧
      Makes (requests.map fun r => .send sockets.exec_sock_ r.command.bytes) events result := by
  induction requests generalizing events with
  | nil =>
    obtain ⟨rfl, rfl⟩ := runs_done h
    exact ⟨rfl, rfl⟩
  | cons r requests ih =>
    rcases runs_bind h with ⟨_, first, rest, rfl, hfirst, hrest⟩ | ⟨error, rfl, hfirst⟩
    · obtain ⟨hfirstReads, hsent, _⟩ := send_runs hfirst
      obtain ⟨hreads, hmakes⟩ := ih hrest
      rw [readResults_append, hfirstReads, hreads]
      refine ⟨rfl, ?_⟩
      have hall : actions (first ++ rest) =
          .send sockets.exec_sock_ r.command.bytes :: actions rest := by
        rw [actions_append, hsent]
        rfl
      cases result with
      | ok value =>
        rw [Makes, hall, show actions rest = _ from hmakes]
        rfl
      | error error =>
        rw [Makes, hall]
        exact ⟨hmakes.1, List.cons_prefix_cons.mpr ⟨rfl, hmakes.2⟩⟩
    · obtain ⟨hreads, hsent, hend⟩ := send_runs hfirst
      refine ⟨hreads, Except.error.inj (hend.resolve_left fun heq => by cases heq), ?_⟩
      rw [hsent]
      exact ⟨_, rfl⟩

/-- The calls that answer a pass, with the trader after it. -/
def answer (sockets : Sockets) (t : AutoTrader π ε) : Pass → AutoTrader π ε × List Syscall
  | .called (.onOrderBookUpdate update) =>
    ((t.onOrderBookUpdate update).1, .write .cout (theoPriceLine t update) ::
      (t.onOrderBookUpdate update).2.map fun r => .send sockets.exec_sock_ r.command.bytes)
  | .called callback => ((t.handle callback).1, [])
  | .unknownType type => (t, [.write .cerr (unknownTypeLine type)])

theorem respond_runs {t : AutoTrader π ε} {pass : Pass} {events : List SystemEvent}
    {result : Except Abort (AutoTrader π ε)}
    (h : Runs (sockets.respond t pass) events result) :
    readResults events = [] ∧ Makes (sockets.answer t pass).2 events result ∧
      ∀ t', result = .ok t' → t' = (sockets.answer t pass).1 := by
  have hquiet : ∀ callback, Runs (done (t.handle callback).1) events result →
      readResults events = [] ∧ Makes [] events result ∧
        ∀ t', result = .ok t' → t' = (t.handle callback).1 := by
    intro callback hdone
    obtain ⟨rfl, rfl⟩ := runs_done hdone
    exact ⟨rfl, rfl, fun t' heq => (Except.ok.inj heq).symm⟩
  cases pass with
  | unknownType type =>
    obtain ⟨_, rest, rfl, hrest⟩ := runs_call h
    obtain ⟨rfl, rfl⟩ := runs_done hrest
    exact ⟨rfl, rfl, fun t' heq => (Except.ok.inj heq).symm⟩
  | called callback =>
    cases callback with
    | onOrderBookUpdate update =>
      obtain ⟨_, rest, rfl, hrest⟩ := runs_call h
      rcases runs_bind hrest with ⟨_, first, second, rfl, hsent, hlast⟩ | ⟨error, rfl, herror⟩
      · obtain ⟨hreads, hmakes⟩ := sendAll_runs hsent
        obtain ⟨rfl, rfl⟩ := runs_done hlast
        rw [List.append_nil]
        refine ⟨hreads, ?_, fun t' heq => (Except.ok.inj heq).symm⟩
        rw [answer, ← show actions first = _ from hmakes]
        rfl
      · obtain ⟨hreads, hkilled, hmakes⟩ := sendAll_runs herror
        refine ⟨hreads, ⟨hkilled, ?_⟩, fun t' heq => by cases heq⟩
        exact List.cons_prefix_cons.mpr ⟨rfl, hmakes⟩
    | onOrderStatusUpdate => exact hquiet _ h
    | onPositionUpdate => exact hquiet _ h

theorem send_obeys {P : List SystemEvent → Syscall → Prop} {log : List SystemEvent}
    {data : List UInt8} (h : P log (.send sockets.exec_sock_ data)) :
    (sockets.send data).Obeys P log := (Obeys.call h).bind fun _ _ _ => Obeys.throwIf _ _

/-- Messages are answered without another read. -/
theorem respond_obeys {P : List SystemEvent → Syscall → Prop}
    (h : ∀ log c, (∀ sock, c ≠ .read sock) → P log c) (t : AutoTrader π ε) (pass : Pass)
    (log : List SystemEvent) : (sockets.respond t pass).Obeys P log := by
  have hwrite : ∀ log output text, P log (.write output text) :=
    fun log output text => h log _ fun sock heq => by cases heq
  have hsend : ∀ (requests : List Request) (log : List SystemEvent),
      (sockets.sendAll requests).Obeys P log := by
    intro requests
    induction requests with
    | nil => exact fun _ => trivial
    | cons r requests ih =>
      exact fun log => (send_obeys (h log _ fun sock heq => by cases heq)).bind fun _ _ _ => ih _
  cases pass with
  | unknownType type => exact (Obeys.call (hwrite _ _ _)).bind fun _ _ _ => trivial
  | called callback =>
    cases callback with
    | onOrderBookUpdate update =>
      exact (Obeys.call (hwrite _ _ _)).bind fun _ _ _ => (hsend _ _).bind fun _ _ _ => trivial
    | onOrderStatusUpdate => exact trivial
    | onPositionUpdate => exact trivial

/-- The end of a loop and that of the model. -/
def EndsAs (sockets : Sockets) (t : AutoTrader π ε) (model : LoopRun) :
    Except Abort (Message UInt8 × AutoTrader π ε) → Prop
  | .ok state => state.2 = (runFrom sockets.answer t model.passes).1 ∧ model.ending = .waiting
  | .error .sigpipe => model.ending = .waiting
  | .error error => ∃ errno, error = .errno errno ∧ model.ending = .threw errno

/-- A run of the loop and the run of the model on the same reads. -/
structure Agrees (sockets : Sockets) (t : AutoTrader π ε) (events : List SystemEvent)
    (result : Except Abort (Message UInt8 × AutoTrader π ε)) (model : LoopRun) : Prop where
  made : actions events <+: (runFrom sockets.answer t model.passes).2
  unkilled : result ≠ .error .sigpipe → actions events = (runFrom sockets.answer t model.passes).2
  ends : sockets.EndsAs t model result

theorem agrees_of_eq {t : AutoTrader π ε} {events : List SystemEvent}
    {result : Except Abort (Message UInt8 × AutoTrader π ε)} {model : LoopRun}
    (hactions : actions events = (runFrom sockets.answer t model.passes).2)
    (hends : sockets.EndsAs t model result) : Agrees sockets t events result model :=
  ⟨hactions ▸ List.prefix_rfl, fun _ => hactions, hends⟩

/-- A pass that handles a message, and then the passes that follow it. -/
theorem Agrees.handled {t : AutoTrader π ε} {msg : Message UInt8} {rest : List ReadResult}
    {polled responded later : List SystemEvent}
    {result : Except Abort (Message UInt8 × AutoTrader π ε)}
    (hpolled : RtoAutotrader.actions polled = [])
    (hresponded : RtoAutotrader.actions responded = (sockets.answer t (dispatch msg)).2)
    (hlater : Agrees sockets (sockets.answer t (dispatch msg)).1 later result (runLoopFrom msg rest)) :
    Agrees sockets t (polled ++ (responded ++ later)) result
      ⟨dispatch msg :: (runLoopFrom msg rest).passes, (runLoopFrom msg rest).ending⟩ := by
  have hall : RtoAutotrader.actions (polled ++ (responded ++ later)) =
      (sockets.answer t (dispatch msg)).2 ++ RtoAutotrader.actions later := by
    rw [actions_append, actions_append, hpolled, hresponded, List.nil_append]
  refine ⟨?_, ?_, ?_⟩
  · rw [hall, runFrom_cons]
    exact (List.prefix_append_right_inj _).mpr hlater.made
  · intro hresult
    rw [hall, runFrom_cons, hlater.unkilled hresult]
  · rcases result with (_ | _ | _) | state <;> exact hlater.ends

/-- A pass in which the process is killed. -/
theorem agrees_killed {t : AutoTrader π ε} {msg : Message UInt8}
    {polled responded : List SystemEvent} (hpolled : actions polled = [])
    (hresponded : actions responded <+: (sockets.answer t (dispatch msg)).2) :
    Agrees sockets t (polled ++ responded) (.error .sigpipe) ⟨[dispatch msg], .waiting⟩ := by
  refine ⟨?_, fun h => absurd rfl h, rfl⟩
  rw [actions_append, hpolled, runFrom_cons, runFrom_nil, List.append_nil]
  exact hresponded

/-- What follows the poll that took a message. -/
theorem message_runs {t : AutoTrader π ε} {msg : Message UInt8} {events : List SystemEvent}
    {result : Except Abort (Message UInt8 × AutoTrader π ε)}
    (h : Runs ((sockets.respond t (dispatch msg)).bind fun t => done (msg, t)) events result) :
    readResults events = [] ∧ Makes (sockets.answer t (dispatch msg)).2 events result ∧
      ∀ state, result = .ok state → state = (msg, (sockets.answer t (dispatch msg)).1) := by
  rcases runs_bind h with ⟨t', first, second, rfl, hfirst, hsecond⟩ | ⟨error, rfl, herror⟩
  · obtain ⟨hreads, hmakes, hvalue⟩ := respond_runs hfirst
    obtain rfl := hvalue t' rfl
    obtain ⟨rfl, rfl⟩ := runs_done hsecond
    rw [List.append_nil]
    exact ⟨hreads, hmakes, fun state heq => (Except.ok.inj heq).symm⟩
  · obtain ⟨hreads, hmakes, _⟩ := respond_runs herror
    exact ⟨hreads, hmakes, fun state heq => by cases heq⟩

/-- The loop, call by call, does what the run on its reads says: nothing is done twice, left
out or put off by the polls. -/
theorem loop_agrees (polls : Nat) {msg : Message UInt8} {t : AutoTrader π ε}
    {events : List SystemEvent} {result : Except Abort (Message UInt8 × AutoTrader π ε)}
    (h : Runs (iterate sockets.loopPass polls (msg, t)) events result) :
    Agrees sockets t events result (runLoopFrom msg (readResults events)) := by
  induction polls generalizing msg t events with
  | zero =>
    obtain ⟨rfl, rfl⟩ := runs_done h
    rw [show readResults [] = [] from rfl, runLoopFrom_waiting rfl]
    exact agrees_of_eq rfl ⟨rfl, rfl⟩
  | succ polls ih =>
    have hmessage : ∀ {polled events : List SystemEvent} {msg' : Message UInt8},
        RtoAutotrader.actions polled = [] →
        (∀ rest, readNextMessage msg (readResults polled ++ rest) = .message msg' rest) →
        Runs (((sockets.respond t (dispatch msg')).bind fun t => done (msg', t)).bind
          (iterate sockets.loopPass polls)) events result →
        Agrees sockets t (polled ++ events) result
          (runLoopFrom msg (readResults (polled ++ events))) := by
      intro polled events msg' hpolled hread hrun
      rcases runs_bind hrun with ⟨state, responded, later, rfl, hresponded, hlater⟩ |
        ⟨error, rfl, herror⟩
      · obtain ⟨hreads, hactions, hvalue⟩ := message_runs hresponded
        obtain rfl := hvalue state rfl
        rw [readResults_append, readResults_append, hreads, List.nil_append,
          runLoopFrom_message (hread _)]
        exact Agrees.handled hpolled hactions (ih hlater)
      · obtain ⟨hreads, ⟨rfl, hactions⟩, _⟩ := message_runs herror
        rw [readResults_append, hreads, runLoopFrom_message (hread _), runLoopFrom_waiting rfl]
        exact agrees_killed hpolled hactions
    have hpass : iterate sockets.loopPass (polls + 1) (msg, t) = (sockets.poll msg).bind
        fun polled => polled.elim (iterate sockets.loopPass polls (msg, t)) fun msg' =>
          ((sockets.respond t (dispatch msg')).bind fun t => done (msg', t)).bind
            (iterate sockets.loopPass polls) := by
      refine (bind_assoc _ _ _).trans (congrArg (sockets.poll msg).bind (funext ?_))
      rintro (_ | msg') <;> rfl
    rw [hpass] at h
    rcases runs_bind h with ⟨polled, first, later, rfl, hpolled, hlater⟩ | ⟨error, rfl, herror⟩
    · cases poll_runs hpolled with
      | exec chunk => exact hmessage rfl (fun rest => rfl) hlater
      | info chunk => exact hmessage rfl (fun rest => rfl) hlater
      | nothing =>
        have hskip : runLoopFrom msg (.failed EWOULDBLOCK :: .failed EWOULDBLOCK ::
            readResults later) = runLoopFrom msg (readResults later) := runLoopFrom_congr rfl
        have hlast := ih hlater
        rw [← hskip] at hlast
        exact ⟨hlast.made, hlast.unkilled, hlast.ends⟩
    · cases poll_runs herror with
      | execFailed errno herrno =>
        have hthrew : readNextMessage msg [.failed errno] = .threw errno := by
          simp [readNextMessage, herrno]
        have hrun := runLoopFrom_threw hthrew
        exact agrees_of_eq (by rw [show readResults _ = [.failed errno] from rfl, hrun]; rfl)
          ⟨errno, rfl, congrArg LoopRun.ending hrun⟩
      | infoFailed errno herrno =>
        have hthrew : readNextMessage msg [.failed EWOULDBLOCK, .failed errno] = .threw errno := by
          simp [readNextMessage, herrno]
        have hrun := runLoopFrom_threw hthrew
        exact agrees_of_eq
          (by rw [show readResults _ = [.failed EWOULDBLOCK, .failed errno] from rfl, hrun]; rfl)
          ⟨errno, rfl, congrArg LoopRun.ending hrun⟩

end Sockets

end RtoAutotrader
