import RtoAutotrader.MainRuns
import RtoAutotrader.OutboundStream

namespace RtoAutotrader

/-- Cuts the first frame off a stream by its leading size. -/
def cutFrame (stream : List UInt8) : Option (List UInt8 × List UInt8) :=
  let size := networkValue (stream.take 2)
  if 2 ≤ size ∧ size ≤ stream.length then some (stream.take size, stream.drop size) else none

structure Credentials where
  name : List UInt8
  secret : List UInt8
  deriving DecidableEq, Repr

/-- The exchange's reading of a login. -/
def readLogin (frame : List UInt8) : Option Credentials :=
  if frame.length = LOGIN_MESSAGE_SIZE ∧ frame.getD 2 0 = LOGIN_MESSAGE_TYPE then
    some ⟨cString ((frame.drop 3).take 20), cString ((frame.drop 23).take 50)⟩
  else none

/-- The exchange's reading of all that a program sends: a login, and then commands. -/
def readSession (stream : List UInt8) : Option (Credentials × List Command) := do
  let (frame, rest) ← cutFrame stream
  let credentials ← readLogin frame
  let commands ← readStream nextCommand rest
  pure (credentials, commands)

theorem cutFrame_append {frame : List UInt8} (htwo : 2 ≤ frame.length)
    (hsize : networkValue (frame.take 2) = frame.length) (rest : List UInt8) :
    cutFrame (frame ++ rest) = some (frame, rest) := by
  have hhead : networkValue ((frame ++ rest).take 2) = frame.length := by
    rw [List.take_append_of_le_length htwo, hsize]
  simp only [cutFrame, hhead]
  rw [if_pos ⟨htwo, by simp⟩, List.take_left' rfl, List.drop_left' rfl]

theorem cString_rightpad {text : List UInt8} (h : 0 ∉ text) (width : Nat) :
    cString (text.rightpad width 0) = text := by
  rw [List.rightpad, cString_append h, cString, List.takeWhile_replicate]
  exact List.append_nil text

theorem loginFrame_length {name secret : List UInt8} (hname : name.length ≤ 20)
    (hsecret : secret.length ≤ 50) : (loginFrame name secret).length = LOGIN_MESSAGE_SIZE := by
  simp only [loginFrame_eq, List.length_append, rightpad_width 0 hname, rightpad_width 0 hsecret]
  rfl

theorem cutFrame_login {name secret : List UInt8} (hname : name.length ≤ 20)
    (hsecret : secret.length ≤ 50) (rest : List UInt8) :
    cutFrame (loginFrame name secret ++ rest) = some (loginFrame name secret, rest) := by
  have hlength := loginFrame_length hname hsecret
  apply cutFrame_append
  · rw [hlength]
    decide
  · rw [hlength]
    simp [loginFrame, networkBytes, networkValue, LOGIN_MESSAGE_SIZE]

theorem readLogin_loginFrame {name secret : List UInt8} (hname : name.length ≤ 20)
    (hsecret : secret.length ≤ 50) (hname0 : 0 ∉ name) (hsecret0 : 0 ∉ secret) :
    readLogin (loginFrame name secret) = some ⟨name, secret⟩ := by
  have hpadded := rightpad_width 0 hname
  have hpadded' := rightpad_width 0 hsecret
  have hfield : ((loginFrame name secret).drop 3).take 20 = name.rightpad 20 0 :=
    List.take_left' hpadded
  have hfield' : ((loginFrame name secret).drop 23).take 50 = secret.rightpad 50 0 := by
    have hdrop : (loginFrame name secret).drop 23 = secret.rightpad 50 0 := List.drop_left' hpadded
    rw [hdrop, List.take_of_length_le (Nat.le_of_eq hpadded')]
  rw [readLogin, if_pos ⟨loginFrame_length hname hsecret, rfl⟩, hfield, hfield',
    cString_rightpad hname0, cString_rightpad hsecret0]

/-- What is sent for a login and any commands is read as these. -/
theorem readSession_sent {name secret : List UInt8} (hname : name.length ≤ 20)
    (hsecret : secret.length ≤ 50) (hname0 : 0 ∉ name) (hsecret0 : 0 ∉ secret)
    {commands : List Command} (hcommands : ∀ command ∈ commands, command.Fits) :
    readSession (loginFrame name secret ++ commands.flatMap Command.bytes) =
      some (⟨name, secret⟩, commands) := by
  have hrest : readStream nextCommand (commands.flatMap Command.bytes) = some commands :=
    readStream_flatMap Command.bytes_ne_nil (fun _ hok rest => nextCommand_bytes hok rest) commands
      hcommands
  rw [readSession, cutFrame_login hname hsecret]
  simp only [Option.bind_eq_bind, Option.bind_some, readLogin_loginFrame hname hsecret hname0 hsecret0,
    hrest]
  rfl

namespace SimpleExecutor

/-- Both ids have a place in the fields of a command. -/
def IdsFit (s : SimpleExecutor) : Prop := ∀ side, FitsInt (s.id_ side)

theorem IdsFit.withQuote {s : SimpleExecutor} (h : s.IdsFit) {id : Int} (hid : FitsInt id)
    (price : Int) (side : Side) : (s.withQuote id price side).IdsFit := by
  intro other
  by_cases hother : other = side
  · rw [hother, withQuote_id_same]
    exact hid
  · rw [(s.withQuote_other id price hother).1]
    exact h other

theorem branch_fits {bid_price ask_price : Int} (hbid : FitsInt bid_price)
    (hask : FitsInt ask_price) {branch : SimpleExecutor → SimpleExecutor × List Request}
    (hbranch : branch ∈ branches bid_price ask_price) {s : SimpleExecutor} (h : s.IdsFit) :
    (branch s).1.IdsFit ∧ ∀ r ∈ (branch s).2, r.command.Fits := by
  obtain ⟨side, rfl | rfl⟩ := mem_branches hbranch
  · unfold cancelStale
    split_ifs
    · refine ⟨h.withQuote (by decide) _ side, ?_⟩
      intro r hr
      rw [List.mem_singleton.mp hr]
      exact h side
    · exact ⟨h, by simp⟩
  · have hprice : FitsInt (asked bid_price ask_price side) := by
      cases side
      · exact hask
      · exact hbid
    have hcounted : s.counted.IdsFit := by
      intro other
      cases other
      · exact h .sell
      · exact h .buy
    unfold insertMissing
    split_ifs
    · refine ⟨hcounted.withQuote (wrapInt_fits _) _ side, ?_⟩
      intro r hr
      rw [List.mem_singleton.mp hr]
      exact ⟨wrapInt_fits _, hprice, by decide⟩
    · exact ⟨h, by simp⟩

theorem executeTrades_fits {s : SimpleExecutor} (h : s.IdsFit) {bid_price ask_price : Int}
    (hbid : FitsInt bid_price) (hask : FitsInt ask_price) :
    (s.executeTrades bid_price ask_price).1.IdsFit ∧
      ∀ r ∈ (s.executeTrades bid_price ask_price).2, r.command.Fits := by
  rw [executeTrades_eq]
  refine runFrom_holds (I := fun (s : SimpleExecutor) (log : List Request) => s.IdsFit ∧
    ∀ r ∈ log, r.command.Fits) ⟨h, by simp⟩ ?_
  intro s log branch hbranch hold
  obtain ⟨hids, hout⟩ := branch_fits hbid hask hbranch hold.1
  refine ⟨hids, ?_⟩
  intro r hr
  rcases List.mem_append.mp hr with hlog | hnew
  · exact hold.2 r hlog
  · exact hout r hnew

end SimpleExecutor

variable {π : Type} [PricingModel π]

theorem handle_fits {t : AutoTrader π SimpleExecutor} (h : t.executor_.IdsFit) (c : Callback) :
    (t.handle c).1.executor_.IdsFit ∧ ∀ r ∈ (t.handle c).2, r.command.Fits := by
  cases c with
  | onOrderBookUpdate update =>
    exact SimpleExecutor.executeTrades_fits h (wrapInt_fits _) (wrapInt_fits _)
  | onOrderStatusUpdate id fill_volume remaining_volume fees => exact ⟨h, by simp [AutoTrader.handle]⟩
  | onPositionUpdate future_position etf_position =>
    refine ⟨?_, by simp [AutoTrader.handle]⟩
    intro side
    cases side
    · exact h .sell
    · exact h .buy

theorem run_fits {t : AutoTrader π SimpleExecutor} (h : t.executor_.IdsFit)
    (callbacks : List Callback) :
    ∀ r ∈ (runFrom AutoTrader.handle t callbacks).2, r.command.Fits := by
  refine (runFrom_holds (I := fun (t : AutoTrader π SimpleExecutor) (log : List Request) =>
    t.executor_.IdsFit ∧
    ∀ r ∈ log, r.command.Fits) ⟨h, by simp⟩ ?_).2
  intro t log c _ hold
  obtain ⟨hids, hout⟩ := handle_fits hold.1 c
  refine ⟨hids, ?_⟩
  intro r hr
  rcases List.mem_append.mp hr with hlog | hnew
  · exact hold.2 r hlog
  · exact hout r hnew

theorem start_idsFit : SimpleExecutor.start.IdsFit := fun side => by cases side <;> decide

open Program

/-- What `main` hands to `send`, all of it on one socket, is read as the login of its trader and,
without a byte left over, the commands its callbacks call for, or the first of these when it is
killed. -/
theorem main_session_read (link : MarketLink) (polls : Nat) (events : List SystemEvent)
    (exit : Exit) (h : Runs (main link polls) events (.ok exit)) :
    (readResults events = [] ∧ sentData events = [] ∧ exit = .returned 1) ∨
    (∃ sock, ∀ sent ∈ sentData events, sent.1 = sock) ∧ ∃ requests,
      readSession ((sentData events).flatMap Prod.snd) =
        some (⟨NAME, SECRET⟩, requests.map Request.command) ∧
      ((exit = .killed ∧ requests <+: calledFor events) ∨
        exit = (runLoop (readResults events)).ending.exit ∧ requests = calledFor events) := by
  rcases main_session link polls events exit h with hnothing | ⟨⟨sock, requests, hover⟩, hexit⟩
  · exact Or.inl hnothing
  · right
    refine ⟨⟨sock, ?_⟩, requests, ?_, ?_⟩
    · intro sent hmem
      rw [hover.sent, sessionOf] at hmem
      rcases List.mem_cons.mp hmem with rfl | hcommand
      · rfl
      · obtain ⟨r, _, rfl⟩ := List.mem_map.mp hcommand
        rfl
    · have hfits := run_fits (t := mainTrader) start_idsFit (runLoop (readResults events)).callbacks
      rw [hover.sent, sessionOf, List.flatMap_cons, List.flatMap_map]
      refine Eq.trans (congrArg readSession ?_) (readSession_sent (by decide) (by decide) (by decide)
        (by decide) ?_)
      · rw [List.flatMap_map]
      · intro command hcommand
        obtain ⟨r, hr, rfl⟩ := List.mem_map.mp hcommand
        exact hfits r (hover.first.subset hr)
    · by_cases hkilled : exit = .killed
      · exact Or.inl ⟨hkilled, hover.first⟩
      · exact Or.inr ⟨hexit.resolve_left hkilled, hover.all hkilled⟩

theorem bookRun_session_read :
    (readResults bookRun.1 = [] ∧ sentData bookRun.1 = [] ∧ Exit.running = .returned 1) ∨
    (∃ sock, ∀ sent ∈ sentData bookRun.1, sent.1 = sock) ∧ ∃ requests,
      readSession ((sentData bookRun.1).flatMap Prod.snd) =
        some (⟨NAME, SECRET⟩, requests.map Request.command) ∧
      ((Exit.running = .killed ∧ requests <+: calledFor bookRun.1) ∨
        Exit.running = (runLoop (readResults bookRun.1)).ending.exit ∧
          requests = calledFor bookRun.1) :=
  main_session_read mainLink 4 bookRun.1 .running bookRun_runs

end RtoAutotrader
