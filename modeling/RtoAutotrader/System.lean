import RtoAutotrader.AutoTrader
import RtoAutotrader.Login
import RtoAutotrader.MarketLink
import RtoAutotrader.ProgramLogic
import RtoAutotrader.SendOutcomes

namespace RtoAutotrader

inductive SocketType
  | SOCK_STREAM
  | SOCK_DGRAM
  deriving DecidableEq, Repr

/-- A `sockaddr_in` of the family `AF_INET`. -/
structure SockAddr where
  sin_port : List UInt8
  sin_addr : List UInt8
  deriving DecidableEq, Repr

inductive Output
  | cout
  | cerr
  deriving DecidableEq, Repr

/-- The calls the program makes on the system it runs on. `setsockopt` sets `SO_REUSEADDR`,
`getFlags` and `setFlags` are the two uses of `fcntl`, and a `read` asks for the size of a
`Message`. -/
inductive Syscall
  | socket (type : SocketType)
  | setsockopt (sock : Int)
  | inet_pton (host : String)
  | connect (sock : Int) (serv_addr : SockAddr)
  | bind (sock : Int) (serv_addr : SockAddr)
  | getFlags (sock : Int)
  | setFlags (sock : Int) (flags : BitVec 32)
  | read (sock : Int)
  | send (sock : Int) (data : List UInt8)
  | write (output : Output) (text : String)
  deriving DecidableEq, Repr

/-- A `send` returns, or its stream is closed and SIGPIPE ends the process. -/
inductive SendReply
  | returned (result : SendResult)
  | sigpipe
  deriving DecidableEq, Repr

/-- What a call returns. `inet_pton` returns an address or, with 0 or less, none. -/
abbrev Syscall.Reply : Syscall → Type
  | .inet_pton _ => Option (List UInt8)
  | .getFlags _ => BitVec 32
  | .read _ => ReadResult
  | .send _ _ => SendReply
  | .write _ _ => Unit
  | _ => Int

/-- What the source throws, a `std::runtime_error` or the `int` that `errno` is, and the signal
that it does not handle. -/
inductive Abort
  | runtime_error (what : String)
  | errno (value : Nat)
  | sigpipe
  deriving DecidableEq, Repr

abbrev Process (α : Type) := Program Syscall Syscall.Reply Abort α

abbrev syscall {ε : Type} (c : Syscall) : Program Syscall Syscall.Reply ε c.Reply := Program.call c

abbrev SystemEvent := Program.Event Syscall Syscall.Reply

def O_NONBLOCK : BitVec 32 := 2048

structure MarketLink where
  exec_host_ : String
  exec_port_ : Int
  info_host_ : String
  info_port_ : Int
  deriving DecidableEq, Repr

/-- What `initConnection` stores in a `MarketLink`. -/
structure Sockets where
  exec_sock_ : Int
  info_sock_ : Int
  deriving DecidableEq, Repr

/-- `sin_port` has 16 bits, whatever the `int` it is set from. -/
def sinPort (port : Int) : List UInt8 := htons (port % 65536).toNat

namespace MarketLink

open Program

def createExecutionSocket (link : MarketLink) : Process Int := do
  syscall (.write .cout "connecting to execution channel ... ")
  let sock ← syscall (.socket .SOCK_STREAM)
  throwIf (sock < 0) (.runtime_error "failed to create socket")
  let found ← syscall (.inet_pton link.exec_host_)
  let sin_addr ← orThrow found (.runtime_error "invalid address for socket")
  let connected ← syscall (.connect sock ⟨sinPort link.exec_port_, sin_addr⟩)
  throwIf (connected < 0) (.runtime_error "socket connection failed")
  let flags ← syscall (.getFlags sock)
  let set ← syscall (.setFlags sock (flags ||| O_NONBLOCK))
  throwIf (set < 0) (.runtime_error "failed to set sock to non-blocking")
  syscall (.write .cout "done\n")
  pure sock

def createInformationSocket (link : MarketLink) : Process Int := do
  syscall (.write .cout "connecting to information channel ... ")
  let sock ← syscall (.socket .SOCK_DGRAM)
  throwIf (sock < 0) (.runtime_error "socket creation error")
  let reused ← syscall (.setsockopt sock)
  throwIf (reused < 0) (.runtime_error "setsockopt(SO_REUSEADDR) failed")
  let found ← syscall (.inet_pton link.info_host_)
  let sin_addr ← orThrow found (.runtime_error "invalid address")
  let bound ← syscall (.bind sock ⟨sinPort link.info_port_, sin_addr⟩)
  throwIf (bound < 0) (.runtime_error "connection failed")
  let flags ← syscall (.getFlags sock)
  let set ← syscall (.setFlags sock (flags ||| O_NONBLOCK))
  throwIf (set < 0) (.runtime_error "failed to set sock to non-blocking")
  syscall (.write .cout "done\n")
  pure sock

def initConnection (link : MarketLink) : Process Sockets := do
  let exec_sock ← link.createExecutionSocket
  let info_sock ← link.createInformationSocket
  pure ⟨exec_sock, info_sock⟩

end MarketLink

namespace Sockets

open Program

variable {π ε : Type} [PricingModel π] [TradeExecutor ε]

/-- What `send` returns is not looked at. -/
def send (sockets : Sockets) (data : List UInt8) : Process Unit := do
  let reply ← syscall (.send sockets.exec_sock_ data)
  throwIf (reply = .sigpipe) .sigpipe

/-- A trader whose name and secret `snprintf` can print sends them. -/
def registerTrader (sockets : Sockets) (t : AutoTrader π ε)
    (printable : (MarketLink.registerTrader t).isSome) : Process Unit :=
  sockets.send ((MarketLink.registerTrader t).get printable)

/-- One pass of the loop in `readNextMessage`: the buffer with a message, or none yet. -/
def poll (sockets : Sockets) (msg : Message UInt8) : Process (Option (Message UInt8)) := do
  match ← syscall (.read sockets.exec_sock_) with
  | .returned chunk => pure (some (msg.received chunk.data))
  | .failed errno =>
    throwIf (errno ≠ EWOULDBLOCK) (.errno errno)
    match ← syscall (.read sockets.info_sock_) with
    | .returned chunk => pure (some (msg.received chunk.data))
    | .failed errno =>
      throwIf (errno ≠ EWOULDBLOCK) (.errno errno)
      pure none

/-- The calls of `cancelOrder` and `insertOrder`. -/
def sendAll (sockets : Sockets) : List Request → Process Unit
  | [] => pure ()
  | r :: requests => do
    sockets.send r.command.bytes
    sockets.sendAll requests

/-- The line `onOrderBookUpdate` prints when the pricing model has seen a book. -/
def theoPriceLine (t : AutoTrader π ε) (update : OrderBookUpdate) : String :=
  "theo price: " ++ toString (PricingModel.calculateTheoPrice
    (PricingModel.onOrderBookUpdate t.pricing_model_ update)) ++ "\n"

def unknownTypeLine (type : UInt8) : String :=
  "unknown message type: " ++ toString type.toNat ++ "\n"

/-- What the trader and `runLoop` do about a message. -/
def respond (sockets : Sockets) (t : AutoTrader π ε) : Pass → Process (AutoTrader π ε)
  | .called (.onOrderBookUpdate update) => do
    syscall (.write .cout (theoPriceLine t update))
    sockets.sendAll (t.onOrderBookUpdate update).2
    pure (t.onOrderBookUpdate update).1
  | .called callback => pure (t.handle callback).1
  | .unknownType type => do
    syscall (.write .cerr (unknownTypeLine type))
    pure t

def loopPass (sockets : Sockets) (state : Message UInt8 × AutoTrader π ε) :
    Process (Message UInt8 × AutoTrader π ε) := do
  match ← sockets.poll state.1 with
  | none => pure state
  | some msg => do
    let t ← sockets.respond state.2 (dispatch msg)
    pure (msg, t)

/-- `runLoop` up to its n-th poll of the sockets. -/
def runLoop (sockets : Sockets) (polls : Nat) (t : AutoTrader π ε) :
    Process (Message UInt8 × AutoTrader π ε) :=
  iterate sockets.loopPass polls (Message.zero, t)

end Sockets

def EXEC_HOST : String := "127.0.0.1"
def EXEC_PORT : Int := 12341

def INFO_HOST : String := "239.255.1.1"
def INFO_PORT : Int := 12346

/-- The link `main` builds. -/
def mainLink : MarketLink := ⟨EXEC_HOST, EXEC_PORT, INFO_HOST, INFO_PORT⟩

theorem mainTrader_printable : (MarketLink.registerTrader mainTrader).isSome := by decide

inductive Exit
  | running
  | returned (status : Nat)
  | killed
  deriving DecidableEq, Repr

open Program

/-- What `main` does inside its `try`. The loop has no end, so it still runs. -/
def mainBody (link : MarketLink) (polls : Nat) : Process Exit := do
  let sockets ← link.initConnection
  sockets.registerTrader mainTrader mainTrader_printable
  let _ ← sockets.runLoop polls mainTrader
  pure .running

/-- The two handlers of `main`. The signal gets to neither. -/
def mainHandler : Abort → Program Syscall Syscall.Reply Empty Exit
  | .runtime_error what => do
    syscall (.write .cerr (what ++ "\n"))
    pure (.returned 1)
  | .errno _ => do
    syscall (.write .cerr "unknown error\n")
    pure (.returned 1)
  | .sigpipe => pure .killed

/-- `main` up to its n-th poll of the sockets. No exception leaves it. -/
def main (link : MarketLink) (polls : Nat) : Program Syscall Syscall.Reply Empty Exit :=
  (mainBody link polls).handle mainHandler

end RtoAutotrader
