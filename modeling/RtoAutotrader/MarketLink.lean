import RtoAutotrader.Messages

namespace RtoAutotrader

def EWOULDBLOCK : Nat := 11

/-- What one `read` into the message buffer can deliver. -/
structure Chunk where
  data : List UInt8
  fits : data.length ≤ MESSAGE_SIZE

/-- The result of one `read` call. Zero bytes are a delivery: a closed stream or
an empty datagram returns 0. -/
inductive ReadResult
  | returned (chunk : Chunk)
  | failed (errno : Nat)

inductive ReadOutcome
  | message (msg : Message UInt8) (rest : List ReadResult)
  | threw (errno : Nat)
  | waiting

/-- The bytes of `size` change places when `ntohs` stores it in host order, on the
little-endian hosts the program is built for. -/
def swapFront {α : Type} : List α → List α
  | a :: b :: rest => b :: a :: rest
  | short => short

theorem swapFront_length {α : Type} (xs : List α) : (swapFront xs).length = xs.length := by
  unfold swapFront
  split <;> rfl

theorem swapFront_map {α β : Type} (f : α → β) (xs : List α) :
    (swapFront xs).map f = swapFront (xs.map f) := by
  rcases xs with _ | ⟨a, _ | ⟨b, rest⟩⟩ <;> rfl

def Message.ntohsSize {α : Type} (msg : Message α) : Message α :=
  ⟨swapFront msg.bytes, by rw [swapFront_length, msg.size_eq]⟩

/-- The buffer after a `read` delivered data into it and `readNextMessage` returned. -/
def Message.received {α : Type} (msg : Message α) (data : List α) : Message α :=
  (msg.write 0 data).ntohsSize

/-- The list holds the results of the coming `read` calls, in the order of the
calls: the execution socket first and, while it would block, the information
socket. When it ends, the sockets have nothing more to say and the loop waits. -/
def readNextMessage (msg : Message UInt8) : List ReadResult → ReadOutcome
  | [] => .waiting
  | .returned chunk :: rest => .message (msg.received chunk.data) rest
  | .failed errno :: rest =>
    if errno ≠ EWOULDBLOCK then .threw errno
    else match rest with
      | [] => .waiting
      | .returned chunk :: rest => .message (msg.received chunk.data) rest
      | .failed errno :: rest =>
        if errno ≠ EWOULDBLOCK then .threw errno
        else readNextMessage msg rest

def pushBack (book : List (List Int)) (x : Int) : List (List Int) :=
  book.dropLast ++ [book.getLastD [] ++ [x]]

/-- One pass of the loop over the twenty words of an order book. -/
def orderBookPass (msg : Message UInt8) (book : List (List Int)) (i : Nat) : List (List Int) :=
  let book := if i % 5 = 0 then book ++ [[]] else book
  let price := ntohl (msg.field (8 + 4 * i) 4)
  if price ≠ 0 then pushBack book (wrapInt price) else book

def handleOrderBookUpdate (msg : Message UInt8) : Callback :=
  let sequence_no := ntohl (msg.field 4 4)
  let book := (List.range 20).foldl (orderBookPass msg) []
  let instrument := if msg.bytes.getD 3 0 = 0 then Instrument.future else Instrument.etf
  .onOrderBookUpdate ⟨instrument, wrapInt sequence_no,
    book.getD 0 [], book.getD 1 [], book.getD 2 [], book.getD 3 []⟩

def handlePositionUpdate (msg : Message UInt8) : Callback :=
  let etf_position := wrapInt (ntohl (msg.field 7 4))
  let future_position := wrapInt (ntohl (msg.field 3 4))
  .onPositionUpdate future_position etf_position

def handleOrderStatusUpdate (msg : Message UInt8) : Callback :=
  let id := ntohl (msg.field 3 4)
  let fill_volume := ntohl (msg.field 7 4)
  let remaining_volume := ntohl (msg.field 11 4)
  let fees := wrapInt (ntohl (msg.field 15 4))
  .onOrderStatusUpdate (wrapInt id) (wrapInt fill_volume) (wrapInt remaining_volume) fees

/-- What one pass of the loop in `runLoop` does: a callback, or the line about an
unknown message type. -/
inductive Pass
  | called (callback : Callback)
  | unknownType (type : UInt8)
  deriving DecidableEq, Repr

def dispatch (msg : Message UInt8) : Pass :=
  if msg.type = ORDER_BOOK_UPDATE_MESSAGE_TYPE then .called (handleOrderBookUpdate msg)
  else if msg.type = ORDER_STATUS_UPDATE_TYPE then .called (handleOrderStatusUpdate msg)
  else if msg.type = POSITION_UPDATE_TYPE then .called (handlePositionUpdate msg)
  else .unknownType msg.type

inductive Ending
  | waiting
  | threw (errno : Nat)
  deriving DecidableEq, Repr

structure LoopRun where
  passes : List Pass
  ending : Ending

theorem readNextMessage_rest_length {msg msg' : Message UInt8} {reads rest : List ReadResult}
    (h : readNextMessage msg reads = .message msg' rest) : rest.length < reads.length := by
  fun_induction readNextMessage msg reads <;> simp_all
  all_goals omega

def runLoopFrom (msg : Message UInt8) (reads : List ReadResult) : LoopRun :=
  match _h : readNextMessage msg reads with
  | .message msg' rest =>
    let run := runLoopFrom msg' rest
    ⟨dispatch msg' :: run.passes, run.ending⟩
  | .threw errno => ⟨[], .threw errno⟩
  | .waiting => ⟨[], .waiting⟩
  termination_by reads.length
  decreasing_by exact readNextMessage_rest_length _h

def runLoop (reads : List ReadResult) : LoopRun := runLoopFrom Message.zero reads

def Pass.callback? : Pass → Option Callback
  | .called callback => some callback
  | .unknownType _ => none

def LoopRun.callbacks (run : LoopRun) : List Callback := run.passes.filterMap Pass.callback?

end RtoAutotrader
