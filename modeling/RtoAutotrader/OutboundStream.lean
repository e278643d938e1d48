import RtoAutotrader.Outbound

namespace RtoAutotrader

def readSide : UInt8 → Option Side
  | 0 => some .sell
  | 1 => some .buy
  | _ => none

def readLifespan : UInt8 → Option Lifespan
  | 0 => some .fillAndKill
  | 1 => some .goodForDay
  | _ => none

/-- The exchange's reading of a frame behind its size: type byte, then packed fields
in network order. -/
def readCommand : List UInt8 → Option Command
  | [] => none
  | type :: body =>
    if type = CANCEL_MESSAGE_TYPE ∧ body.length = 4 then
      some (.cancelOrder (wrapInt (ntohl body)))
    else if type = INSERT_MESSAGE_TYPE ∧ body.length = 14 then do
      let side ← readSide (body.getD 4 0)
      let lifespan ← readLifespan (body.getD 13 0)
      pure (.insertOrder (wrapInt (ntohl (body.take 4))) side
        (wrapInt (ntohl ((body.drop 5).take 4))) (wrapInt (ntohl ((body.drop 9).take 4))) lifespan)
    else none

/-- Cuts the first frame off a stream by its leading size and reads it. -/
def nextCommand (stream : List UInt8) : Option (Command × List UInt8) := do
  let size := networkValue (stream.take 2)
  if 2 ≤ size ∧ size ≤ stream.length then do
    let command ← readCommand ((stream.take size).drop 2)
    pure (command, stream.drop size)
  else none

theorem readSide_code (side : Side) : readSide side.code = some side := by
  cases side <;> rfl

theorem readLifespan_code (lifespan : Lifespan) : readLifespan lifespan.code = some lifespan := by
  cases lifespan <;> rfl

theorem readCommand_bytes {command : Command} (h : command.Fits) :
    readCommand (command.bytes.drop 2) = some command := by
  cases command with
  | insertOrder id side price volume lifespan =>
    obtain ⟨hid, hprice, hvolume⟩ := h
    have hbody : (Command.insertOrder id side price volume lifespan).bytes.drop 2 =
        INSERT_MESSAGE_TYPE :: (htonl id ++ side.code :: (htonl price ++
          (htonl volume ++ [lifespan.code]))) := by
      rw [Command.bytes, insertOrder_eq]
      rfl
    rw [hbody]
    simp [readCommand, INSERT_MESSAGE_TYPE, CANCEL_MESSAGE_TYPE, List.getD_eq_getElem?_getD,
      List.drop_append, htonl_drop, readSide_code, readLifespan_code,
      wrapInt_ntohl_htonl, hid, hprice, hvolume]
  | cancelOrder id =>
    have hbody : (Command.cancelOrder id).bytes.drop 2 = CANCEL_MESSAGE_TYPE :: htonl id := by
      rw [Command.bytes, cancelOrder_eq]
      rfl
    rw [hbody]
    simp [readCommand, wrapInt_ntohl_htonl h]

theorem nextCommand_bytes {command : Command} (h : command.Fits) (rest : List UInt8) :
    nextCommand (command.bytes ++ rest) = some (command, rest) := by
  have hsize := command.bytes_length
  have htwo : 2 ≤ command.bytes.length := by
    cases command with
    | insertOrder => simp [Command.bytes, insertOrder_eq, htons]
    | cancelOrder => simp [Command.bytes, cancelOrder_eq, htons]
  have hhead : networkValue ((command.bytes ++ rest).take 2) = command.bytes.length := by
    rw [List.take_append_of_le_length htwo, ← hsize]
  simp only [nextCommand, hhead]
  rw [if_pos ⟨htwo, by simp⟩, List.take_left', List.drop_left', readCommand_bytes h]
  · rfl
  · rfl
  · rfl

/-- The bytes sent for any calls parse back, without a remainder, as those calls. -/
theorem sent_bytes_parse (commands : List Command) (h : ∀ command ∈ commands, command.Fits) :
    readStream nextCommand (commands.flatMap Command.bytes) = some commands :=
  readStream_flatMap Command.bytes_ne_nil (fun _ hok rest => nextCommand_bytes hok rest) commands h

theorem sent_bytes_parse_negative :
    readStream nextCommand ([Command.insertOrder 2 .buy (-100) 10 .goodForDay,
      .cancelOrder 2, .insertOrder (-1) .sell 2147483647 (-2147483648) .fillAndKill].flatMap
        Command.bytes) = some [Command.insertOrder 2 .buy (-100) 10 .goodForDay,
      .cancelOrder 2, .insertOrder (-1) .sell 2147483647 (-2147483648) .fillAndKill] :=
  sent_bytes_parse _ (by simp [Command.Fits, FitsInt])

end RtoAutotrader
