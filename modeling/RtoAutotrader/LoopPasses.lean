import RtoAutotrader.MarketLink

namespace RtoAutotrader

/-- The byte runs the reads delivered before the first error that is not
`EWOULDBLOCK`, whichever socket they came from. -/
def delivered : List ReadResult → List (List UInt8)
  | [] => []
  | .returned chunk :: rest => chunk.data :: delivered rest
  | .failed errno :: rest => if errno ≠ EWOULDBLOCK then [] else delivered rest

theorem delivered_append {first : List ReadResult}
    (h : ∀ errno, .failed errno ∈ first → errno = EWOULDBLOCK) (second : List ReadResult) :
    delivered (first ++ second) = delivered first ++ delivered second := by
  induction first with
  | nil => rfl
  | cons result first ih =>
    have hrest := ih fun errno herrno => h errno (List.mem_cons_of_mem result herrno)
    cases result with
    | returned chunk => exact congrArg (List.cons chunk.data) hrest
    | failed errno =>
      have herrno : ¬errno ≠ EWOULDBLOCK := not_not_intro (h errno List.mem_cons_self)
      simp only [List.cons_append, delivered, if_neg herrno, hrest]

def buffers {α : Type} (msg : Message α) : List (List α) → List (Message α)
  | [] => []
  | data :: rest => msg.received data :: buffers (msg.received data) rest

theorem readNextMessage_message {msg msg' : Message UInt8} {reads rest : List ReadResult}
    (h : readNextMessage msg reads = .message msg' rest) :
    ∃ data, msg' = msg.received data ∧ delivered reads = data :: delivered rest := by
  fun_induction readNextMessage msg reads with
  | case1 => cases h
  | case2 chunk rest' => cases h; exact ⟨chunk.data, rfl, rfl⟩
  | case3 => cases h
  | case4 => cases h
  | case5 errno herr chunk rest' =>
    cases h
    exact ⟨chunk.data, rfl, by simp [delivered, not_not.mp herr]⟩
  | case6 => cases h
  | case7 errno herr errno' rest' herr' ih =>
    obtain ⟨data, hmsg, hdata⟩ := ih h
    exact ⟨data, hmsg, by simp [delivered, not_not.mp herr, not_not.mp herr', hdata]⟩

theorem readNextMessage_silent {msg : Message UInt8} {reads : List ReadResult}
    (h : ∀ msg' rest, readNextMessage msg reads ≠ .message msg' rest) : delivered reads = [] := by
  fun_induction readNextMessage msg reads with
  | case1 => rfl
  | case2 chunk rest => exact absurd rfl (h _ _)
  | case3 errno rest herr => simp only [delivered, if_pos herr]
  | case4 errno herr => simp only [delivered, if_neg herr]
  | case5 errno herr chunk rest => exact absurd rfl (h _ _)
  | case6 errno herr errno' rest herr' =>
    simp only [delivered, if_neg herr, if_pos herr']
  | case7 errno herr errno' rest herr' ih =>
    simp only [delivered, if_neg herr, if_neg herr']
    exact ih h

/-- Both loops together: one pass of the switch for each delivery, on the buffer
that delivery leaves. -/
theorem runLoopFrom_passes (msg : Message UInt8) (reads : List ReadResult) :
    (runLoopFrom msg reads).passes = (buffers msg (delivered reads)).map dispatch := by
  fun_induction runLoopFrom msg reads with
  | case1 msg reads msg' rest h run ih =>
    obtain ⟨data, hmsg, hdata⟩ := readNextMessage_message h
    subst hmsg
    rw [hdata]
    simp only [buffers, List.map_cons, run, ih]
  | case2 msg reads errno h =>
    have hnone : delivered reads = [] := readNextMessage_silent fun msg' rest => by rw [h]; nofun
    rw [hnone]
    rfl
  | case3 msg reads h =>
    have hnone : delivered reads = [] := readNextMessage_silent fun msg' rest => by rw [h]; nofun
    rw [hnone]
    rfl

theorem runLoop_passes (reads : List ReadResult) :
    (runLoop reads).passes = (buffers Message.zero (delivered reads)).map dispatch :=
  runLoopFrom_passes Message.zero reads

@[simp] theorem buffers_length {α : Type} (msg : Message α) (datas : List (List α)) :
    (buffers msg datas).length = datas.length := by
  induction datas generalizing msg with
  | nil => rfl
  | cons data rest ih => simp [buffers, ih]

theorem buffers_concat {α : Type} (msg : Message α) (datas : List (List α)) (data : List α) :
    buffers msg (datas ++ [data]) =
      buffers msg datas ++ [(datas.foldl Message.received msg).received data] := by
  induction datas generalizing msg with
  | nil => rfl
  | cons first datas ih => exact congrArg (List.cons _) (ih (msg.received first))

def Message.after {α : Type} (msg : Message α) (datas : List (List α)) (n : Nat) : Message α :=
  (datas.take n).foldl Message.received msg

theorem after_succ {α : Type} (msg : Message α) {datas : List (List α)} {n : Nat} {data : List α}
    (hd : datas[n]? = some data) :
    msg.after datas (n + 1) = (msg.after datas n).received data := by
  simp only [Message.after, List.take_add_one, hd, Option.toList_some, List.foldl_append,
    List.foldl_cons, List.foldl_nil]

theorem buffers_getElem? {α : Type} (msg : Message α) {datas : List (List α)} {i : Nat}
    (hi : i < datas.length) : (buffers msg datas)[i]? = some (msg.after datas (i + 1)) := by
  induction datas generalizing msg i with
  | nil => simp at hi
  | cons data rest ih =>
    cases i with
    | zero => simp [buffers, Message.after]
    | succ i =>
      simp only [buffers, List.getElem?_cons_succ]
      exact ih (msg.received data) (by simpa using hi)

/-- Past the two bytes of `size`, a position holds what the delivery put there, and
what it held before where the delivery was too short. -/
theorem received_getElem? {α : Type} (msg : Message α) (data : List α) {i : Nat}
    (h2 : 2 ≤ i) (hi : i < MESSAGE_SIZE) :
    (msg.received data).bytes[i]? = if i < data.length then data[i]? else msg.bytes[i]? := by
  have hswap : ∀ xs : List α, (swapFront xs)[i]? = xs[i]? := by
    intro xs
    obtain ⟨j, rfl⟩ : ∃ j, i = j + 2 := ⟨i - 2, by omega⟩
    rcases xs with _ | ⟨a, _ | ⟨b, rest⟩⟩ <;> rfl
  have hlen : i < msg.bytes.length := by rw [msg.size_eq]; exact hi
  simp only [Message.received, Message.ntohsSize, Message.write, hswap,
    overwrite_getElem? 0 data msg.bytes i hlen]
  simp

theorem received_field {α : Type} (msg : Message α) {data : List α} {offset width : Nat}
    (h2 : 2 ≤ offset) (hfits : offset + width ≤ MESSAGE_SIZE)
    (hcovers : offset + width ≤ data.length) :
    (msg.received data).field offset width = (data.drop offset).take width := by
  apply List.ext_getElem?
  intro i
  simp only [Message.field, List.getElem?_take, List.getElem?_drop]
  split
  next hi =>
    rw [received_getElem? msg data (by omega) (by omega), if_pos (by omega)]
  next => rfl

theorem received_type (msg : Message UInt8) (data : List UInt8) :
    (msg.received data).type = data.getD 2 msg.type := by
  have h := received_getElem? msg data (i := 2) (by omega) (by decide)
  simp only [Message.type, List.getD_eq_getElem?_getD, h]
  split
  next hlen => simp [hlen]
  next hlen => simp [hlen]

/-- The packed length of a message whose type `runLoop` passes on, and nothing for
the types it does not know. -/
def packedLength (type : UInt8) : Option Nat :=
  if type = ORDER_BOOK_UPDATE_MESSAGE_TYPE then some 88
  else if type = ORDER_STATUS_UPDATE_TYPE then some 19
  else if type = POSITION_UPDATE_TYPE then some 11
  else none

theorem dispatch_called_iff (msg : Message UInt8) :
    (∃ callback, dispatch msg = .called callback) ↔ (packedLength msg.type).isSome := by
  unfold dispatch packedLength
  split_ifs <;> simp

theorem packedLength_bounds {type : UInt8} {n : Nat} (h : packedLength type = some n) :
    11 ≤ n ∧ n ≤ MESSAGE_SIZE := by
  unfold packedLength at h
  split_ifs at h <;> cases h <;> decide

theorem map_received {α β : Type} (f : α → β) (msg : Message α) (data : List α) :
    (msg.received data).map f = (msg.map f).received (data.map f) := by
  apply Message.ext_bytes
  simp only [Message.received, Message.ntohsSize, Message.map, Message.write, swapFront_map,
    overwrite_map]

end RtoAutotrader
