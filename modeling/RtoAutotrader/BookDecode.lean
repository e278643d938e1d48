import RtoAutotrader.LoopPasses

namespace RtoAutotrader

namespace Message

/-- A price or volume word of an order book as it stands on the wire, unsigned. -/
def word (msg : Message UInt8) (i : Nat) : Int := ntohl (msg.field (8 + 4 * i) 4)

/-- The five words of a group. Ask prices, ask volumes, bid prices and bid volumes are
the groups 0 to 3. -/
def words (msg : Message UInt8) (group : Nat) : List Int :=
  (List.range 5).map fun level => msg.word (5 * group + level)

theorem word_unsigned (msg : Message UInt8) (i : Nat) :
    0 ≤ msg.word i ∧ msg.word i < 4294967296 := by
  have hlt := networkValue_lt (msg.field (8 + 4 * i) 4)
  have hwidth : (msg.field (8 + 4 * i) 4).length ≤ 4 := List.length_take_le _ _
  have hpow := Nat.pow_le_pow_right (show 0 < 256 by omega) hwidth
  unfold word ntohl
  omega

end Message

/-- What is left of a group without its zeros, as `int`s. -/
def kept (words : List Int) : List Int := (words.filter fun word => word ≠ 0).map wrapInt

theorem kept_append (first second : List Int) :
    kept (first ++ second) = kept first ++ kept second := by
  simp [kept]

theorem pushBack_append (book : List (List Int)) (group : List Int) (x : Int) :
    pushBack (book ++ [group]) x = book ++ [group ++ [x]] := by
  simp [pushBack]

/-- A pass that opens no group adds its word to the last one, unless it is zero. -/
theorem orderBookPass_inner (msg : Message UInt8) (book : List (List Int)) (group : List Int)
    {i : Nat} (h : i % 5 ≠ 0) :
    orderBookPass msg (book ++ [group]) i = book ++ [group ++ kept [msg.word i]] := by
  simp only [orderBookPass, if_neg h]
  change (if msg.word i ≠ 0 then pushBack (book ++ [group]) (wrapInt (msg.word i))
    else book ++ [group]) = _
  split
  next hword => simp [pushBack_append, kept, hword]
  next hword => simp [kept, not_not.mp hword]

theorem orderBookPass_outer (msg : Message UInt8) (book : List (List Int)) {i : Nat}
    (h : i % 5 = 0) : orderBookPass msg book i = book ++ [kept [msg.word i]] := by
  simp only [orderBookPass, if_pos h]
  change (if msg.word i ≠ 0 then pushBack (book ++ [[]]) (wrapInt (msg.word i))
    else book ++ [[]]) = _
  split
  next hword => simp [pushBack_append, kept, hword]
  next hword => simp [kept, not_not.mp hword]

theorem orderBookPass_levels (msg : Message UInt8) (book : List (List Int)) (group count : Nat)
    (h : count < 5) :
    ((List.range (count + 1)).map fun level => 5 * group + level).foldl (orderBookPass msg) book =
      book ++ [kept ((List.range (count + 1)).map fun level => msg.word (5 * group + level))] := by
  induction count with
  | zero => exact orderBookPass_outer msg book (show (5 * group + 0) % 5 = 0 by omega)
  | succ count ih =>
    rw [List.range_succ, List.map_append, List.foldl_append, ih (by omega), List.map_append,
      kept_append]
    exact orderBookPass_inner msg book _ (show (5 * group + (count + 1)) % 5 ≠ 0 by omega)

theorem orderBookPass_groups (msg : Message UInt8) (book : List (List Int)) (groups : List Nat) :
    (groups.flatMap fun group => (List.range 5).map fun level => 5 * group + level).foldl
        (orderBookPass msg) book = book ++ groups.map fun group => kept (msg.words group) := by
  induction groups generalizing book with
  | nil => simp
  | cons group groups ih =>
    rw [List.flatMap_cons, List.foldl_append, orderBookPass_levels msg book group 4 (by omega), ih,
      List.append_assoc]
    rfl

/-- The loop over the twenty words leaves the four groups without their zeros. -/
theorem orderBookPass_loop (msg : Message UInt8) :
    (List.range 20).foldl (orderBookPass msg) [] =
      (List.range 4).map fun group => kept (msg.words group) :=
  orderBookPass_groups msg [] (List.range 4)

def Message.instrument (msg : Message UInt8) : Instrument :=
  if msg.bytes.getD 3 0 = 0 then .future else .etf

/-- The sequence number as it stands on the wire, unsigned. -/
def Message.sequence_no (msg : Message UInt8) : Int := ntohl (msg.field 4 4)

/-- The book `handleOrderBookUpdate` passes on. -/
def Message.book (msg : Message UInt8) : OrderBookUpdate :=
  ⟨msg.instrument, wrapInt msg.sequence_no, kept (msg.words 0), kept (msg.words 1),
    kept (msg.words 2), kept (msg.words 3)⟩

theorem handleOrderBookUpdate_eq (msg : Message UInt8) :
    handleOrderBookUpdate msg = .onOrderBookUpdate msg.book := by
  simp only [handleOrderBookUpdate, orderBookPass_loop]
  rfl

/-- An order-book message as it arrives. -/
structure BookFrame where
  bytes : List UInt8
  whole : bytes.length = MESSAGE_SIZE
  typed : bytes.getD 2 0 = ORDER_BOOK_UPDATE_MESSAGE_TYPE

namespace BookFrame

def message (frame : BookFrame) : Message UInt8 := ⟨frame.bytes, frame.whole⟩

def chunk (frame : BookFrame) : Chunk := ⟨frame.bytes, Nat.le_of_eq frame.whole⟩

theorem received_field (frame : BookFrame) (msg : Message UInt8) {offset width : Nat}
    (h2 : 2 ≤ offset) (hfits : offset + width ≤ MESSAGE_SIZE) :
    (msg.received frame.bytes).field offset width = frame.message.field offset width :=
  RtoAutotrader.received_field msg h2 hfits (by rw [frame.whole]; exact hfits)

theorem received_book (frame : BookFrame) (msg : Message UInt8) :
    (msg.received frame.bytes).book = frame.message.book := by
  have hwords : ∀ group, group < 4 →
      (msg.received frame.bytes).words group = frame.message.words group := by
    intro group hgroup
    apply List.map_congr_left
    intro level hlevel
    have hlt := List.mem_range.mp hlevel
    rw [Message.word, frame.received_field msg (by omega) (by unfold MESSAGE_SIZE; omega),
      Message.word]
  have hinstrument : (msg.received frame.bytes).instrument = frame.message.instrument := by
    have hat := received_getElem? msg frame.bytes (i := 3) (by omega) (by decide)
    rw [if_pos (by rw [frame.whole]; decide)] at hat
    simp only [Message.instrument, List.getD_eq_getElem?_getD, hat]
    rfl
  have hsequence : (msg.received frame.bytes).sequence_no = frame.message.sequence_no := by
    rw [Message.sequence_no, frame.received_field msg (by omega) (by decide), Message.sequence_no]
  simp only [Message.book, hinstrument, hsequence, hwords 0 (by omega), hwords 1 (by omega),
    hwords 2 (by omega), hwords 3 (by omega)]

theorem dispatch_received (frame : BookFrame) (msg : Message UInt8) :
    dispatch (msg.received frame.bytes) = .called (.onOrderBookUpdate frame.message.book) := by
  have htype : (msg.received frame.bytes).type = ORDER_BOOK_UPDATE_MESSAGE_TYPE := by
    have h2 : 2 < frame.bytes.length := by
      rw [frame.whole]
      decide
    have htyped := frame.typed
    simp only [List.getD_eq_getElem?_getD, List.getElem?_eq_getElem h2, Option.getD_some] at htyped
    rw [received_type, List.getD_eq_getElem?_getD, List.getElem?_eq_getElem h2, Option.getD_some,
      htyped]
  rw [dispatch, if_pos htype, handleOrderBookUpdate_eq, frame.received_book]

end BookFrame

end RtoAutotrader
