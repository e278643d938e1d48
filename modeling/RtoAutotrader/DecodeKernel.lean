import Mathlib.Tactic.IntervalCases
import RtoAutotrader.BookDecode

namespace RtoAutotrader

namespace Pass

/-- The type of a message that leads to a pass. -/
def type : Pass → UInt8
  | .called (.onOrderBookUpdate _) => ORDER_BOOK_UPDATE_MESSAGE_TYPE
  | .called (.onOrderStatusUpdate _ _ _ _) => ORDER_STATUS_UPDATE_TYPE
  | .called (.onPositionUpdate _ _) => POSITION_UPDATE_TYPE
  | .unknownType type => type

end Pass

theorem dispatch_type (msg : Message UInt8) : (dispatch msg).type = msg.type := by
  unfold dispatch
  split
  next h => rw [handleOrderBookUpdate_eq, h]; rfl
  next =>
    split
    next h => rw [h]; rfl
    next =>
      split
      next h => rw [h]; rfl
      next => rfl

theorem word_inj {bytes bytes' : List UInt8} (h : bytes.length = 4) (h' : bytes'.length = 4) :
    wrapInt (ntohl bytes) = wrapInt (ntohl bytes') ↔ bytes = bytes' := by
  constructor
  · intro heq
    rw [← htonl_wrapInt_ntohl h, heq, htonl_wrapInt_ntohl h']
  · rintro rfl
    rfl

namespace Message

theorem field_length (msg : Message UInt8) {offset width : Nat} (h : offset + width ≤ MESSAGE_SIZE) :
    (msg.field offset width).length = width := by
  rw [field, List.length_take, List.length_drop, msg.size_eq]
  omega

/-- The words of a group that are not zero, as they stand on the wire. -/
def nonzero (msg : Message UInt8) (group : Nat) : List (List UInt8) :=
  ((List.range 5).map fun level => msg.field (8 + 4 * (5 * group + level)) 4).filter
    fun word => word ≠ [0, 0, 0, 0]

theorem nonzero_length (msg : Message UInt8) {group : Nat} (h : group < 4) :
    ∀ word ∈ msg.nonzero group, word.length = 4 := by
  intro word hword
  obtain ⟨level, hlevel, rfl⟩ := List.mem_map.mp (List.mem_of_mem_filter hword)
  have hlt := List.mem_range.mp hlevel
  exact msg.field_length (by unfold MESSAGE_SIZE; omega)

theorem nonzero_kept (msg : Message UInt8) {group : Nat} (h : group < 4) :
    kept (msg.words group) = (msg.nonzero group).map fun word => wrapInt (ntohl word) := by
  have hzero : ∀ level < 5, msg.word (5 * group + level) ≠ 0 ↔
      msg.field (8 + 4 * (5 * group + level)) 4 ≠ [0, 0, 0, 0] := by
    intro level hlevel
    have hrange := msg.word_unsigned (5 * group + level)
    have hwidth : (msg.field (8 + 4 * (5 * group + level)) 4).length = 4 :=
      msg.field_length (by unfold MESSAGE_SIZE; omega)
    have hnone : wrapInt (ntohl [0, 0, 0, 0]) = 0 := by decide
    rw [not_iff_not, ← word_inj hwidth rfl, hnone]
    rw [word] at hrange ⊢
    unfold wrapInt
    omega
  simp only [kept, words, nonzero, List.filter_map, List.map_map]
  have hfilter : (List.range 5).filter ((fun word => decide (word ≠ 0)) ∘
      fun level => msg.word (5 * group + level)) = (List.range 5).filter
        ((fun word => decide (word ≠ [0, 0, 0, 0])) ∘
          fun level => msg.field (8 + 4 * (5 * group + level)) 4) := by
    apply List.filter_congr
    intro level hlevel
    exact decide_eq_decide.mpr (hzero level (List.mem_range.mp hlevel))
  rw [hfilter]
  rfl

theorem nonzero_inj {msg msg' : Message UInt8} {group : Nat} (h : group < 4) :
    kept (msg.words group) = kept (msg'.words group) ↔ msg.nonzero group = msg'.nonzero group := by
  have hback : ∀ msg : Message UInt8, (kept (msg.words group)).map htonl = msg.nonzero group := by
    intro msg
    rw [nonzero_kept msg h, List.map_map]
    refine (List.map_congr_left ?_).trans (List.map_id _)
    intro bytes hbytes
    exact htonl_wrapInt_ntohl (msg.nonzero_length h bytes hbytes)
  constructor
  · intro heq
    rw [← hback, heq, hback]
  · intro heq
    rw [nonzero_kept msg h, nonzero_kept msg' h, heq]

/-- A field and the one behind it. -/
theorem field_split (msg msg' : Message UInt8) {offset : Nat} (first second : Nat)
    (h : offset + first ≤ MESSAGE_SIZE) :
    msg.field offset (first + second) = msg'.field offset (first + second) ↔
      msg.field offset first = msg'.field offset first ∧
        msg.field (offset + first) second = msg'.field (offset + first) second := by
  have hjoin : ∀ msg : Message UInt8, msg.field offset (first + second) =
      msg.field offset first ++ msg.field (offset + first) second := by
    intro msg
    rw [field, field, field, List.take_add, List.drop_drop]
  rw [hjoin, hjoin]
  constructor
  · intro heq
    exact List.append_inj heq ((msg.field_length h).trans (msg'.field_length h).symm)
  · rintro ⟨hfirst, hsecond⟩
    rw [hfirst, hsecond]

theorem field_eq_iff (msg msg' : Message UInt8) {offset : Nat} (h : offset + 4 ≤ MESSAGE_SIZE) :
    wrapInt (ntohl (msg.field offset 4)) = wrapInt (ntohl (msg'.field offset 4)) ↔
      msg.field offset 4 = msg'.field offset 4 :=
  word_inj (msg.field_length h) (msg'.field_length h)

/-- Books of one instrument and sequence number, with the same words that are not zero. -/
structure SameBook (msg msg' : Message UInt8) : Prop where
  instrument : msg.instrument = msg'.instrument
  sequence_no : msg.field 4 4 = msg'.field 4 4
  groups : ∀ group < 4, msg.nonzero group = msg'.nonzero group

theorem book_eq_iff (msg msg' : Message UInt8) : msg.book = msg'.book ↔ msg.SameBook msg' := by
  have hsequence : wrapInt msg.sequence_no = wrapInt msg'.sequence_no ↔
      msg.field 4 4 = msg'.field 4 4 := msg.field_eq_iff msg' (by decide)
  simp only [book, OrderBookUpdate.mk.injEq, hsequence, nonzero_inj (show 0 < 4 by decide),
    nonzero_inj (show 1 < 4 by decide), nonzero_inj (show 2 < 4 by decide),
    nonzero_inj (show 3 < 4 by decide)]
  constructor
  · rintro ⟨hinstrument, hsame, h0, h1, h2, h3⟩
    refine ⟨hinstrument, hsame, ?_⟩
    intro group hgroup
    interval_cases group
    · exact h0
    · exact h1
    · exact h2
    · exact h3
  · intro h
    exact ⟨h.instrument, h.sequence_no, h.groups 0 (by decide), h.groups 1 (by decide),
      h.groups 2 (by decide), h.groups 3 (by decide)⟩

theorem orderStatus_eq_iff (msg msg' : Message UInt8) :
    handleOrderStatusUpdate msg = handleOrderStatusUpdate msg' ↔
      msg.field 3 16 = msg'.field 3 16 := by
  simp only [handleOrderStatusUpdate, Callback.onOrderStatusUpdate.injEq]
  rw [msg.field_eq_iff msg' (by decide), msg.field_eq_iff msg' (by decide),
    msg.field_eq_iff msg' (by decide), msg.field_eq_iff msg' (by decide),
    msg.field_split msg' 4 12 (by decide), msg.field_split msg' 4 8 (by decide),
    msg.field_split msg' 4 4 (by decide)]

theorem position_eq_iff (msg msg' : Message UInt8) :
    handlePositionUpdate msg = handlePositionUpdate msg' ↔ msg.field 3 8 = msg'.field 3 8 := by
  simp only [handlePositionUpdate, Callback.onPositionUpdate.injEq]
  rw [msg.field_eq_iff msg' (by decide), msg.field_eq_iff msg' (by decide),
    msg.field_split msg' 4 4 (by decide)]

end Message

/-- What the trader is told by a message, and so all it can make of it: nothing of the size, of
bytes behind the message, of which byte other than 0 marks an ETF, or of where the zeros of a group
are. -/
theorem dispatch_eq_iff (msg msg' : Message UInt8) : dispatch msg = dispatch msg' ↔
    msg.type = msg'.type ∧ (msg.type = ORDER_BOOK_UPDATE_MESSAGE_TYPE → msg.SameBook msg') ∧
      (msg.type = ORDER_STATUS_UPDATE_TYPE → msg.field 3 16 = msg'.field 3 16) ∧
      (msg.type = POSITION_UPDATE_TYPE → msg.field 3 8 = msg'.field 3 8) := by
  have hbook : msg.book = msg'.book ↔ handleOrderBookUpdate msg = handleOrderBookUpdate msg' := by
    rw [handleOrderBookUpdate_eq, handleOrderBookUpdate_eq, Callback.onOrderBookUpdate.injEq]
  rw [← msg.book_eq_iff, hbook, ← msg.orderStatus_eq_iff, ← msg.position_eq_iff]
  constructor
  · intro h
    have htype : msg.type = msg'.type := by rw [← dispatch_type, h, dispatch_type]
    refine ⟨htype, ?_, ?_, ?_⟩
    · intro hmsg
      rw [dispatch, dispatch, ← htype, if_pos hmsg, if_pos hmsg] at h
      exact Pass.called.inj h
    · intro hmsg
      rw [dispatch, dispatch, ← htype, hmsg] at h
      exact Pass.called.inj h
    · intro hmsg
      rw [dispatch, dispatch, ← htype, hmsg] at h
      exact Pass.called.inj h
  · rintro ⟨htype, hsameBook, hsameStatus, hsamePosition⟩
    rw [dispatch, dispatch, ← htype]
    split_ifs with hmsg hmsg hmsg
    · rw [hsameBook hmsg]
    · rw [hsameStatus hmsg]
    · rw [hsamePosition hmsg]
    · rfl

end RtoAutotrader
