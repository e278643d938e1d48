import RtoAutotrader.BookDecode
import RtoAutotrader.FixedWidth

namespace RtoAutotrader

def Instrument.code : Instrument → UInt8
  | .future => 0
  | .etf => 1

/-- A price or volume of a listed level. Zero is no value, and an `int` has to hold it. -/
abbrev Listed := {x : Int // 0 < x ∧ x < 2147483648}

structure Level where
  price : Listed
  volume : Listed
  deriving DecidableEq, Repr

/-- What the exchange has to say about a book: the best five levels of each side. -/
structure OrderBook where
  instrument : Instrument
  sequence_no : UInt32
  asks : List Level
  bids : List Level
  asks_fit : asks.length ≤ 5
  bids_fit : bids.length ≤ 5
  deriving DecidableEq, Repr

namespace OrderBook

def groups (book : OrderBook) : List (List Listed) :=
  [book.asks.map Level.price, book.asks.map Level.volume,
    book.bids.map Level.price, book.bids.map Level.volume]

/-- The groups one after the other, each filled up with zeros to five words. -/
def wireWords (book : OrderBook) : List Int :=
  book.groups.flatMap fun group => (group.map Subtype.val).rightpad 5 0

/-- Total size in network order, type, packed body. -/
def encode (book : OrderBook) : List UInt8 :=
  networkBytes 2 88 ++ ORDER_BOOK_UPDATE_MESSAGE_TYPE :: book.instrument.code ::
    (htonl book.sequence_no.toNat ++ book.wireWords.flatMap htonl)

/-- The book as the arguments of a callback. The sequence number becomes an `int`. -/
def update (book : OrderBook) : OrderBookUpdate :=
  ⟨book.instrument, wrapInt book.sequence_no.toNat,
    book.asks.map fun level => level.price, book.asks.map fun level => level.volume,
    book.bids.map fun level => level.price, book.bids.map fun level => level.volume⟩

theorem group_width (book : OrderBook) : ∀ group ∈ book.groups,
    ((group.map Subtype.val).rightpad 5 0).length = 5 := by
  intro group hgroup
  apply rightpad_width 0
  simp only [groups, List.mem_cons, List.not_mem_nil, or_false] at hgroup
  rcases hgroup with rfl | rfl | rfl | rfl <;> simp [book.asks_fit, book.bids_fit]

theorem wireWords_length (book : OrderBook) : book.wireWords.length = 20 :=
  flatMap_width book.group_width

theorem wireWords_unsigned (book : OrderBook) :
    ∀ word ∈ book.wireWords, 0 ≤ word ∧ word < 2147483648 := by
  intro word hword
  obtain ⟨group, _, hmem⟩ := List.mem_flatMap.mp hword
  rcases List.mem_append.mp hmem with hlisted | hpad
  · obtain ⟨listed, _, rfl⟩ := List.mem_map.mp hlisted
    have hpositive := listed.2
    omega
  · rw [List.eq_of_mem_replicate hpad]
    omega

theorem encode_length (book : OrderBook) : book.encode.length = MESSAGE_SIZE := by
  have hwords := flatMap_width (f := htonl) fun word (_ : word ∈ book.wireWords) => htonl_length word
  simp [encode, hwords, wireWords_length, MESSAGE_SIZE]

def frame (book : OrderBook) : BookFrame where
  bytes := book.encode
  whole := book.encode_length
  typed := by simp [encode, networkBytes]

theorem frame_word (book : OrderBook) {i : Nat} {word : Int} (h : book.wireWords[i]? = some word) :
    book.frame.message.word i = word := by
  have hbody : book.encode.drop 8 = book.wireWords.flatMap htonl := by
    simp [encode, List.drop_append]
  have hcut := flatMap_cut (f := htonl) (fun word (_ : word ∈ book.wireWords) => htonl_length word) h
  have hrange := book.wireWords_unsigned word (List.mem_of_getElem? h)
  have hfield : book.frame.message.field (8 + 4 * i) 4 = htonl word := by
    rw [← hcut, ← hbody, List.drop_drop]
    rfl
  rw [Message.word, hfield, ntohl_htonl]
  omega

theorem frame_words (book : OrderBook) {index : Nat} {group : List Listed}
    (h : book.groups[index]? = some group) :
    book.frame.message.words index = (group.map Subtype.val).rightpad 5 0 := by
  have hcut := flatMap_cut book.group_width h
  rw [← hcut, ← wireWords]
  have hindex : index < 4 := (List.getElem?_eq_some_iff.mp h).1
  have hlength := book.wireWords_length
  apply List.ext_getElem?
  intro level
  rw [List.getElem?_take, List.getElem?_drop, Message.words, List.getElem?_map]
  split
  next hlevel =>
    have hword : book.wireWords[5 * index + level]? = some book.wireWords[5 * index + level] :=
      List.getElem?_eq_getElem (by omega)
    rw [List.getElem?_range hlevel, Option.map_some, book.frame_word hword, hword]
  next hlevel =>
    rw [List.getElem?_eq_none (by simpa using hlevel)]
    rfl

theorem kept_listed (group : List Listed) :
    kept ((group.map Subtype.val).rightpad 5 0) = group.map Subtype.val := by
  rw [kept, filter_rightpad]
  induction group with
  | nil => rfl
  | cons listed group ih =>
    have hpositive := listed.2
    have hnonzero : listed.val ≠ 0 := by omega
    have hfits : FitsInt listed.val := ⟨by omega, by omega⟩
    rw [List.map_cons, List.filter_cons_of_pos (by simpa using hnonzero), List.map_cons, ih,
      wrapInt_of_fits hfits]

theorem frame_sequence_no (book : OrderBook) :
    book.frame.message.sequence_no = book.sequence_no.toNat := by
  have hfield : book.frame.message.field 4 4 = htonl book.sequence_no.toNat := by
    simp [Message.field, BookFrame.message, frame, encode, networkBytes, htonl_length]
  have hlt := book.sequence_no.toNat_lt
  rw [Message.sequence_no, hfield, ntohl_htonl]
  omega

theorem frame_book (book : OrderBook) : book.frame.message.book = book.update := by
  have hinstrument : book.frame.message.instrument = book.instrument := by
    have hcode : book.frame.message.bytes.getD 3 0 = book.instrument.code := by
      simp [BookFrame.message, frame, encode, networkBytes]
    rw [Message.instrument, hcode]
    cases book.instrument <;> rfl
  have hgroup : ∀ (index : Nat) (group : List Listed), book.groups[index]? = some group →
      kept (book.frame.message.words index) = group.map Subtype.val := by
    intro index group h
    rw [book.frame_words h, kept_listed]
  rw [Message.book, frame_sequence_no, hinstrument, hgroup 0 _ rfl, hgroup 1 _ rfl, hgroup 2 _ rfl,
    hgroup 3 _ rfl]
  simp [update, Function.comp_def]

theorem update_sequence_no (book : OrderBook) : book.update.sequence_no =
    if book.sequence_no.toNat < 2147483648 then (book.sequence_no.toNat : Int)
    else book.sequence_no.toNat - 4294967296 := by
  have hlt := book.sequence_no.toNat_lt
  simp only [update, wrapInt]
  split
  next hsmall => omega
  next hlarge => omega

@[simp] theorem frame_data (book : OrderBook) : book.frame.chunk.data = book.encode := rfl

theorem runLoopFrom_called (msg : Message UInt8) {reads : List ReadResult} {pass : Nat}
    {book : OrderBook} (h : (delivered reads)[pass]? = some book.encode) :
    (runLoopFrom msg reads).passes[pass]? = some (.called (.onOrderBookUpdate book.update)) := by
  obtain ⟨hpass, _⟩ := List.getElem?_eq_some_iff.mp h
  have hcalled := book.frame.dispatch_received (msg.after (delivered reads) pass)
  rw [runLoopFrom_passes, List.getElem?_map, buffers_getElem? msg hpass, Option.map_some,
    after_succ msg h, ← book.frame_book, ← hcalled]
  rfl

end OrderBook

/-- Whatever the buffer held, a read that delivers a book's frame makes one callback, with
the book's own levels. The sequence number arrives as the `int` of the same four bytes. -/
theorem order_book_received (msg : Message UInt8) (reads : List ReadResult) (pass : Nat)
    (book : OrderBook) (h : (delivered reads)[pass]? = some book.encode) :
    (runLoopFrom msg reads).passes[pass]? = some (.called (.onOrderBookUpdate book.update)) ∧
      book.update.sequence_no = if book.sequence_no.toNat < 2147483648
        then (book.sequence_no.toNat : Int) else book.sequence_no.toNat - 4294967296 :=
  ⟨book.runLoopFrom_called msg h, book.update_sequence_no⟩

def thinBook : OrderBook where
  instrument := .etf
  sequence_no := 2147483648
  asks := [⟨⟨1100, by decide⟩, ⟨5, by decide⟩⟩, ⟨⟨1200, by decide⟩, ⟨7, by decide⟩⟩]
  bids := []
  asks_fit := by decide
  bids_fit := by decide

/-- A book without bids, read over a buffer full of other bytes. -/
theorem order_book_received_thin :
    (runLoopFrom (.filled 255) [.failed EWOULDBLOCK, .returned thinBook.frame.chunk]).passes[0]? =
      some (.called (.onOrderBookUpdate ⟨.etf, -2147483648, [1100, 1200], [5, 7], [], []⟩)) := by
  have hupdate : thinBook.update = ⟨.etf, -2147483648, [1100, 1200], [5, 7], [], []⟩ := by decide
  rw [← hupdate]
  exact (order_book_received (.filled 255) [.failed EWOULDBLOCK, .returned thinBook.frame.chunk] 0
    thinBook (by simp [delivered])).1

/-- The sequence number 2^31 arrives as a negative one. -/
theorem sequence_no_arrives_negative : ¬∀ (msg : Message UInt8) (reads : List ReadResult)
    (pass : Nat) (book : OrderBook), (delivered reads)[pass]? = some book.encode →
      (runLoopFrom msg reads).passes[pass]? = some (.called (.onOrderBookUpdate
        { book.update with sequence_no := book.sequence_no.toNat })) := by
  intro h
  have hread : (delivered [.returned thinBook.frame.chunk])[0]? = some thinBook.encode := by
    simp [delivered]
  have hexact := h (.filled 255) _ 0 thinBook hread
  rw [thinBook.runLoopFrom_called (.filled 255) hread] at hexact
  simp only [Option.some.injEq, Pass.called.injEq, Callback.onOrderBookUpdate.injEq] at hexact
  have hsequence := congrArg OrderBookUpdate.sequence_no hexact
  revert hsequence
  decide

end RtoAutotrader
