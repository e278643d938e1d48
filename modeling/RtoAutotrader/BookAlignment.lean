import Mathlib.Data.List.Sort
import RtoAutotrader.AutoTrader
import RtoAutotrader.BookDecode

namespace RtoAutotrader

namespace Message

/-- The levels of a group with a non-zero word. -/
def levels (msg : Message UInt8) (group : Nat) : List Nat :=
  (List.range 5).filter fun level => msg.word (5 * group + level) ≠ 0

def value (msg : Message UInt8) (group level : Nat) : Int := wrapInt (msg.word (5 * group + level))

/-- Two lists of one length whose entries come, index by index, from the same levels of
two groups. -/
structure Parallel (msg : Message UInt8) (first second : Nat) (xs ys : List Int) : Prop where
  length_eq : xs.length = ys.length
  same_levels : ∃ levels : List Nat, levels.Pairwise (· < ·) ∧ (∀ level ∈ levels, level < 5) ∧
    xs = levels.map (msg.value first) ∧ ys = levels.map (msg.value second)

theorem value_eq_zero {msg : Message UInt8} {group level : Nat} :
    msg.value group level = 0 ↔ msg.word (5 * group + level) = 0 := by
  have hrange := msg.word_unsigned (5 * group + level)
  unfold value wrapInt
  omega

theorem mem_levels {msg : Message UInt8} {group level : Nat} :
    level ∈ msg.levels group ↔ level < 5 ∧ msg.word (5 * group + level) ≠ 0 := by
  simp [levels]

theorem kept_words (msg : Message UInt8) (group : Nat) :
    kept (msg.words group) = (msg.levels group).map (msg.value group) := by
  simp [kept, words, levels, List.filter_map, Function.comp_def, value]

theorem levels_ascending (msg : Message UInt8) (group : Nat) :
    (msg.levels group).Pairwise (· < ·) := List.pairwise_lt_range.filter _

/-- A list of ascending levels that gives the entries of a group is the group's own. -/
theorem levels_unique {msg : Message UInt8} {group : Nat} {levels : List Nat}
    (hascending : levels.Pairwise (· < ·)) (hbound : ∀ level ∈ levels, level < 5)
    (h : kept (msg.words group) = levels.map (msg.value group)) : levels = msg.levels group := by
  rw [kept_words] at h
  have hsubset : levels ⊆ msg.levels group := by
    intro level hlevel
    refine mem_levels.mpr ⟨hbound level hlevel, ?_⟩
    have hentry := List.mem_map_of_mem (f := msg.value group) hlevel
    rw [← h] at hentry
    obtain ⟨own, hown, heq⟩ := List.mem_map.mp hentry
    have hnonzero : msg.value group level ≠ 0 := by
      rw [← heq]
      exact mt value_eq_zero.mp (mem_levels.mp hown).2
    exact mt value_eq_zero.mpr hnonzero
  have hlength := congrArg List.length h
  simp only [List.length_map] at hlength
  have hperm := (List.subperm_of_subset hascending.nodup hsubset).perm_of_length_le
    (Nat.le_of_eq hlength)
  exact hperm.eq_of_pairwise' hascending (msg.levels_ascending group)

theorem parallel_iff (msg : Message UInt8) (first second : Nat) :
    msg.Parallel first second (kept (msg.words first)) (kept (msg.words second)) ↔
      ∀ level < 5, msg.word (5 * first + level) = 0 ↔ msg.word (5 * second + level) = 0 := by
  constructor
  · intro h level hlevel
    obtain ⟨levels, hascending, hbound, hxs, hys⟩ := h.same_levels
    have hsame : msg.levels first = msg.levels second :=
      (levels_unique hascending hbound hxs).symm.trans (levels_unique hascending hbound hys)
    have hmem : level ∈ msg.levels first ↔ level ∈ msg.levels second := by rw [hsame]
    rw [mem_levels, mem_levels] at hmem
    simpa [hlevel, not_iff_not] using hmem
  · intro h
    have hsame : msg.levels first = msg.levels second := by
      apply List.filter_congr
      intro level hlevel
      exact decide_eq_decide.mpr (not_congr (h level (List.mem_range.mp hlevel)))
    refine ⟨?_, msg.levels first, msg.levels_ascending first, ?_, msg.kept_words first, ?_⟩
    · rw [kept_words, kept_words, List.length_map, List.length_map, hsame]
    · intro level hlevel
      exact (mem_levels.mp hlevel).1
    · rw [hsame]
      exact msg.kept_words second

end Message

/-- The lists `onOrderBookUpdate` and the pricing model are given are parallel on a side if and
only if the words of each level are both zero or both not. -/
theorem book_lists_parallel_iff {π ε : Type} [PricingModel π] [TradeExecutor ε]
    (t : AutoTrader π ε) (msg : Message UInt8) : ∃ update,
    handleOrderBookUpdate msg = .onOrderBookUpdate update ∧
      (t.handle (handleOrderBookUpdate msg)).1.pricing_model_ =
        PricingModel.onOrderBookUpdate t.pricing_model_ update ∧
      (msg.Parallel 0 1 update.ask_prices update.ask_volumes ↔
        ∀ level < 5, msg.word level = 0 ↔ msg.word (5 + level) = 0) ∧
      (msg.Parallel 2 3 update.bid_prices update.bid_volumes ↔
        ∀ level < 5, msg.word (10 + level) = 0 ↔ msg.word (15 + level) = 0) := by
  refine ⟨msg.book, handleOrderBookUpdate_eq msg, ?_, ?_, msg.parallel_iff 2 3⟩
  · rw [handleOrderBookUpdate_eq]
    rfl
  · have hasks := msg.parallel_iff 0 1
    simp only [Nat.mul_zero, Nat.mul_one, Nat.zero_add] at hasks
    exact hasks

/-- Two ask prices of which the first has no volume. -/
def gappedMessage : Message UInt8 :=
  let msg := Message.zero.write 2 [ORDER_BOOK_UPDATE_MESSAGE_TYPE]
  let msg := msg.write 8 (htonl 1100)
  let msg := msg.write 12 (htonl 1200)
  msg.write 32 (htonl 7)

theorem volume_paired_with_wrong_price : ¬∀ (msg : Message UInt8) (update : OrderBookUpdate),
    msg.type = ORDER_BOOK_UPDATE_MESSAGE_TYPE →
    handleOrderBookUpdate msg = .onOrderBookUpdate update →
      msg.Parallel 0 1 update.ask_prices update.ask_volumes ∧
        msg.Parallel 2 3 update.bid_prices update.bid_volumes := by
  intro h
  have hparallel := (h gappedMessage _ rfl (handleOrderBookUpdate_eq gappedMessage)).1
  have hzero := (gappedMessage.parallel_iff 0 1).mp hparallel 0 (by omega)
  revert hzero
  decide

end RtoAutotrader
