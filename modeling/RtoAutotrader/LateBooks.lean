import RtoAutotrader.ExecutionStream
import RtoAutotrader.MidpointRange

namespace RtoAutotrader

namespace BookFrame

def sequence_no (frame : BookFrame) : Int := frame.message.sequence_no

/-- The price `FutureMidpoint` computes from a datagram. -/
def midpoint (frame : BookFrame) : Int := frame.message.book.midpoint

def TwoSided (frame : BookFrame) : Prop := frame.message.book.TwoSided

theorem handle_midpoint (t : AutoTrader FutureMidpoint SimpleExecutor) {frame : BookFrame}
    (h : frame.TwoSided) :
    (t.handle (handleOrderBookUpdate frame.message)).1.pricing_model_.theo_price_ = frame.midpoint :=
  handle_theo_price t h

end BookFrame

/-- The datagrams of a set arrive, in any order and any number of times each. -/
def Arrives (frames arrivals : List BookFrame) : Prop := ∀ frame, frame ∈ arrivals ↔ frame ∈ frames

/-- The reads that deliver something deliver a datagram each. -/
def Delivers (arrivals : List BookFrame) (reads : List ReadResult) : Prop :=
  delivered reads = arrivals.map BookFrame.bytes

/-- A trader after `runLoop` has handled what the reads deliver. -/
def traderAfter (t : AutoTrader FutureMidpoint SimpleExecutor) (reads : List ReadResult) :
    AutoTrader FutureMidpoint SimpleExecutor :=
  (runFrom AutoTrader.handle t (runLoop reads).callbacks).1

structure Newest (frames : List BookFrame) (newest : BookFrame) : Prop where
  among : newest ∈ frames
  highest : ∀ frame ∈ frames, frame.sequence_no ≤ newest.sequence_no

theorem dispatch_frames (msg : Message UInt8) (arrivals : List BookFrame) :
    ((buffers msg (arrivals.map BookFrame.bytes)).map dispatch).filterMap Pass.callback? =
      arrivals.map fun frame => handleOrderBookUpdate frame.message := by
  induction arrivals generalizing msg with
  | nil => rfl
  | cons frame arrivals ih =>
    rw [List.map_cons, buffers, List.map_cons, frame.dispatch_received, List.map_cons,
      handleOrderBookUpdate_eq, ← ih (msg.received frame.bytes)]
    rfl

theorem Delivers.callbacks {arrivals : List BookFrame} {reads : List ReadResult}
    (h : Delivers arrivals reads) :
    (runLoop reads).callbacks = arrivals.map fun frame => handleOrderBookUpdate frame.message := by
  rw [runLoop_callbacks, h, dispatch_frames]

theorem Delivers.traderAfter_last {arrivals : List BookFrame} {last : BookFrame}
    {reads : List ReadResult} (h : Delivers (arrivals ++ [last]) reads)
    (t : AutoTrader FutureMidpoint SimpleExecutor) : traderAfter t reads =
      ((runFrom AutoTrader.handle t
        (arrivals.map fun frame => handleOrderBookUpdate frame.message)).1.handle
          (handleOrderBookUpdate last.message)).1 := by
  rw [traderAfter, h.callbacks, List.map_append, List.map_singleton, runFrom_concat]

theorem Delivers.price {arrivals : List BookFrame} {last : BookFrame} {reads : List ReadResult}
    (h : Delivers (arrivals ++ [last]) reads) (htwo : last.TwoSided)
    (t : AutoTrader FutureMidpoint SimpleExecutor) :
    (traderAfter t reads).pricing_model_.theo_price_ = last.midpoint := by
  rw [h.traderAfter_last, BookFrame.handle_midpoint _ htwo]

/-- The information socket delivers datagrams while the execution socket would block. -/
def datagrams (arrivals : List BookFrame) : List ReadResult :=
  arrivals.flatMap fun frame => [.failed EWOULDBLOCK, .returned frame.chunk]

theorem datagrams_delivers (arrivals : List BookFrame) : Delivers arrivals (datagrams arrivals) := by
  induction arrivals with
  | nil => rfl
  | cons frame arrivals ih =>
    rw [Delivers, datagrams, List.flatMap_cons, List.map_cons, ← ih]
    rfl

/-- The price after all datagrams is the one of the last to arrive, whatever its sequence
number. That of the newest it is for every arrival order only if they all have that one. -/
theorem last_arrival_prices (t : AutoTrader FutureMidpoint SimpleExecutor) (frames : List BookFrame)
    (newest : BookFrame) (htwo : ∀ frame ∈ frames, frame.TwoSided) (hnewest : Newest frames newest) :
    (∀ arrivals last reads, Arrives frames (arrivals ++ [last]) →
      Delivers (arrivals ++ [last]) reads →
      (traderAfter t reads).pricing_model_.theo_price_ = last.midpoint ∧
      (traderAfter t reads).executor_ = ((runFrom AutoTrader.handle t
        (arrivals.map fun frame => handleOrderBookUpdate frame.message)).1.executor_.executeTrades
          (last.midpoint - 100) (last.midpoint + 100)).1) ∧
    ((∀ arrivals reads, Arrives frames arrivals → Delivers arrivals reads →
      (traderAfter t reads).pricing_model_.theo_price_ = newest.midpoint) ↔
        ∀ frame ∈ frames, frame.midpoint = newest.midpoint) := by
  refine ⟨?_, ?_, ?_⟩
  · intro arrivals last reads harrives hdelivers
    have hlast := htwo last ((harrives last).mp (List.mem_append_right _ List.mem_cons_self))
    refine ⟨hdelivers.price hlast t, ?_⟩
    rw [hdelivers.traderAfter_last]
    exact congrArg Prod.fst (handle_quotes _ hlast)
  · intro hsame frame hframe
    have harrives : Arrives frames (frames ++ [frame]) := by
      intro other
      simp only [List.mem_append, List.mem_singleton]
      constructor
      · rintro (hold | rfl)
        · exact hold
        · exact hframe
      · exact Or.inl
    have hdelivers := datagrams_delivers (frames ++ [frame])
    rw [← hdelivers.price (htwo frame hframe) t]
    exact hsame _ _ harrives hdelivers
  · intro hsame arrivals reads harrives hdelivers
    rcases List.eq_nil_or_concat arrivals with rfl | ⟨earlier, last, rfl⟩
    · have hnone := (harrives newest).mpr hnewest.among
      cases hnone
    · rw [List.concat_eq_append] at harrives hdelivers
      have hlast := (harrives last).mp (List.mem_append_right _ List.mem_cons_self)
      rw [hdelivers.price (htwo last hlast), hsame last hlast]

def olderFrame : BookFrame := (lockedBook 1 ⟨1000, by decide⟩).frame
def newerFrame : BookFrame := (lockedBook 2 ⟨1400, by decide⟩).frame

theorem olderFrame_midpoint : olderFrame.midpoint = 1000 :=
  lockedBook_midpoint 1 ⟨1000, by decide⟩ (by decide)

theorem newerFrame_midpoint : newerFrame.midpoint = 1400 :=
  lockedBook_midpoint 2 ⟨1400, by decide⟩ (by decide)

theorem olderFrame_before : olderFrame.sequence_no < newerFrame.sequence_no := by
  have holder : olderFrame.sequence_no = 1 := (lockedBook 1 ⟨1000, by decide⟩).frame_sequence_no
  have hnewer : newerFrame.sequence_no = 2 := (lockedBook 2 ⟨1400, by decide⟩).frame_sequence_no
  omega

theorem newerFrame_newest : Newest [olderFrame, newerFrame] newerFrame := by
  have hbefore := olderFrame_before
  refine ⟨by simp, ?_⟩
  intro frame hframe
  simp only [List.mem_cons, List.not_mem_nil, or_false] at hframe
  rcases hframe with rfl | rfl
  · omega
  · omega

theorem frames_twoSided : ∀ frame ∈ [olderFrame, newerFrame], frame.TwoSided := by
  intro frame hframe
  simp only [List.mem_cons, List.not_mem_nil, or_false] at hframe
  rcases hframe with rfl | rfl
  · exact lockedBook_twoSided _ _
  · exact lockedBook_twoSided _ _

theorem arrives_late : Arrives [olderFrame, newerFrame] ([newerFrame] ++ [olderFrame]) := by
  intro frame
  simp [or_comm]

/-- The older book arrives after the newer one. -/
theorem last_arrival_prices_late :
    (traderAfter mainTrader (datagrams ([newerFrame] ++ [olderFrame]))).pricing_model_.theo_price_ =
      1000 := by
  have hlast := (last_arrival_prices mainTrader _ newerFrame frames_twoSided newerFrame_newest).1
    _ _ _ arrives_late (datagrams_delivers _)
  rw [olderFrame_midpoint] at hlast
  exact hlast.1

theorem late_book_overwrites : ¬∀ (t : AutoTrader FutureMidpoint SimpleExecutor)
    (frames : List BookFrame) (newest : BookFrame),
    frames.Pairwise (fun first second => first.sequence_no ≠ second.sequence_no) →
      (∀ frame ∈ frames, frame.TwoSided) → Newest frames newest →
      ∀ arrivals reads, Arrives frames arrivals → Delivers arrivals reads →
        (traderAfter t reads).pricing_model_.theo_price_ = newest.midpoint := by
  intro h
  have hdistinct : [olderFrame, newerFrame].Pairwise
      fun first second => first.sequence_no ≠ second.sequence_no := by
    simp [Int.ne_of_lt olderFrame_before]
  have hdelivers := datagrams_delivers ([newerFrame] ++ [olderFrame])
  have hprice := h mainTrader _ _ hdistinct frames_twoSided newerFrame_newest _ _ arrives_late
    hdelivers
  rw [hdelivers.price (lockedBook_twoSided _ _), olderFrame_midpoint, newerFrame_midpoint] at hprice
  revert hprice
  decide

end RtoAutotrader
