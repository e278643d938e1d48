import Mathlib.Data.List.Forall2
import RtoAutotrader.LoopPasses

namespace RtoAutotrader

/-- A value of a 32-bit signed field. -/
abbrev CInt := {x : Int // FitsInt x}

/-- The frames the exchange writes on the execution stream. -/
inductive Frame
  | orderStatus (id fill_volume remaining_volume fees : CInt)
  | position (future_position etf_position : CInt)
  | other (type : UInt8) (body : List UInt8) (unknown : packedLength type = none)
      (fits : body.length + 3 < 65536)

namespace Frame

def type : Frame → UInt8
  | orderStatus .. => ORDER_STATUS_UPDATE_TYPE
  | position .. => POSITION_UPDATE_TYPE
  | other type .. => type

def body : Frame → List UInt8
  | orderStatus id fill_volume remaining_volume fees =>
    htonl id ++ htonl fill_volume ++ htonl remaining_volume ++ htonl fees
  | position future_position etf_position => htonl future_position ++ htonl etf_position
  | other _ body .. => body

def encode (frame : Frame) : List UInt8 :=
  networkBytes 2 (frame.body.length + 3) ++ frame.type :: frame.body

def callback? : Frame → Option Callback
  | orderStatus id fill_volume remaining_volume fees =>
    some (.onOrderStatusUpdate id fill_volume remaining_volume fees)
  | position future_position etf_position => some (.onPositionUpdate future_position etf_position)
  | other .. => none

theorem encode_drop (frame : Frame) : frame.encode.drop 2 = frame.type :: frame.body := by
  simp [encode, networkBytes]

end Frame

/-- A read that starts with a whole frame, from the frame's type on. -/
def Starts (data : List UInt8) (frame : Frame) : Prop :=
  frame.type :: frame.body <+: data.drop 2

/-- The reads after which the buffer shows a type `runLoop` passes on, each with that
type. A read of fewer than three bytes leaves the type of an earlier one. -/
def loudReads (type : UInt8) : List (List UInt8) → List (UInt8 × List UInt8)
  | [] => []
  | data :: rest =>
    let shown := data.getD 2 type
    if (packedLength shown).isSome then (shown, data) :: loudReads shown rest
    else loudReads shown rest

def WholeReads (datas : List (List UInt8)) : Prop :=
  ∀ read ∈ loudReads 0 datas, ∀ n, packedLength read.1 = some n → n ≤ read.2.length

/-- The reads that show a known type are, one for one and in order, reads that start
with the order-status and position frames of the stream. -/
def Synced (frames : List Frame) (datas : List (List UInt8)) : Prop :=
  List.Forall₂ (fun read frame => Starts read.2 frame) (loudReads 0 datas)
    (frames.filter fun frame => frame.callback?.isSome)

def withSilentInfo : List ReadResult → List ReadResult
  | [] => []
  | .returned chunk :: exec => .returned chunk :: withSilentInfo exec
  | .failed errno :: exec => .failed errno :: .failed EWOULDBLOCK :: withSilentInfo exec

/-- The execution socket hands out the frames' bytes, in non-empty chunks and with
`EWOULDBLOCK` in between. -/
structure DeliversFrames (frames : List Frame) (exec : List ReadResult) : Prop where
  blocks : ∀ errno, ReadResult.failed errno ∈ exec → errno = EWOULDBLOCK
  nonempty : ∀ chunk, ReadResult.returned chunk ∈ exec → chunk.data ≠ []
  bytes : (delivered exec).flatten = frames.flatMap Frame.encode

theorem delivered_withSilentInfo (exec : List ReadResult) :
    delivered (withSilentInfo exec) = delivered exec := by
  induction exec with
  | nil => rfl
  | cons result exec ih =>
    cases result with
    | returned chunk => simp [withSilentInfo, delivered, ih]
    | failed errno => simp [withSilentInfo, delivered, ih]

theorem dispatch_orderStatus (msg : Message UInt8) {data : List UInt8}
    (htype : data.getD 2 msg.type = ORDER_STATUS_UPDATE_TYPE) (hlen : 19 ≤ data.length) :
    dispatch (msg.received data) = .called (.onOrderStatusUpdate
      (wrapInt (ntohl ((data.drop 3).take 4))) (wrapInt (ntohl ((data.drop 7).take 4)))
      (wrapInt (ntohl ((data.drop 11).take 4))) (wrapInt (ntohl ((data.drop 15).take 4)))) := by
  have hfield : ∀ offset, 2 ≤ offset → offset + 4 ≤ 19 →
      (msg.received data).field offset 4 = (data.drop offset).take 4 := by
    intro offset h2 h19
    exact received_field msg h2 (by unfold MESSAGE_SIZE; omega) (by omega)
  have hshown : (msg.received data).type = ORDER_STATUS_UPDATE_TYPE := by
    rw [received_type, htype]
  unfold dispatch
  rw [hshown, if_neg (by decide), if_pos rfl]
  simp only [handleOrderStatusUpdate, hfield 3 (by omega) (by omega),
    hfield 7 (by omega) (by omega), hfield 11 (by omega) (by omega), hfield 15 (by omega) (by omega)]

theorem dispatch_position (msg : Message UInt8) {data : List UInt8}
    (htype : data.getD 2 msg.type = POSITION_UPDATE_TYPE) (hlen : 11 ≤ data.length) :
    dispatch (msg.received data) = .called (.onPositionUpdate
      (wrapInt (ntohl ((data.drop 3).take 4))) (wrapInt (ntohl ((data.drop 7).take 4)))) := by
  have hfield : ∀ offset, 2 ≤ offset → offset + 4 ≤ 11 →
      (msg.received data).field offset 4 = (data.drop offset).take 4 := by
    intro offset h2 h11
    exact received_field msg h2 (by unfold MESSAGE_SIZE; omega) (by omega)
  have hshown : (msg.received data).type = POSITION_UPDATE_TYPE := by
    rw [received_type, htype]
  unfold dispatch
  rw [hshown, if_neg (by decide), if_neg (by decide), if_pos rfl]
  simp only [handlePositionUpdate, hfield 3 (by omega) (by omega), hfield 7 (by omega) (by omega)]

theorem dispatch_orderBook (msg : Message UInt8) {data : List UInt8}
    (htype : data.getD 2 msg.type = ORDER_BOOK_UPDATE_MESSAGE_TYPE) :
    dispatch (msg.received data) = .called (handleOrderBookUpdate (msg.received data)) := by
  have hshown : (msg.received data).type = ORDER_BOOK_UPDATE_MESSAGE_TYPE := by
    rw [received_type, htype]
  unfold dispatch
  rw [hshown, if_pos rfl]

theorem Starts.split {data : List UInt8} {frame : Frame} (h : Starts data frame) :
    ∃ rest, data.drop 3 = frame.body ++ rest ∧ data[2]? = some frame.type ∧
      frame.body.length + 3 ≤ data.length := by
  obtain ⟨rest, hrest⟩ := h
  have hlen := congrArg List.length hrest
  simp only [List.cons_append, List.length_cons, List.length_append, List.length_drop] at hlen
  refine ⟨rest, ?_, ?_, by omega⟩
  · have htail := congrArg List.tail hrest
    simpa [List.tail_drop] using htail.symm
  · have hhead := congrArg List.head? hrest
    simpa [List.head?_drop] using hhead.symm

theorem dispatch_of_starts (msg : Message UInt8) {data : List UInt8} {frame : Frame}
    {callback : Callback} (h : Starts data frame) (hcb : frame.callback? = some callback) :
    dispatch (msg.received data) = .called callback := by
  obtain ⟨rest, hdrop, htype, hlen⟩ := h.split
  have hshown : data.getD 2 msg.type = frame.type := by simp [List.getD_eq_getElem?_getD, htype]
  have hlater : ∀ k, data.drop (3 + k) = (frame.body ++ rest).drop k := by
    intro k
    rw [← hdrop, List.drop_drop]
  cases frame with
  | orderStatus id fill_volume remaining_volume fees =>
    simp only [Frame.body] at hdrop hlen hlater
    have h7 := hlater 4
    have h11 := hlater 8
    have h15 := hlater 12
    simp only [Nat.reduceAdd] at h7 h11 h15
    rw [dispatch_orderStatus msg hshown (by simpa using hlen), hdrop, h7, h11, h15]
    cases hcb
    simp [wrapInt_ntohl_htonl, id.2, fill_volume.2, remaining_volume.2, fees.2,
      List.drop_append, htonl_drop]
  | position future_position etf_position =>
    simp only [Frame.body] at hdrop hlen hlater
    have h7 := hlater 4
    simp only [Nat.reduceAdd] at h7
    rw [dispatch_position msg hshown (by simpa using hlen), hdrop, h7]
    cases hcb
    simp [wrapInt_ntohl_htonl, future_position.2, etf_position.2]
  | other => cases hcb

theorem starts_of_dispatch (msg : Message UInt8) {data : List UInt8} {frame : Frame}
    {callback : Callback} (hcb : frame.callback? = some callback)
    (hwhole : ∀ n, packedLength (data.getD 2 msg.type) = some n → n ≤ data.length)
    (h : dispatch (msg.received data) = .called callback) : Starts data frame := by
  have hloud := (dispatch_called_iff _).mp ⟨callback, h⟩
  rw [received_type] at hloud
  have hword : ∀ offset, offset + 4 ≤ data.length →
      htonl (wrapInt (ntohl ((data.drop offset).take 4))) = (data.drop offset).take 4 := by
    intro offset hoffset
    apply htonl_wrapInt_ntohl
    simp only [List.length_take, List.length_drop]
    omega
  have hhead : ∀ k, 3 + k ≤ data.length →
      data.getD 2 msg.type :: (data.drop 3).take k <+: data.drop 2 := by
    intro k hk
    have h2 : 2 < data.length := by omega
    rw [List.drop_eq_getElem_cons h2, List.getD_eq_getElem?_getD, List.getElem?_eq_getElem h2,
      Option.getD_some]
    exact (List.prefix_cons_inj _).mpr (List.take_prefix k _)
  have hjoin : ∀ k m, (data.drop 3).take (k + m) =
      (data.drop 3).take k ++ (data.drop (3 + k)).take m := by
    intro k m
    rw [List.take_add, List.drop_drop]
  unfold packedLength at hloud hwhole
  split_ifs at hloud hwhole with hbook hstatus hposition
  · rw [dispatch_orderBook msg hbook] at h
    cases frame <;> cases hcb <;> cases h
  · have hlen := hwhole 19 rfl
    rw [dispatch_orderStatus msg hstatus hlen] at h
    cases frame with
    | orderStatus id fill_volume remaining_volume fees =>
      cases hcb
      simp only [Pass.called.injEq, Callback.onOrderStatusUpdate.injEq] at h
      obtain ⟨hid, hfill, hremaining, hfees⟩ := h
      have hbody := hhead 16 (by omega)
      rw [hjoin 12 4, hjoin 8 4, hjoin 4 4, hstatus] at hbody
      simpa only [Starts, Frame.type, Frame.body, ← hid, ← hfill, ← hremaining, ← hfees,
        hword 3 (by omega), hword 7 (by omega), hword 11 (by omega), hword 15 (by omega)] using hbody
    | position => cases hcb; cases h
    | other => cases hcb
  · have hlen := hwhole 11 rfl
    rw [dispatch_position msg hposition hlen] at h
    cases frame with
    | orderStatus => cases hcb; cases h
    | position future_position etf_position =>
      cases hcb
      simp only [Pass.called.injEq, Callback.onPositionUpdate.injEq] at h
      obtain ⟨hfuture, hetf⟩ := h
      have hbody := hhead 8 (by omega)
      rw [hjoin 4 4, hposition] at hbody
      simpa only [Starts, Frame.type, Frame.body, ← hfuture, ← hetf,
        hword 3 (by omega), hword 7 (by omega)] using hbody
    | other => cases hcb
  · simp at hloud

/-- The callbacks of a run are those of its loud reads, one each and in order. -/
theorem callbacks_of_loudReads (msg : Message UInt8) (datas : List (List UInt8)) :
    List.Forall₂ (fun read callback => ∃ before : Message UInt8,
        read.1 = read.2.getD 2 before.type ∧ dispatch (before.received read.2) = .called callback)
      (loudReads msg.type datas)
      (((buffers msg datas).map dispatch).filterMap Pass.callback?) := by
  induction datas generalizing msg with
  | nil => exact List.Forall₂.nil
  | cons data rest ih =>
    have hrest := ih (msg.received data)
    rw [received_type] at hrest
    simp only [buffers, List.map_cons, loudReads]
    cases hpass : dispatch (msg.received data) with
    | called callback =>
      have hloud := (dispatch_called_iff _).mp ⟨callback, hpass⟩
      rw [received_type] at hloud
      rw [if_pos hloud]
      exact List.Forall₂.cons ⟨msg, rfl, hpass⟩ hrest
    | unknownType type =>
      have hquiet : ¬(packedLength (data.getD 2 msg.type)).isSome := by
        intro hloud
        rw [← received_type] at hloud
        obtain ⟨callback, hcalled⟩ := (dispatch_called_iff _).mpr hloud
        rw [hpass] at hcalled
        cases hcalled
      rw [if_neg hquiet]
      exact hrest

theorem callbacks_of_frames (frames : List Frame) :
    List.Forall₂ (fun frame callback => frame.callback? = some callback)
      (frames.filter fun frame => frame.callback?.isSome) (frames.filterMap Frame.callback?) := by
  induction frames with
  | nil => exact List.Forall₂.nil
  | cons frame frames ih =>
    cases hcb : frame.callback? with
    | none => simpa [hcb] using ih
    | some callback => simp [hcb, ih]

theorem forall₂_meet {α β γ : Type} {R : α → β → Prop} {S : α → γ → Prop} {as : List α}
    {bs : List β} {cs : List γ} (hb : List.Forall₂ R as bs) (hc : List.Forall₂ S as cs) :
    List.Forall₂ (fun b c => ∃ a, R a b ∧ S a c) bs cs := by
  induction hb generalizing cs with
  | nil => cases hc; exact List.Forall₂.nil
  | cons hab _ ih =>
    cases hc with
    | cons hac hrest => exact List.Forall₂.cons ⟨_, hab, hac⟩ (ih hrest)

theorem mem_loudReads_type {type : UInt8} {datas : List (List UInt8)} {read : UInt8 × List UInt8}
    (h : read ∈ loudReads type datas) (h3 : 3 ≤ read.2.length) : read.2[2]? = some read.1 := by
  induction datas generalizing type with
  | nil => cases h
  | cons data rest ih =>
    simp only [loudReads] at h
    split at h
    next =>
      rcases List.mem_cons.mp h with heq | hrest
      · subst heq
        simp only at h3
        simp [List.getElem?_eq_getElem (show 2 < data.length by omega)]
      · exact ih hrest
    next => exact ih h

theorem Frame.packedLength_type (frame : Frame) {n : Nat}
    (h : packedLength frame.type = some n) : n = frame.body.length + 3 := by
  cases frame with
  | orderStatus =>
    have hn : 19 = n := Option.some.inj h
    simp [Frame.body, ← hn]
  | position =>
    have hn : 11 = n := Option.some.inj h
    simp [Frame.body, ← hn]
  | other type body unknown =>
    simp only [Frame.type] at h
    rw [unknown] at h
    cases h

theorem Synced.wholeReads {frames : List Frame} {datas : List (List UInt8)}
    (h : Synced frames datas) : WholeReads datas := by
  intro read hmem n hn
  have hstarts := (List.forall₂_and_left (p := fun read : UInt8 × List UInt8 =>
    ∃ frame, Starts read.2 frame) _ _).mp
      (h.imp fun _ frame hframe => ⟨⟨frame, hframe⟩, hframe⟩)
  obtain ⟨frame, hframe⟩ := hstarts.1 read hmem
  obtain ⟨rest, _, htype, hlen⟩ := hframe.split
  have hshown := mem_loudReads_type hmem (by omega)
  rw [htype, Option.some.injEq] at hshown
  have hbody := frame.packedLength_type (by rw [hshown]; exact hn)
  omega

theorem Synced.callbacks {frames : List Frame} {datas : List (List UInt8)}
    (h : Synced frames datas) :
    ((buffers Message.zero datas).map dispatch).filterMap Pass.callback? =
      frames.filterMap Frame.callback? := by
  have hreads := callbacks_of_loudReads Message.zero datas
  have hmade := forall₂_meet (forall₂_meet h hreads) (callbacks_of_frames frames)
  rw [← List.forall₂_eq_eq_eq]
  apply hmade.imp
  rintro made asked ⟨frame, ⟨read, hstarts, before, _, hpass⟩, hasked⟩
  have hcalled := dispatch_of_starts before hstarts hasked
  exact Pass.called.inj (hpass.symm.trans hcalled)

theorem synced_of_callbacks {frames : List Frame} {datas : List (List UInt8)}
    (hwhole : WholeReads datas)
    (h : ((buffers Message.zero datas).map dispatch).filterMap Pass.callback? =
      frames.filterMap Frame.callback?) : Synced frames datas := by
  have hreads := (List.forall₂_and_left _ _).mpr
    ⟨hwhole, callbacks_of_loudReads Message.zero datas⟩
  have hframes := callbacks_of_frames frames
  rw [h] at hreads
  have hmeet := forall₂_meet (List.Forall₂.flip hreads) (List.Forall₂.flip hframes)
  apply hmeet.imp
  rintro read frame ⟨callback, ⟨hlong, before, htype, hpass⟩, hasked⟩
  exact starts_of_dispatch before hasked (by rw [← htype]; exact hlong) hpass

theorem synced_of_frame_reads (frames : List Frame) : Synced frames (frames.map Frame.encode) := by
  suffices h : ∀ type, List.Forall₂ (fun read frame => Starts read.2 frame)
      (loudReads type (frames.map Frame.encode))
      (frames.filter fun frame => frame.callback?.isSome) from h 0
  induction frames with
  | nil => exact fun _ => List.Forall₂.nil
  | cons frame frames ih =>
    intro type
    have hshown : frame.encode.getD 2 type = frame.type := by simp [Frame.encode, networkBytes]
    have hstarts : Starts frame.encode frame := ⟨[], by rw [List.append_nil, Frame.encode_drop]⟩
    simp only [List.map_cons, loudReads, hshown]
    cases frame with
    | orderStatus => exact List.Forall₂.cons hstarts (ih _)
    | position => exact List.Forall₂.cons hstarts (ih _)
    | other type body unknown =>
      simp only [Frame.type, unknown, Option.isSome_none, Bool.false_eq_true, if_false]
      exact ih _

theorem runLoop_callbacks (reads : List ReadResult) : (runLoop reads).callbacks =
    ((buffers Message.zero (delivered reads)).map dispatch).filterMap Pass.callback? := by
  rw [LoopRun.callbacks, runLoop_passes]

/-- The callbacks of `runLoop` are the stream's, and none is decoded from bytes left
over from an earlier read, exactly when the reads that show a known type are reads
that start with the stream's order-status and position frames, in order. -/
theorem runLoop_callbacks_iff_synced (frames : List Frame) (exec : List ReadResult) :
    Synced frames (delivered exec) ↔
      (runLoop (withSilentInfo exec)).callbacks = frames.filterMap Frame.callback? ∧
        WholeReads (delivered exec) := by
  rw [runLoop_callbacks, delivered_withSilentInfo]
  constructor
  · intro h
    exact ⟨h.callbacks, h.wholeReads⟩
  · rintro ⟨hcallbacks, hwhole⟩
    exact synced_of_callbacks hwhole hcallbacks

theorem runLoop_loses_second_frame : ¬∀ (frames : List Frame) (exec : List ReadResult),
    DeliversFrames frames exec →
      (runLoop (withSilentInfo exec)).callbacks = frames.filterMap Frame.callback? := by
  intro h
  let first : Frame := .position ⟨0, by decide⟩ ⟨-10, by decide⟩
  let second : Frame := .position ⟨0, by decide⟩ ⟨-20, by decide⟩
  let both : Chunk := ⟨first.encode ++ second.encode, by decide⟩
  have hdelivers : DeliversFrames [first, second] [.returned both] := by
    refine ⟨by simp, ?_, by decide⟩
    intro chunk hchunk
    simp only [List.mem_singleton, ReadResult.returned.injEq] at hchunk
    subst hchunk
    decide
  have hcallbacks := h _ _ hdelivers
  rw [runLoop_callbacks, delivered_withSilentInfo] at hcallbacks
  have hlength := congrArg List.length hcallbacks
  revert hlength
  decide

end RtoAutotrader
