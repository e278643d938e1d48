import RtoAutotrader.ReadOrigins

namespace RtoAutotrader

/-- The origins of the bytes a message of some packed length is decoded from, at the
pass after delivery `pass`. -/
def contributions (datas : List (List UInt8)) (pass length : Nat) : List (Option Origin) :=
  (originsAfter datas (pass + 1)).bytes.take length

def Callback.packedLength : Callback → Nat
  | .onOrderBookUpdate _ => 88
  | .onOrderStatusUpdate .. => 19
  | .onPositionUpdate .. => 11

/-- Every callback is decoded from bytes that one read delivered, over its whole packed
length, and no delivered byte counts for two callbacks. -/
structure Genuine (reads : List ReadResult) : Prop where
  decoded : ∀ pass callback, (runLoop reads).passes[pass]? = some (Pass.called callback) →
    ∀ msg : Message UInt8, msg.bytes.take callback.packedLength =
      (contributions (delivered reads) pass callback.packedLength).map (byteAt (delivered reads)) →
    dispatch msg = .called callback
  covered : ∀ pass callback, (runLoop reads).passes[pass]? = some (Pass.called callback) →
    ∃ read, ∀ origin ∈ contributions (delivered reads) pass callback.packedLength,
      ∃ offset, origin = some (read, offset)
  once : ∀ first second callback callback', first < second →
    (runLoop reads).passes[first]? = some (Pass.called callback) →
    (runLoop reads).passes[second]? = some (Pass.called callback') →
    ∀ origin : Origin,
      some origin ∈ contributions (delivered reads) first callback.packedLength →
      some origin ∉ contributions (delivered reads) second callback'.packedLength
  empty : ∀ (pass : Nat) (callback : Callback), (delivered reads)[pass]? = some [] →
    (runLoop reads).passes[pass]? ≠ some (Pass.called callback)

def shownAfter (datas : List (List UInt8)) : Nat → UInt8
  | 0 => 0
  | n + 1 => (datas.getD n []).getD 2 (shownAfter datas n)

def neededAt (datas : List (List UInt8)) (pass : Nat) : Option Nat :=
  packedLength (shownAfter datas (pass + 1))

/-- Whenever a delivery leaves a known type in the buffer, it was as long as that message. -/
def FullReads (datas : List (List UInt8)) : Prop :=
  ∀ pass, pass < datas.length → ∀ n, neededAt datas pass = some n → n ≤ lengthAt datas pass

theorem shownAfter_eq {datas : List (List UInt8)} {n : Nat} (hn : n ≤ datas.length) :
    (Message.zero.after datas n).type = shownAfter datas n := by
  induction n with
  | zero => rfl
  | succ n ih =>
    have hd : datas[n]? = some datas[n] := List.getElem?_eq_getElem (by omega)
    rw [after_succ _ hd, received_type, ih (by omega)]
    simp [shownAfter, List.getD_eq_getElem?_getD, hd]

theorem dispatch_packedLength {msg : Message UInt8} {callback : Callback}
    (h : dispatch msg = .called callback) :
    packedLength msg.type = some callback.packedLength := by
  unfold dispatch at h
  unfold packedLength
  split_ifs at h ⊢ <;> cases h <;> rfl

theorem dispatch_congr {msg msg' : Message UInt8} {callback : Callback}
    (h : dispatch msg = .called callback)
    (hbytes : msg'.bytes.take callback.packedLength = msg.bytes.take callback.packedLength) :
    dispatch msg' = .called callback := by
  have hlength := dispatch_packedLength h
  have hbounds := packedLength_bounds hlength
  have hfield : ∀ offset width, offset + width ≤ callback.packedLength →
      msg'.field offset width = msg.field offset width := by
    intro offset width hfits
    have hcut : ∀ m : Message UInt8, m.field offset width =
        ((m.bytes.take callback.packedLength).drop offset).take width := by
      intro m
      rw [List.drop_take, List.take_take, Message.field]
      congr 1
      omega
    rw [hcut, hcut, hbytes]
  have htype : msg'.type = msg.type := by
    have hat := congrArg (fun bytes => bytes[2]?) hbytes
    simp only [List.getElem?_take, show 2 < callback.packedLength by omega, if_true] at hat
    simp [Message.type, List.getD_eq_getElem?_getD, hat]
  rw [← h]
  unfold dispatch packedLength at *
  rw [htype]
  split_ifs at h hlength ⊢ with hbook hstatus hposition
  · have hfull : callback.packedLength = 88 := (Option.some.inj hlength).symm
    have hall : ∀ m : Message UInt8, m.bytes.take callback.packedLength = m.bytes := by
      intro m
      rw [hfull]
      exact List.take_of_length_le (by rw [m.size_eq]; decide)
    rw [hall, hall] at hbytes
    rw [Message.ext_bytes hbytes]
  · have hfull : callback.packedLength = 19 := (Option.some.inj hlength).symm
    simp only [handleOrderStatusUpdate, hfield 3 4 (by omega), hfield 7 4 (by omega),
      hfield 11 4 (by omega), hfield 15 4 (by omega)]
  · have hfull : callback.packedLength = 11 := (Option.some.inj hlength).symm
    simp only [handlePositionUpdate, hfield 3 4 (by omega), hfield 7 4 (by omega)]

theorem runLoop_pass {reads : List ReadResult} {pass : Nat} {done : Pass} :
    (runLoop reads).passes[pass]? = some done ↔ pass < (delivered reads).length ∧
      dispatch (Message.zero.after (delivered reads) (pass + 1)) = done := by
  rw [runLoop_passes, List.getElem?_map]
  by_cases h : pass < (delivered reads).length
  · rw [buffers_getElem? Message.zero h]
    simp [h]
  · rw [List.getElem?_eq_none (by simpa using h)]
    simp [h]

theorem called_neededAt {reads : List ReadResult} {pass : Nat} {callback : Callback}
    (h : (runLoop reads).passes[pass]? = some (Pass.called callback)) :
    pass < (delivered reads).length ∧
      neededAt (delivered reads) pass = some callback.packedLength := by
  obtain ⟨hpass, hcalled⟩ := runLoop_pass.mp h
  have hlength := dispatch_packedLength hcalled
  rw [shownAfter_eq hpass] at hlength
  exact ⟨hpass, hlength⟩

theorem neededAt_called {reads : List ReadResult} {pass n : Nat}
    (hpass : pass < (delivered reads).length) (h : neededAt (delivered reads) pass = some n) :
    ∃ callback, (runLoop reads).passes[pass]? = some (Pass.called callback) ∧
      callback.packedLength = n := by
  rw [neededAt, ← shownAfter_eq hpass] at h
  obtain ⟨callback, hcalled⟩ := (dispatch_called_iff _).mpr (by rw [h]; rfl)
  refine ⟨callback, runLoop_pass.mpr ⟨hpass, hcalled⟩, ?_⟩
  exact Option.some.inj ((dispatch_packedLength hcalled).symm.trans h)

theorem mem_contributions {datas : List (List UInt8)} {pass length : Nat}
    {origin : Option Origin} : origin ∈ contributions datas pass length ↔
      ∃ position, position < length ∧
        (originsAfter datas (pass + 1)).bytes[position]? = some origin := by
  simp only [contributions, List.mem_iff_getElem?, List.getElem?_take]
  constructor
  · rintro ⟨position, h⟩
    split at h
    next hp => exact ⟨position, hp, h⟩
    next => cases h
  · rintro ⟨position, hp, h⟩
    exact ⟨position, by rw [if_pos hp]; exact h⟩

/-- The type byte is that of the last delivery that has one. -/
theorem origin_of_written {datas : List (List UInt8)} {read : Nat} (hread : read < datas.length)
    (htyped : 2 < lengthAt datas read) :
    (originsAfter datas (read + 1)).bytes[2]? = some (some (read, 2)) := by
  obtain ⟨origin, hat, hlast, hplace⟩ :=
    originsAfter_last (show read + 1 ≤ _ from hread) (Nat.le_refl 2) (by decide)
  rw [hat]
  cases origin with
  | none =>
    have hshort := hlast read (Nat.lt_succ_self read)
    omega
  | some place =>
    obtain ⟨read', offset⟩ := place
    obtain ⟨rfl, _⟩ := hplace read' offset rfl
    have hsame : read' = read := by
      by_contra hne
      have hfirst := hlast.1
      have hshort := hlast.2 read (by omega) (by omega)
      omega
    rw [hsame]

/-- A message that a delivery covers is decoded from that delivery alone. -/
theorem origin_of_full {datas : List (List UInt8)} {pass length : Nat} {origin : Option Origin}
    (hpass : pass < datas.length) (h3 : 3 ≤ length) (hsize : length ≤ MESSAGE_SIZE)
    (hfull : length ≤ lengthAt datas pass) (horigin : origin ∈ contributions datas pass length) :
    ∃ offset, origin = some (pass, offset) := by
  obtain ⟨position, hp, hat⟩ := mem_contributions.mp horigin
  obtain ⟨origin', hat', hlast, _⟩ :=
    originsAfter_origin (show pass + 1 ≤ _ from hpass) (show position < MESSAGE_SIZE by omega)
  obtain rfl : origin' = origin := Option.some.inj (hat'.symm.trans hat)
  cases origin' with
  | none =>
    have hshort : lengthAt datas pass ≤ max 1 position := hlast pass (by omega)
    omega
  | some place =>
    obtain ⟨read, offset⟩ := place
    obtain ⟨hread, hlater⟩ := hlast
    have hsame : read = pass := by
      by_contra hne
      have hshort := hlater pass (by omega) (by omega)
      omega
    exact ⟨offset, by rw [hsame]⟩

theorem FullReads.genuine {reads : List ReadResult} (h : FullReads (delivered reads)) :
    Genuine reads := by
  have horigins : ∀ pass callback,
      (runLoop reads).passes[pass]? = some (Pass.called callback) →
      ∀ origin ∈ contributions (delivered reads) pass callback.packedLength,
        ∃ offset, origin = some (pass, offset) := by
    intro pass callback hcalled origin horigin
    obtain ⟨hpass, hneeded⟩ := called_neededAt hcalled
    have hbounds := packedLength_bounds hneeded
    exact origin_of_full hpass (by omega) (by omega) (h pass hpass _ hneeded) horigin
  refine ⟨?_, ?_, ?_, ?_⟩
  · intro pass callback hcalled msg hbytes
    have hdispatch := (runLoop_pass.mp hcalled).2
    apply dispatch_congr hdispatch
    rw [hbytes, after_eq_origins, contributions, List.map_take]
    rfl
  · intro pass callback hcalled
    exact ⟨pass, horigins pass callback hcalled⟩
  · intro first second callback callback' hlt hfirst hsecond origin hmem hmem'
    obtain ⟨_, heq⟩ := horigins first callback hfirst _ hmem
    obtain ⟨_, heq'⟩ := horigins second callback' hsecond _ hmem'
    have hsame := congrArg Prod.fst (Option.some.inj (heq.symm.trans heq'))
    simp only at hsame
    omega
  · intro pass callback hempty hcalled
    obtain ⟨hpass, hneeded⟩ := called_neededAt hcalled
    have hbounds := packedLength_bounds hneeded
    have hlong := h pass hpass _ hneeded
    rw [lengthAt_eq hempty, List.length_nil] at hlong
    omega

/-- Deliveries too short to reach the type byte leave the type that was shown before. -/
theorem shownAfter_kept {datas : List (List UInt8)} {read : Nat} (count : Nat)
    (hshort : ∀ k, read < k → k < read + count + 1 → lengthAt datas k ≤ 2) :
    shownAfter datas (read + count + 1) = shownAfter datas (read + 1) := by
  induction count with
  | zero => rfl
  | succ count ih =>
    have hlast : (datas.getD (read + count + 1) []).length ≤ 2 := hshort _ (by omega) (by omega)
    have hkept : shownAfter datas (read + count + 1 + 1) = shownAfter datas (read + count + 1) := by
      rw [shownAfter, List.getD_eq_getElem?_getD, List.getElem?_eq_none hlast]
      rfl
    exact hkept.trans (ih fun k hk hk' => hshort k hk (by omega))

theorem Genuine.fullReads {reads : List ReadResult} (h : Genuine reads) :
    FullReads (delivered reads) := by
  intro pass hpass n hneeded
  have hbounds := packedLength_bounds hneeded
  obtain ⟨callback, hcalled, rfl⟩ := neededAt_called hpass hneeded
  obtain ⟨read, hread⟩ := h.covered pass callback hcalled
  have horigin : ∀ position, 2 ≤ position → position < callback.packedLength →
      some (read, position) ∈ contributions (delivered reads) pass callback.packedLength ∧
        read < pass + 1 ∧ position < lengthAt (delivered reads) read ∧
        ∀ k, read < k → k < pass + 1 → lengthAt (delivered reads) k ≤ position := by
    intro position h2 hp
    obtain ⟨origin, hat, hlast, hplace⟩ :=
      originsAfter_last (show pass + 1 ≤ _ from hpass) h2 (by omega)
    have hmem := mem_contributions.mpr ⟨position, hp, hat⟩
    obtain ⟨offset, rfl⟩ := hread origin hmem
    obtain ⟨rfl, hlong⟩ := hplace read offset rfl
    exact ⟨hmem, hlast.1, hlong, hlast.2⟩
  obtain ⟨htype, hbefore, htyped, hshort⟩ := horigin 2 (Nat.le_refl 2) (by omega)
  obtain ⟨_, _, hlong, _⟩ := horigin (callback.packedLength - 1) (by omega) (by omega)
  by_cases hnow : read = pass
  · subst hnow
    omega
  · -- the read that delivered the type byte called for a message of that type when it came
    obtain ⟨count, rfl⟩ := Nat.exists_eq_add_of_le (Nat.le_of_lt_succ hbefore)
    have hearlier : neededAt (delivered reads) read = some callback.packedLength := by
      rw [neededAt, ← shownAfter_kept count hshort]
      exact hneeded
    obtain ⟨callback', hcalled', _⟩ := neededAt_called (by omega) hearlier
    have hbounds' := packedLength_bounds (called_neededAt hcalled').2
    have hfirst := mem_contributions.mpr ⟨2, show 2 < callback'.packedLength by omega,
      origin_of_written (show read < (delivered reads).length by omega) htyped⟩
    exact absurd htype (h.once read _ callback' callback (by omega) hcalled' hcalled _ hfirst)

/-- Callbacks are genuine in exactly the runs in which every read that leaves a known type in the
buffer delivers that message whole. -/
theorem genuine_iff_fullReads (reads : List ReadResult) :
    Genuine reads ↔ FullReads (delivered reads) :=
  ⟨Genuine.fullReads, FullReads.genuine⟩

/-- A read of no bytes after a position frame reports the position once more. -/
theorem empty_read_replays : ¬∀ reads : List ReadResult, Genuine reads := by
  intro h
  let update : Chunk := ⟨[0, 11, 8, 0, 0, 0, 0, 255, 255, 255, 246], by decide⟩
  let nothing : Chunk := ⟨[], by decide⟩
  have hempty := (h [.returned update, .returned nothing]).empty 1 (.onPositionUpdate 0 (-10)) rfl
  rw [runLoop_passes] at hempty
  exact hempty (by decide)

end RtoAutotrader
