import RtoAutotrader.LoopPasses

namespace RtoAutotrader

/-- Where a byte of the buffer came from: the read that delivered it and its place
in what that read delivered. -/
abbrev Origin := Nat × Nat

/-- The deliveries with each byte replaced by its origin. -/
def originsOf (datas : List (List UInt8)) : List (List (Option Origin)) :=
  datas.mapIdx fun read data => (List.range data.length).map fun offset => some (read, offset)

/-- The byte an origin stands for. A byte without origin is a zero of `Message{}`. -/
def byteAt (datas : List (List UInt8)) : Option Origin → UInt8
  | none => 0
  | some (read, offset) => (datas.getD read []).getD offset 0

/-- The origins of the buffer's bytes after `n` deliveries, moved by the same writes
as the bytes themselves. -/
def originsAfter (datas : List (List UInt8)) (n : Nat) : Message (Option Origin) :=
  (Message.filled none).after (originsOf datas) n

theorem originsOf_getElem? {datas : List (List UInt8)} {n : Nat} {data : List UInt8}
    (hd : datas[n]? = some data) :
    (originsOf datas)[n]? = some ((List.range data.length).map fun offset => some (n, offset)) := by
  simp [originsOf, List.getElem?_mapIdx, hd]

theorem map_after {α β : Type} (f : α → β) (msg : Message α) (datas : List (List α)) (n : Nat) :
    (msg.after datas n).map f = (msg.map f).after (datas.map (List.map f)) n := by
  simp only [Message.after, ← List.map_take]
  generalize datas.take n = firsts
  induction firsts generalizing msg with
  | nil => rfl
  | cons data rest ih => simp only [List.foldl_cons, List.map_cons, ih, map_received]

theorem originsOf_bytes (datas : List (List UInt8)) :
    (originsOf datas).map (List.map (byteAt datas)) = datas := by
  apply List.ext_getElem?
  intro n
  cases hd : datas[n]? with
  | none =>
    have hlen := List.getElem?_eq_none_iff.mp hd
    simpa [originsOf] using hlen
  | some data =>
    rw [List.getElem?_map, originsOf_getElem? hd, Option.map_some, List.map_map, Option.some.injEq]
    apply List.ext_getElem
    · simp
    · intro offset h₁ h₂
      simp [byteAt, List.getD_eq_getElem?_getD, hd, h₂]

theorem after_eq_origins (datas : List (List UInt8)) (n : Nat) :
    Message.zero.after datas n = (originsAfter datas n).map (byteAt datas) := by
  rw [originsAfter, map_after, Message.map_filled, originsOf_bytes]
  rfl

def lengthAt (datas : List (List UInt8)) (read : Nat) : Nat := (datas.getD read []).length

theorem lengthAt_eq {datas : List (List UInt8)} {n : Nat} {data : List UInt8}
    (hd : datas[n]? = some data) : lengthAt datas n = data.length := by
  simp [lengthAt, List.getD_eq_getElem?_getD, hd]

/-- No delivery after the origin's, among the first `n`, was longer than `short`. -/
def LastLonger (datas : List (List UInt8)) (n short : Nat) : Option Origin → Prop
  | none => ∀ k, k < n → lengthAt datas k ≤ short
  | some (read, _) => read < n ∧ ∀ k, read < k → k < n → lengthAt datas k ≤ short

theorem LastLonger.fresh {datas : List (List UInt8)} {n short offset : Nat} :
    LastLonger datas (n + 1) short (some (n, offset)) :=
  ⟨by omega, fun _ _ _ => by omega⟩

theorem LastLonger.keep {datas : List (List UInt8)} {n short : Nat} {origin : Option Origin}
    (h : LastLonger datas n short origin) (hlen : lengthAt datas n ≤ short) :
    LastLonger datas (n + 1) short origin := by
  have hnew : ∀ k, k < n + 1 → ¬k < n → lengthAt datas k ≤ short := by
    intro k hk hkn
    obtain rfl : k = n := by omega
    exact hlen
  cases origin with
  | none =>
    intro k hk
    by_cases hkn : k < n
    · exact h k hkn
    · exact hnew k hk hkn
  | some origin =>
    refine ⟨by have := h.1; omega, ?_⟩
    intro k hread hk
    by_cases hkn : k < n
    · exact h.2 k hread hkn
    · exact hnew k hk hkn

theorem originsAfter_zero (datas : List (List UInt8)) {position : Nat}
    (hp : position < MESSAGE_SIZE) : (originsAfter datas 0).bytes[position]? = some none := by
  simp [originsAfter, Message.after, Message.filled, hp]

/-- Past the bytes of `size`, the origin of a position is the last delivery that was
long enough to write it. -/
theorem originsAfter_last {datas : List (List UInt8)} {n position : Nat} (hn : n ≤ datas.length)
    (h2 : 2 ≤ position) (hp : position < MESSAGE_SIZE) :
    ∃ origin, (originsAfter datas n).bytes[position]? = some origin ∧
      LastLonger datas n position origin ∧ ∀ read offset, origin = some (read, offset) →
        offset = position ∧ position < lengthAt datas read := by
  induction n with
  | zero => exact ⟨none, originsAfter_zero datas hp, fun k hk => absurd hk (by omega), by simp⟩
  | succ n ih =>
    obtain ⟨origin, horigin, hlast, hplace⟩ := ih (by omega)
    have hd : datas[n]? = some datas[n] := List.getElem?_eq_getElem (by omega)
    have hlen := lengthAt_eq hd
    rw [originsAfter, after_succ _ (originsOf_getElem? hd), received_getElem? _ _ h2 hp]
    by_cases hwritten : position < datas[n].length
    · refine ⟨some (n, position), by simp [hwritten], LastLonger.fresh, ?_⟩
      intro read offset heq
      cases heq
      exact ⟨rfl, by omega⟩
    · exact ⟨origin, by simpa [hwritten, originsAfter] using horigin, hlast.keep (by omega), hplace⟩

theorem received_front {α : Type} (msg : Message α) (data : List α) {position : Nat}
    (hp : position < 2) : (msg.received data).bytes[position]? =
      if 1 - position < data.length then data[1 - position]? else msg.bytes[1 - position]? := by
  have hlen : 1 - position < msg.bytes.length := by
    rw [msg.size_eq]
    unfold MESSAGE_SIZE
    omega
  have hswap : ∀ xs : List α, 2 ≤ xs.length → (swapFront xs)[position]? = xs[1 - position]? := by
    intro xs hxs
    obtain rfl | rfl : position = 0 ∨ position = 1 := by omega
    · rcases xs with _ | ⟨a, _ | ⟨b, rest⟩⟩ <;> simp_all [swapFront]
    · rcases xs with _ | ⟨a, _ | ⟨b, rest⟩⟩ <;> simp_all [swapFront]
  have hwrite := overwrite_getElem? 0 data msg.bytes (1 - position) hlen
  simp only [Nat.zero_le, Nat.zero_add, true_and, Nat.sub_zero] at hwrite
  rw [← hwrite]
  apply hswap
  rw [(msg.write 0 data).size_eq]
  decide

/-- The two bytes of `size` trade places at every delivery, but neither is older than
the last delivery that wrote both. -/
theorem originsAfter_front {datas : List (List UInt8)} {n position : Nat} (hn : n ≤ datas.length)
    (hp : position < 2) :
    ∃ origin, (originsAfter datas n).bytes[position]? = some origin ∧
      LastLonger datas n 1 origin ∧ ∀ read offset, origin = some (read, offset) → offset < 2 := by
  induction n generalizing position with
  | zero =>
    have hsize : position < MESSAGE_SIZE := by unfold MESSAGE_SIZE; omega
    exact ⟨none, originsAfter_zero datas hsize, fun k hk => absurd hk (by omega), by simp⟩
  | succ n ih =>
    obtain ⟨origin, horigin, hlast, hplace⟩ := ih (by omega) (show 1 - position < 2 by omega)
    have hd : datas[n]? = some datas[n] := List.getElem?_eq_getElem (by omega)
    have hlen := lengthAt_eq hd
    rw [originsAfter, after_succ _ (originsOf_getElem? hd), received_front _ _ hp]
    by_cases hwritten : 1 - position < datas[n].length
    · refine ⟨some (n, 1 - position), by simp [hwritten], LastLonger.fresh, ?_⟩
      intro read offset heq
      cases heq
      omega
    · exact ⟨origin, by simpa [hwritten, originsAfter] using horigin, hlast.keep (by omega), hplace⟩

theorem originsAfter_origin {datas : List (List UInt8)} {n position : Nat}
    (hn : n ≤ datas.length) (hp : position < MESSAGE_SIZE) :
    ∃ origin, (originsAfter datas n).bytes[position]? = some origin ∧
      LastLonger datas n (max 1 position) origin ∧ ∀ read offset, origin = some (read, offset) →
        (offset = position ∧ position < lengthAt datas read) ∨ (position < 2 ∧ offset < 2) := by
  by_cases h2 : 2 ≤ position
  · obtain ⟨origin, horigin, hlast, hplace⟩ := originsAfter_last hn h2 hp
    rw [show max 1 position = position by omega]
    exact ⟨origin, horigin, hlast, fun read offset heq => Or.inl (hplace read offset heq)⟩
  · obtain ⟨origin, horigin, hlast, hplace⟩ := originsAfter_front hn (show position < 2 by omega)
    rw [show max 1 position = 1 by omega]
    exact ⟨origin, horigin, hlast, fun read offset heq =>
      Or.inr ⟨by omega, hplace read offset heq⟩⟩

end RtoAutotrader
