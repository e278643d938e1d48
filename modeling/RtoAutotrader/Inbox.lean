import RtoAutotrader.LoopRuns

namespace RtoAutotrader

/-- What has come in at a socket by the time of each call of a run. -/
structure Inbox (α : Type) where
  arrived : Nat → List α
  grows : ∀ n, arrived n <+: arrived (n + 1)

def Inbox.map {α β : Type} (f : α → β) (inbox : Inbox α) : Inbox β where
  arrived n := (inbox.arrived n).map f
  grows n := (inbox.grows n).map f

def ReadResult.chunk? : ReadResult → Option Chunk
  | .returned chunk => some chunk
  | .failed _ => none

/-- What the reads of a socket have returned so far. -/
def taken {α : Type} (unpack : Chunk → List α) (sock : Int) (log : List SystemEvent) : List α :=
  ((log.filterMap (readOn? sock)).filterMap ReadResult.chunk?).flatMap unpack

namespace Inbox

variable {α : Type} {inbox : Inbox α} {closing : Option Nat} {unpack : Chunk → List α}
  {sock : Int} {log : List SystemEvent}

/-- The peer has closed the socket by the time of a call. -/
def ClosedBy (closing : Option Nat) (n : Nat) : Prop := ∃ T, closing = some T ∧ T ≤ n

/-- A `read` returns some of what has come in and was not read yet. When that is nothing it would
block, or returns 0 from when the socket is closed. It may fail at any time. -/
def Answers (inbox : Inbox α) (closing : Option Nat) (unpack : Chunk → List α) (sock : Int)
    (log : List SystemEvent) : ReadResult → Prop
  | .returned chunk => taken unpack sock log ++ unpack chunk <+: inbox.arrived log.length ∧
      (unpack chunk = [] → inbox.arrived log.length = taken unpack sock log ∧
        ClosedBy closing log.length)
  | .failed errno => errno = EWOULDBLOCK →
      inbox.arrived log.length = taken unpack sock log ∧ ¬ClosedBy closing log.length

/-- All reads of a socket are answered from an inbox. -/
def Serves (inbox : Inbox α) (closing : Option Nat) (unpack : Chunk → List α) (sock : Int)
    (events : List SystemEvent) : Prop :=
  ∀ earlier result later, events = earlier ++ ⟨.read sock, result⟩ :: later →
    inbox.Answers closing unpack sock earlier result

theorem Serves.earlier {more : List SystemEvent}
    (h : inbox.Serves closing unpack sock (log ++ more)) : inbox.Serves closing unpack sock log := by
  intro earlier result later hsplit
  apply h earlier result (later ++ more)
  rw [hsplit, List.append_assoc]
  rfl

end Inbox

variable {α : Type} {unpack : Chunk → List α} {sock : Int}

theorem taken_append (log more : List SystemEvent) :
    taken unpack sock (log ++ more) = taken unpack sock log ++ taken unpack sock more := by
  simp [taken]

theorem taken_returned (chunk : Chunk) :
    taken unpack sock [⟨.read sock, ReadResult.returned chunk⟩] = unpack chunk := by
  simp [taken, readOn?, ReadResult.chunk?]

theorem taken_failed (other : Int) (errno : Nat) :
    taken unpack sock [⟨.read other, ReadResult.failed errno⟩] = [] := by
  by_cases h : other = sock <;> simp [taken, readOn?, ReadResult.chunk?, h]

theorem taken_length_mono (unpack : Chunk → List α) (sock : Int) (log more : List SystemEvent) :
    (taken unpack sock log).length ≤ (taken unpack sock (log ++ more)).length := by
  rw [taken_append, List.length_append]
  exact Nat.le_add_right _ _

/-- Reads take what comes in from its start, in order and without gaps. -/
theorem Inbox.Serves.taken_prefix {inbox : Inbox α} {closing : Option Nat} {log : List SystemEvent}
    (h : inbox.Serves closing unpack sock log) : taken unpack sock log <+: inbox.arrived log.length := by
  induction log using List.reverseRecOn with
  | nil => exact List.nil_prefix
  | append_singleton log event ih =>
    have hgrows := inbox.grows log.length
    have hkept : taken unpack sock [event] = [] →
        taken unpack sock (log ++ [event]) <+: inbox.arrived (log ++ [event]).length := by
      intro hnone
      rw [taken_append, hnone, List.append_nil, List.length_append]
      exact (ih h.earlier).trans hgrows
    cases hread : readOn? sock event with
    | none =>
      apply hkept
      simp [taken, hread]
    | some result =>
      obtain rfl := readOn?_event hread
      cases result with
      | failed errno => exact hkept (taken_failed sock errno)
      | returned chunk =>
        have hanswer := h log _ [] rfl
        rw [taken_append, taken_returned, List.length_append]
        exact hanswer.1.trans hgrows

namespace Inbox

variable {inbox : Inbox α} {closing : Option Nat} {log : List SystemEvent}

/-- It is enough to look at reads before which the socket was served in order. -/
theorem serves_of_prefix {events : List SystemEvent}
    (h : ∀ earlier result later, events = earlier ++ ⟨.read sock, result⟩ :: later →
      taken unpack sock earlier <+: inbox.arrived earlier.length →
      inbox.Answers closing unpack sock earlier result) : inbox.Serves closing unpack sock events := by
  induction events using List.reverseRecOn with
  | nil =>
    intro earlier result later hsplit
    simp at hsplit
  | append_singleton events event ih =>
    have hbefore : inbox.Serves closing unpack sock events := by
      apply ih
      intro earlier result later hsplit
      apply h earlier result (later ++ [event])
      rw [hsplit, List.append_assoc]
      rfl
    intro earlier result later hsplit
    rcases List.eq_nil_or_concat later with rfl | ⟨later, last, rfl⟩
    · obtain ⟨rfl, hevent⟩ := List.append_inj' hsplit rfl
      cases hevent
      exact h events result [] rfl hbefore.taken_prefix
    · have hearlier : events ++ [event] = (earlier ++ ⟨.read sock, result⟩ :: later) ++ [last] := by
        simpa using hsplit
      exact hbefore earlier result later (List.append_inj' hearlier rfl).1

def unread (inbox : Inbox α) (unpack : Chunk → List α) (sock : Int) (log : List SystemEvent) :
    List α := (inbox.arrived log.length).drop (taken unpack sock log).length

theorem taken_unread_eq (h : taken unpack sock log <+: inbox.arrived log.length) :
    taken unpack sock log ++ inbox.unread unpack sock log = inbox.arrived log.length := by
  obtain ⟨rest, hrest⟩ := h
  rw [unread, ← hrest, List.drop_left]

end Inbox

instance (closing : Option Nat) (n : Nat) : Decidable (Inbox.ClosedBy closing n) :=
  match closing with
  | some T => decidable_of_iff (T ≤ n) ⟨fun h => ⟨T, rfl, h⟩, fun ⟨_, heq, h⟩ => Option.some.inj heq ▸ h⟩
  | none => isFalse fun ⟨_, heq, _⟩ => by cases heq

/-- A `read` of a stream returns as much as the buffer holds. -/
def streamReply (closed : Bool) : List UInt8 → ReadResult
  | [] => if closed then .returned ⟨[], Nat.zero_le _⟩ else .failed EWOULDBLOCK
  | byte :: bytes => .returned ⟨(byte :: bytes).take MESSAGE_SIZE, List.length_take_le _ _⟩

/-- What a `read` returns of a datagram. The rest of it is lost. -/
def Chunk.first (data : List UInt8) : Chunk := ⟨data.take MESSAGE_SIZE, List.length_take_le _ _⟩

def datagramReply : List Chunk → ReadResult
  | [] => .failed EWOULDBLOCK
  | chunk :: _ => .returned chunk

/-- A datagram is read at once. -/
def Chunk.whole (chunk : Chunk) : List Chunk := [chunk]

theorem Inbox.streamReply_answers {inbox : Inbox UInt8} {closing : Option Nat}
    {log : List SystemEvent} (h : taken Chunk.data sock log <+: inbox.arrived log.length) :
    inbox.Answers closing Chunk.data sock log (streamReply (ClosedBy closing log.length)
      (inbox.unread Chunk.data sock log)) := by
  have hall := taken_unread_eq h
  cases hunread : inbox.unread Chunk.data sock log with
  | nil =>
    rw [hunread, List.append_nil] at hall
    by_cases hclosed : ClosedBy closing log.length
    · simp only [streamReply, hclosed, decide_true, if_true]
      exact ⟨by simp only [List.append_nil, hall, List.prefix_rfl], fun _ => ⟨hall.symm, hclosed⟩⟩
    · simp only [streamReply, hclosed, decide_false, Bool.false_eq_true, if_false]
      exact fun _ => ⟨hall.symm, hclosed⟩
  | cons byte bytes =>
    refine ⟨?_, fun hnone => by simp [MESSAGE_SIZE] at hnone⟩
    rw [← hall, hunread]
    exact (List.prefix_append_right_inj _).mpr (List.take_prefix _ _)

theorem Inbox.datagramReply_answers {inbox : Inbox Chunk} {log : List SystemEvent}
    (h : taken Chunk.whole sock log <+: inbox.arrived log.length) :
    inbox.Answers none Chunk.whole sock log (datagramReply (inbox.unread Chunk.whole sock log)) := by
  have hall := taken_unread_eq h
  cases hunread : inbox.unread Chunk.whole sock log with
  | nil =>
    rw [hunread, List.append_nil] at hall
    refine fun _ => ⟨hall.symm, ?_⟩
    rintro ⟨_, hnever, _⟩
    cases hnever
  | cons chunk chunks =>
    refine ⟨?_, fun hnone => absurd hnone (List.cons_ne_nil _ _)⟩
    rw [← hall, hunread]
    exact (List.prefix_append_right_inj _).mpr ⟨chunks, rfl⟩

end RtoAutotrader
