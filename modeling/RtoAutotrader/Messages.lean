import RtoAutotrader.Overwrite
import RtoAutotrader.Types

namespace RtoAutotrader

def LOGIN_MESSAGE_SIZE : Nat := 73
def CANCEL_MESSAGE_SIZE : Nat := 7
def INSERT_MESSAGE_SIZE : Nat := 17

def CANCEL_MESSAGE_TYPE : UInt8 := 2
def INSERT_MESSAGE_TYPE : UInt8 := 4
def LOGIN_MESSAGE_TYPE : UInt8 := 5
def ORDER_BOOK_UPDATE_MESSAGE_TYPE : UInt8 := 6
def ORDER_STATUS_UPDATE_TYPE : UInt8 := 7
def POSITION_UPDATE_TYPE : UInt8 := 8

/-- `sizeof(messages::Message)`: two bytes of size, one of type and the union,
whose largest member is the 85 bytes of `OrderBookUpdate`. -/
def MESSAGE_SIZE : Nat := 88

/-- The memory of a packed `messages::Message`. The union members are read and
written through the offsets of their fields. -/
structure Message (α : Type) where
  bytes : List α
  size_eq : bytes.length = MESSAGE_SIZE

namespace Message

variable {α β : Type}

def filled (x : α) : Message α := ⟨List.replicate MESSAGE_SIZE x, by simp⟩

def write (msg : Message α) (offset : Nat) (data : List α) : Message α :=
  ⟨overwrite offset data msg.bytes, by rw [overwrite_length, msg.size_eq]⟩

def field (msg : Message α) (offset width : Nat) : List α :=
  (msg.bytes.drop offset).take width

def map (f : α → β) (msg : Message α) : Message β :=
  ⟨msg.bytes.map f, by rw [List.length_map, msg.size_eq]⟩

theorem ext_bytes {a b : Message α} (h : a.bytes = b.bytes) : a = b := by
  cases a
  cases b
  cases h
  rfl

theorem map_filled (f : α → β) (x : α) : (filled x).map f = filled (f x) :=
  ext_bytes (by simp [filled, map])

end Message

/-- `messages::Message{}`. -/
def Message.zero : Message UInt8 := Message.filled 0

def Message.type (msg : Message UInt8) : UInt8 := msg.bytes.getD 2 0

end RtoAutotrader
