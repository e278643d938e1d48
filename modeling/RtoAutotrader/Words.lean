import Mathlib.Algebra.Ring.Nat
import Mathlib.Data.List.Basic

namespace RtoAutotrader

/-- The value of a C `int` holding `x` modulo 2^32, in two's complement. -/
def wrapInt (x : Int) : Int := (x + 2147483648) % 4294967296 - 2147483648

def FitsInt (x : Int) : Prop := -2147483648 ≤ x ∧ x < 2147483648

instance (x : Int) : Decidable (FitsInt x) :=
  inferInstanceAs (Decidable (-2147483648 ≤ x ∧ x < 2147483648))

theorem wrapInt_fits (x : Int) : FitsInt (wrapInt x) := by
  unfold FitsInt wrapInt
  omega

theorem wrapInt_of_fits {x : Int} (h : FitsInt x) : wrapInt x = x := by
  unfold FitsInt at h
  unfold wrapInt
  omega

theorem wrapInt_emod (x : Int) : wrapInt (x % 4294967296) = wrapInt x := by
  unfold wrapInt
  omega

/-- The `n` low bytes of `v`, most significant byte first. -/
def networkBytes : Nat → Nat → List UInt8
  | 0, _ => []
  | n + 1, v => UInt8.ofNat (v / 256 ^ n) :: networkBytes n v

def networkValue : List UInt8 → Nat
  | [] => 0
  | b :: bs => b.toNat * 256 ^ bs.length + networkValue bs

@[simp] theorem networkBytes_length (n v : Nat) : (networkBytes n v).length = n := by
  induction n with
  | zero => rfl
  | succ n ih => simp [networkBytes, ih]

theorem networkValue_lt (bs : List UInt8) : networkValue bs < 256 ^ bs.length := by
  induction bs with
  | nil => simp [networkValue]
  | cons b bs ih =>
    have hb : b.toNat ≤ 255 := Nat.le_of_lt_succ b.toNat_lt
    have hmul := Nat.mul_le_mul_right (256 ^ bs.length) hb
    simp only [networkValue, List.length_cons, Nat.pow_succ]
    omega

theorem networkValue_networkBytes (n v : Nat) :
    networkValue (networkBytes n v) = v % 256 ^ n := by
  induction n with
  | zero => simp [networkBytes, networkValue, Nat.mod_one]
  | succ n ih =>
    have hhead : (UInt8.ofNat (v / 256 ^ n)).toNat = v / 256 ^ n % 256 := by simp
    simp only [networkBytes, networkValue, networkBytes_length, ih, hhead]
    rw [Nat.pow_succ, Nat.mod_mul, Nat.mul_comm (256 ^ n)]
    omega

theorem networkBytes_networkValue (bs : List UInt8) : networkBytes bs.length (networkValue bs) = bs := by
  suffices h : ∀ (bs : List UInt8) (k : Nat),
      networkBytes bs.length (networkValue bs + 256 ^ bs.length * k) = bs by simpa using h bs 0
  intro bs
  induction bs with
  | nil => intro k; rfl
  | cons b bs ih =>
    intro k
    have hlt := networkValue_lt bs
    have hpos : 0 < 256 ^ bs.length := Nat.pow_pos (by omega)
    have hsplit : networkValue (b :: bs) + 256 ^ (b :: bs).length * k =
        networkValue bs + 256 ^ bs.length * (b.toNat + 256 * k) := by
      simp only [networkValue, List.length_cons, Nat.pow_succ]
      grind
    have hhead : UInt8.ofNat (b.toNat + 256 * k) = b := by
      apply UInt8.toNat_inj.mp
      have := b.toNat_lt
      simp only [UInt8.toNat_ofNat']
      omega
    rw [hsplit]
    simp only [networkBytes, List.length_cons, ih, Nat.add_mul_div_left _ _ hpos,
      Nat.div_eq_of_lt hlt, Nat.zero_add, hhead]

/-- The four bytes `htonl` leaves in memory for an `int`. -/
def htonl (x : Int) : List UInt8 := networkBytes 4 (x % 4294967296).toNat

/-- The unsigned word `ntohl` reads from four bytes in network order. -/
def ntohl (bytes : List UInt8) : Int := networkValue bytes

@[simp] theorem htonl_length (x : Int) : (htonl x).length = 4 := networkBytes_length 4 _

theorem htonl_drop (x : Int) {n : Nat} (h : 4 ≤ n) : (htonl x).drop n = [] :=
  List.drop_eq_nil_of_le (by simpa using h)

theorem ntohl_htonl (x : Int) : ntohl (htonl x) = x % 4294967296 := by
  simp only [ntohl, htonl, networkValue_networkBytes]
  omega

theorem wrapInt_ntohl_htonl {x : Int} (h : FitsInt x) : wrapInt (ntohl (htonl x)) = x := by
  rw [ntohl_htonl, wrapInt_emod, wrapInt_of_fits h]

theorem htonl_wrapInt (x : Int) : htonl (wrapInt x) = htonl x := by
  unfold htonl
  congr 2
  unfold wrapInt
  omega

theorem htonl_wrapInt_ntohl {bytes : List UInt8} (h : bytes.length = 4) :
    htonl (wrapInt (ntohl bytes)) = bytes := by
  have hlt := networkValue_lt bytes
  rw [h] at hlt
  have hvalue : (ntohl bytes % 4294967296).toNat = networkValue bytes := by
    unfold ntohl
    omega
  rw [htonl_wrapInt, htonl, hvalue]
  simpa only [h] using networkBytes_networkValue bytes

end RtoAutotrader
