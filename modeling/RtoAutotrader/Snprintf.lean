import Mathlib.Data.List.TakeWhile

namespace RtoAutotrader

def PERCENT : UInt8 := 37

/-- What a C function sees of a string: the bytes before the first NUL. -/
def cString (bytes : List UInt8) : List UInt8 := bytes.takeWhile (· ≠ 0)

/-- The text a format prints when no arguments follow it. Only `%%` needs none: what
any other conversion, or a last `%`, does is undefined. -/
def printed : List UInt8 → Option (List UInt8)
  | [] => some []
  | byte :: format =>
    if byte = PERCENT then
      match format with
      | [] => none
      | conversion :: format =>
        if conversion = PERCENT then (printed format).map (PERCENT :: ·) else none
    else (printed format).map (byte :: ·)

/-- The bytes `snprintf` stores: as much of the text as fits, and the terminator. -/
def snprintf (size : Nat) (format : List UInt8) : Option (List UInt8) :=
  (printed (cString format)).map fun text =>
    if size = 0 then [] else text.take (size - 1) ++ [0]

theorem cString_eq_self {bytes : List UInt8} (h : 0 ∉ bytes) : cString bytes = bytes := by
  apply List.takeWhile_eq_self_iff.mpr
  intro byte hbyte
  apply decide_eq_true
  intro hzero
  rw [hzero] at hbyte
  exact h hbyte

theorem cString_append {text : List UInt8} (h : 0 ∉ text) (rest : List UInt8) :
    cString (text ++ rest) = text ++ cString rest := by
  apply List.takeWhile_append_of_pos
  intro byte hbyte
  apply decide_eq_true
  rintro rfl
  exact h hbyte

theorem printed_sublist {format text : List UInt8} (h : printed format = some text) :
    text.Sublist format := by
  fun_induction printed format generalizing text with
  | case1 =>
    cases h
    exact List.Sublist.slnil
  | case2 => cases h
  | case3 format ih =>
    obtain ⟨rest, hrest, rfl⟩ := Option.map_eq_some_iff.mp h
    exact ((ih hrest).cons_cons PERCENT).cons PERCENT
  | case4 => cases h
  | case5 byte format hbyte ih =>
    obtain ⟨rest, hrest, rfl⟩ := Option.map_eq_some_iff.mp h
    exact (ih hrest).cons_cons byte

/-- A format prints itself exactly when it asks for no conversion. -/
theorem printed_eq_self_iff (format : List UInt8) :
    printed format = some format ↔ PERCENT ∉ format := by
  fun_induction printed format with
  | case1 => simp
  | case2 => simp
  | case3 format ih =>
    refine iff_of_false ?_ (by simp)
    intro h
    obtain ⟨rest, hrest, heq⟩ := Option.map_eq_some_iff.mp h
    have hlength := (printed_sublist hrest).length_le
    rw [(List.cons.inj heq).2] at hlength
    exact Nat.not_succ_le_self _ hlength
  | case4 => simp
  | case5 byte format hbyte ih => simp [ih, Ne.symm hbyte]

/-- A size beyond the format's length cuts nothing off. -/
theorem snprintf_whole {size : Nat} {format : List UInt8} (h0 : 0 ∉ format)
    (hsize : format.length < size) :
    snprintf size format = (printed format).map (· ++ [0]) := by
  rw [snprintf, cString_eq_self h0]
  apply Option.map_congr
  intro text htext
  have hlength := (printed_sublist htext).length_le
  rw [if_neg (by omega), List.take_of_length_le (by omega)]

end RtoAutotrader
