import Mathlib.Data.List.Basic

namespace RtoAutotrader

/-- Writes a run of entries over a buffer from an offset on. The buffer keeps its
length: what would fall past its end is dropped. -/
def overwrite {α : Type} : Nat → List α → List α → List α
  | _, _, [] => []
  | 0, [], buffer => buffer
  | 0, x :: xs, _ :: buffer => x :: overwrite 0 xs buffer
  | offset + 1, xs, y :: buffer => y :: overwrite offset xs buffer

@[simp] theorem overwrite_length {α : Type} (offset : Nat) (xs buffer : List α) :
    (overwrite offset xs buffer).length = buffer.length := by
  fun_induction overwrite offset xs buffer <;> simp_all

theorem overwrite_map {α β : Type} (f : α → β) (offset : Nat) (xs buffer : List α) :
    (overwrite offset xs buffer).map f = overwrite offset (xs.map f) (buffer.map f) := by
  fun_induction overwrite offset xs buffer <;> simp_all [overwrite]

theorem overwrite_append {α : Type} (front : List α) {xs old : List α} (back : List α)
    (h : old.length = xs.length) :
    overwrite front.length xs (front ++ (old ++ back)) = front ++ (xs ++ back) := by
  induction front with
  | nil =>
    induction xs generalizing old with
    | nil =>
      obtain rfl := List.length_eq_zero_iff.mp h
      cases back <;> rfl
    | cons x xs ih =>
      obtain ⟨y, old, rfl⟩ := List.exists_cons_of_length_eq_add_one h
      have hrest := ih (by simpa using h : old.length = xs.length)
      simpa [overwrite] using hrest
  | cons y front ih => simpa [overwrite] using ih

theorem overwrite_getElem? {α : Type} (offset : Nat) (xs buffer : List α) (i : Nat)
    (hi : i < buffer.length) :
    (overwrite offset xs buffer)[i]? =
      if offset ≤ i ∧ i < offset + xs.length then xs[i - offset]? else buffer[i]? := by
  fun_induction overwrite offset xs buffer generalizing i with
  | case1 => simp at hi
  | case2 => simp
  | case3 x xs y buffer ih =>
    cases i with
    | zero => simp
    | succ i =>
      have hi' : i < buffer.length := by simpa using hi
      simpa using ih i hi'
  | case4 offset xs y buffer ih =>
    cases i with
    | zero => simp
    | succ i =>
      have hi' : i < buffer.length := by simpa using hi
      have hiff : i + 1 < offset + 1 + xs.length ↔ i < offset + xs.length := by omega
      simpa [hiff] using ih i hi'

end RtoAutotrader
