import RtoAutotrader.Overwrite

namespace RtoAutotrader

/-- Of pieces of one width laid end to end, the one with a given index. -/
theorem flatMap_cut {α β : Type} {f : α → List β} {width : Nat} {xs : List α}
    (hwidth : ∀ x ∈ xs, (f x).length = width) {i : Nat} {x : α} (hx : xs[i]? = some x) :
    ((xs.flatMap f).drop (width * i)).take width = f x := by
  induction xs generalizing i with
  | nil => cases hx
  | cons y xs ih =>
    have hy := hwidth y List.mem_cons_self
    cases i with
    | zero =>
      obtain rfl : y = x := Option.some.inj hx
      rw [Nat.mul_zero, List.drop_zero, List.flatMap_cons, List.take_left' hy]
    | succ i =>
      have hoffset : width * (i + 1) = (f y).length + width * i := by
        rw [hy, Nat.mul_succ, Nat.add_comm]
      rw [List.flatMap_cons, hoffset, List.drop_length_add_append]
      exact ih (fun z hz => hwidth z (List.mem_cons_of_mem y hz)) hx

theorem flatMap_width {α β : Type} {f : α → List β} {width : Nat} {xs : List α}
    (hwidth : ∀ x ∈ xs, (f x).length = width) : (xs.flatMap f).length = width * xs.length := by
  induction xs with
  | nil => rfl
  | cons x xs ih =>
    have hx := hwidth x List.mem_cons_self
    have hrest := ih fun y hy => hwidth y (List.mem_cons_of_mem x hy)
    rw [List.flatMap_cons, List.length_append, hx, hrest, List.length_cons, Nat.mul_succ,
      Nat.add_comm]

theorem rightpad_width {α : Type} {xs : List α} {width : Nat} (pad : α) (h : xs.length ≤ width) :
    (xs.rightpad width pad).length = width := by
  rw [List.length_rightpad, Nat.max_eq_left h]

/-- A text and its terminator, written over padding: the terminator is one more pad. -/
theorem overwrite_terminated {α : Type} (front : List α) {text : List α} {width : Nat} (pad : α)
    (n : Nat) (h : text.length ≤ width) :
    overwrite front.length (text ++ [pad]) (front ++ List.replicate (width + (n + 1)) pad) =
      front ++ (text.rightpad width pad ++ List.replicate (n + 1) pad) := by
  have hsplit : List.replicate (width + (n + 1)) pad =
      List.replicate (text.length + 1) pad ++ List.replicate (width - text.length + n) pad := by
    rw [List.replicate_append_replicate]
    congr 1
    omega
  have hpadding : text.rightpad width pad ++ List.replicate (n + 1) pad =
      text ++ [pad] ++ List.replicate (width - text.length + n) pad := by
    have hone : [pad] = List.replicate 1 pad := rfl
    rw [List.rightpad, List.append_assoc, List.append_assoc, hone,
      List.replicate_append_replicate, List.replicate_append_replicate]
    congr 2
    omega
  rw [hsplit, hpadding]
  exact overwrite_append front _ (by simp)

theorem filter_rightpad {α : Type} [DecidableEq α] (xs : List α) (width : Nat) (pad : α) :
    ((xs.rightpad width pad).filter fun x => x ≠ pad) = xs.filter fun x => x ≠ pad := by
  simp [List.rightpad]

/-- Padding hides nothing of a list in which the padding does not occur. -/
theorem rightpad_inj {α : Type} [DecidableEq α] {xs ys : List α} {width : Nat} {pad : α}
    (hxs : pad ∉ xs) (hys : pad ∉ ys) (h : xs.rightpad width pad = ys.rightpad width pad) :
    xs = ys := by
  have hfilter := congrArg (List.filter fun x => x ≠ pad) h
  rw [filter_rightpad, filter_rightpad] at hfilter
  have hkeep : ∀ zs : List α, pad ∉ zs → (zs.filter fun x => x ≠ pad) = zs := by
    intro zs hzs
    apply List.filter_eq_self.mpr
    intro z hz
    apply decide_eq_true
    intro hpad
    rw [hpad] at hz
    exact hzs hz
  rw [hkeep xs hxs, hkeep ys hys] at hfilter
  exact hfilter

end RtoAutotrader
