import Mathlib.Data.List.Basic

namespace RtoAutotrader

/-- Cuts a stream into items with a reader of the first one. The bound on the number
of items is only there for the recursion; `readStream` supplies one that suffices. -/
def readItems {α β : Type} (next : List β → Option (α × List β)) :
    Nat → List β → Option (List α)
  | _, [] => some []
  | 0, _ :: _ => none
  | bound + 1, b :: stream => do
    let (item, rest) ← next (b :: stream)
    let items ← readItems next bound rest
    pure (item :: items)

/-- All items of a stream, or nothing when it cannot be cut without a remainder. -/
def readStream {α β : Type} (next : List β → Option (α × List β)) (stream : List β) :
    Option (List α) := readItems next stream.length stream

/-- A writer that a reader undoes item by item is undone on every stream. -/
theorem readStream_flatMap {α β : Type} {next : List β → Option (α × List β)}
    {write : α → List β} {ok : α → Prop} (nonempty : ∀ item, write item ≠ [])
    (undo : ∀ item, ok item → ∀ rest, next (write item ++ rest) = some (item, rest))
    (items : List α) (h : ∀ item ∈ items, ok item) :
    readStream next (items.flatMap write) = some items := by
  suffices hbound : ∀ bound, (items.flatMap write).length ≤ bound →
      readItems next bound (items.flatMap write) = some items from hbound _ (Nat.le_refl _)
  induction items with
  | nil => intro bound _; simp [readItems]
  | cons item items ih =>
    intro bound hbound
    obtain ⟨b, bytes, hbytes⟩ := List.exists_cons_of_ne_nil (nonempty item)
    have hread := undo item (h item List.mem_cons_self) (items.flatMap write)
    simp only [List.flatMap_cons, hbytes, List.cons_append] at hbound hread ⊢
    cases bound with
    | zero => simp at hbound
    | succ bound =>
      simp only [List.length_cons, List.length_append] at hbound
      have hrest := ih (fun item hitem => h item (List.mem_cons_of_mem _ hitem)) bound (by omega)
      simp [readItems, hread, hrest]

end RtoAutotrader
