import Mathlib.Data.List.Induction

namespace RtoAutotrader

/-- A property that held after every entry of a log. -/
def EveryPrefix {α : Type} (P : List α → Prop) (log : List α) : Prop :=
  ∀ before, before <+: log → P before

theorem everyPrefix_nil {α : Type} {P : List α → Prop} (h : P []) : EveryPrefix P [] := by
  intro before hbefore
  rw [List.prefix_nil.mp hbefore]
  exact h

theorem EveryPrefix.whole {α : Type} {P : List α → Prop} {log : List α}
    (h : EveryPrefix P log) : P log := h log (List.prefix_refl log)

theorem EveryPrefix.earlier {α : Type} {P : List α → Prop} {before log : List α}
    (h : EveryPrefix P log) (hbefore : before <+: log) : EveryPrefix P before :=
  fun _ hearlier => h _ (hearlier.trans hbefore)

theorem EveryPrefix.concat {α : Type} {P : List α → Prop} {log : List α} {x : α}
    (h : EveryPrefix P log) (hx : P (log ++ [x])) : EveryPrefix P (log ++ [x]) := by
  intro before hbefore
  rcases List.prefix_concat_iff.mp hbefore with heq | hearlier
  · rw [heq]
    exact hx
  · exact h before hearlier

theorem EveryPrefix.short {α : Type} {P : List α → Prop} {log more : List α}
    (h : EveryPrefix P log) (hshort : more.length ≤ 1) (hmore : P (log ++ more)) :
    EveryPrefix P (log ++ more) := by
  rcases more with _ | ⟨x, _ | ⟨y, rest⟩⟩
  · simpa using h
  · exact h.concat hmore
  · simp only [List.length_cons] at hshort
    omega

inductive Entry (κ ω : Type)
  | opened (item : ω)
  | closed (key : κ)

def applyEntry {κ ω : Type} [DecidableEq κ] (key : ω → κ) (book : List ω) : Entry κ ω → List ω
  | .opened item => book ++ [item]
  | .closed k => book.filter fun item => key item ≠ k

/-- The open items after a log, oldest first. -/
def replay {κ ω : Type} [DecidableEq κ] (key : ω → κ) (log : List (Entry κ ω)) : List ω :=
  log.foldl (applyEntry key) []

theorem replay_append {κ ω : Type} [DecidableEq κ] (key : ω → κ)
    (log more : List (Entry κ ω)) :
    replay key (log ++ more) = more.foldl (applyEntry key) (replay key log) := by
  simp [replay]

def Entry.opened? {κ ω : Type} : Entry κ ω → Option ω
  | .opened item => some item
  | .closed _ => none

theorem replay_sublist {κ ω : Type} [DecidableEq κ] (key : ω → κ)
    (log : List (Entry κ ω)) :
    (replay key log).Sublist (log.filterMap Entry.opened?) := by
  induction log using List.reverseRecOn with
  | nil => exact List.Sublist.slnil
  | append_singleton log entry ih =>
    rw [replay_append, List.filterMap_append]
    cases entry with
    | opened item => exact ih.append (List.Sublist.refl [item])
    | closed k =>
      simp only [List.foldl_cons, List.foldl_nil, applyEntry, List.filterMap_cons, Entry.opened?,
        List.filterMap_nil, List.append_nil]
      exact List.filter_sublist.trans ih

theorem applyEntry_sublist {κ ω : Type} [DecidableEq κ] {key : ω → κ} {live book : List ω}
    (h : live.Sublist book) (entry : Entry κ ω) :
    (applyEntry key live entry).Sublist (applyEntry key book entry) := by
  cases entry with
  | opened item => exact h.append (List.Sublist.refl [item])
  | closed k => exact h.filter _

/-- Leaving out openings opens nothing else. -/
theorem replay_filter_sublist {ρ κ ω : Type} [DecidableEq κ] (key : ω → κ) {f : ρ → Entry κ ω}
    {keep : ρ → Bool} {log : List ρ}
    (h : ∀ x ∈ log, keep x = false → ∃ item, f x = .opened item) :
    (replay key ((log.filter keep).map f)).Sublist (replay key (log.map f)) := by
  induction log using List.reverseRecOn with
  | nil => exact List.Sublist.slnil
  | append_singleton log x ih =>
    have hbefore := ih fun y hy => h y (List.mem_append_left _ hy)
    rw [List.filter_append, List.map_append, List.map_append, replay_append, replay_append]
    cases hkeep : keep x with
    | true =>
      rw [List.filter_cons_of_pos hkeep]
      exact applyEntry_sublist hbefore (f x)
    | false =>
      obtain ⟨item, hopened⟩ := h x (by simp) hkeep
      rw [List.filter_cons_of_neg (by simp [hkeep])]
      simp only [List.filter_nil, List.map_nil, List.foldl_nil, List.map_cons, List.foldl_cons, hopened]
      exact hbefore.trans (List.sublist_append_left _ _)

theorem applyEntry_filter {κ ω : Type} [DecidableEq κ] {key : ω → κ} {gone : List κ}
    {book : List ω} {entry : Entry κ ω} (h : ∀ item, entry.opened? = some item → key item ∉ gone) :
    applyEntry key (book.filter fun item => key item ∉ gone) entry =
      (applyEntry key book entry).filter fun item => key item ∉ gone := by
  cases entry with
  | opened item =>
    have hitem := h item rfl
    simp [applyEntry, hitem]
  | closed k =>
    simp only [applyEntry, List.filter_filter]
    exact List.filter_congr fun item _ => Bool.and_comm _ _

end RtoAutotrader
