import RtoAutotrader.OrderLog

namespace RtoAutotrader

theorem Command.entry_opened {command : Command} {order : Order} (h : command.entry = .opened order) :
    command = .insertOrder order.id order.side order.price order.volume order.lifespan := by
  cases command with
  | insertOrder id side price volume lifespan =>
    cases h
    rfl
  | cancelOrder id => cases h

theorem Command.entry_closed {command : Command} {id : Int} (h : command.entry = .closed id) :
    command = .cancelOrder id := by
  cases command with
  | insertOrder => cases h
  | cancelOrder => cases h; rfl

theorem mem_inserted {log : List Request} {order : Order} :
    order ∈ inserted log ↔ ∃ r ∈ log, r.command.entry = .opened order := by
  simp only [inserted, List.mem_filterMap, List.mem_map]
  constructor
  · rintro ⟨entry, ⟨r, hr, rfl⟩, hopened⟩
    refine ⟨r, hr, ?_⟩
    cases hentry : r.command.entry with
    | opened item =>
      rw [hentry] at hopened
      rw [Option.some.inj hopened]
    | closed key => simp [hentry, Entry.opened?] at hopened
  · rintro ⟨r, hr, hentry⟩
    exact ⟨_, ⟨r, hr, rfl⟩, by simp [hentry, Entry.opened?]⟩

theorem SoundLog.cancel_inserted {log : List Request} (h : SoundLog log) {r : Request} {id : Int}
    (hr : r ∈ log) (hcancel : r.command = .cancelOrder id) :
    ∃ order ∈ inserted log, order.id = id ∧ order.side = r.side := by
  obtain ⟨before, after, rfl⟩ := List.append_of_mem hr
  obtain ⟨order, horder, hid, hside⟩ := h.cancels before r after id rfl hcancel
  refine ⟨order, ?_, hid, hside⟩
  rw [inserted_append]
  exact List.mem_append_left _ ((openOrders_sublist _).subset horder)

theorem SoundLog.inserted_id_inj {log : List Request} (h : SoundLog log) {first second : Order}
    (hfirst : first ∈ inserted log) (hsecond : second ∈ inserted log)
    (hid : first.id = second.id) : first = second := by
  have hnodup : ((inserted log).map Order.id).Nodup :=
    List.pairwise_map.mpr (h.increasing.imp fun hlt => by omega)
  exact List.inj_on_of_nodup_map hnodup hfirst hsecond hid

theorem mem_openOrders_append {log more : List Request} {order : Order}
    (h : order ∈ openOrders (log ++ more)) : order ∈ openOrders log ∨ order ∈ inserted more := by
  induction more using List.reverseRecOn with
  | nil => exact Or.inl (by simpa using h)
  | append_singleton more r ih =>
    rw [← List.append_assoc, openOrders_concat] at h
    rw [inserted_append]
    cases hentry : r.command.entry with
    | closed key =>
      rw [hentry] at h
      exact (ih (List.mem_of_mem_filter h)).imp_right (List.mem_append_left _)
    | opened item =>
      rw [hentry] at h
      rcases List.mem_append.mp h with hold | hnew
      · exact (ih hold).imp_right (List.mem_append_left _)
      · refine Or.inr (List.mem_append_right _ (mem_inserted.mpr ⟨r, by simp, ?_⟩))
        rw [List.mem_singleton.mp hnew, hentry]

theorem cancelled_of_not_open {log : List Request} {order : Order} (h : order ∈ inserted log)
    (hopen : order ∉ openOrders log) : ∃ r ∈ log, r.command = .cancelOrder order.id := by
  induction log using List.reverseRecOn with
  | nil => simp [inserted] at h
  | append_singleton log r ih =>
    rw [openOrders_concat] at hopen
    rw [inserted_append] at h
    rcases List.mem_append.mp h with hold | hnew
    · by_cases hbefore : order ∈ openOrders log
      · refine ⟨r, by simp, Command.entry_closed ?_⟩
        cases hentry : r.command.entry with
        | opened item =>
          rw [hentry] at hopen
          exact absurd (List.mem_append_left _ hbefore) hopen
        | closed key =>
          rw [hentry] at hopen
          by_contra hother
          refine hopen (List.mem_filter.mpr ⟨hbefore, decide_eq_true fun heq => hother ?_⟩)
          rw [heq]
      · obtain ⟨r', hr', hcommand⟩ := ih hold hbefore
        exact ⟨r', List.mem_append_left _ hr', hcommand⟩
    · obtain ⟨r', hr', hentry⟩ := mem_inserted.mp hnew
      rw [List.mem_singleton.mp hr'] at hentry
      rw [hentry] at hopen
      exact absurd (List.mem_append_right _ List.mem_cons_self) hopen

theorem SoundLog.not_open {before after : List Request} {r : Request} {id : Int}
    (h : SoundLog (before ++ r :: after)) (hcancel : r.command = .cancelOrder id) :
    ∀ order ∈ openOrders (before ++ r :: after), order.id ≠ id := by
  intro order horder
  have hsplit : before ++ r :: after = (before ++ [r]) ++ after := by simp
  rw [hsplit] at horder
  rcases mem_openOrders_append horder with hold | hnew
  · rw [openOrders_concat, hcancel] at hold
    exact of_decide_eq_true (List.mem_filter.mp hold).2
  · obtain ⟨closed, hclosed, hid, _⟩ := h.cancels before r after id rfl hcancel
    have hincreasing := h.increasing
    rw [hsplit, inserted_append, inserted_append] at hincreasing
    have hbefore : closed ∈ inserted before ++ inserted [r] :=
      List.mem_append_left _ ((openOrders_sublist before).subset hclosed)
    have hlt := (List.pairwise_append.mp hincreasing).2.2 closed hbefore order hnew
    omega

theorem SoundLog.insert_place {log : List Request} (h : SoundLog log) {i j : Nat} {r r' : Request}
    {order order' : Order} (hi : log[i]? = some r) (hj : log[j]? = some r')
    (horder : r.command.entry = .opened order) (horder' : r'.command.entry = .opened order')
    (hid : order.id = order'.id) : i = j := by
  have hpairs := h.increasing
  rw [inserted, List.pairwise_filterMap, List.pairwise_map, List.pairwise_iff_getElem] at hpairs
  obtain ⟨hilt, higet⟩ := List.getElem?_eq_some_iff.mp hi
  obtain ⟨hjlt, hjget⟩ := List.getElem?_eq_some_iff.mp hj
  have hopened : log[i].command.entry.opened? = some order := by
    rw [higet, horder]
    rfl
  have hopened' : log[j].command.entry.opened? = some order' := by
    rw [hjget, horder']
    rfl
  rcases Nat.lt_trichotomy i j with hlt | heq | hgt
  · have := hpairs i j hilt hjlt hlt order hopened order' hopened'
    omega
  · exact heq
  · have := hpairs j i hjlt hilt hgt order' hopened' order hopened
    omega

theorem cancel_once {log : List Request} (h : EveryPrefix SoundLog log) {i j : Nat} {r r' : Request}
    {id : Int} (hi : log[i]? = some r) (hj : log[j]? = some r') (hcancel : r.command = .cancelOrder id)
    (hcancel' : r'.command = .cancelOrder id) : ¬ i < j := by
  intro hlt
  obtain ⟨hjlt, hjget⟩ := List.getElem?_eq_some_iff.mp hj
  have hsplit : log = log.take j ++ r' :: log.drop (j + 1) := by
    rw [← hjget, List.getElem_cons_drop, List.take_append_drop]
  obtain ⟨order, horder, hid, _⟩ := h.whole.cancels _ r' _ id hsplit hcancel'
  have htake : (log.take j)[i]? = some r := by rw [List.getElem?_take_of_lt hlt, hi]
  obtain ⟨hilt, higet⟩ := List.getElem?_eq_some_iff.mp htake
  have hbefore : log.take j = (log.take j).take i ++ r :: (log.take j).drop (i + 1) := by
    rw [← higet, List.getElem_cons_drop, List.take_append_drop]
  have hsound := h (log.take j) (List.take_prefix j log)
  rw [hbefore] at hsound horder
  exact hsound.not_open hcancel order horder hid

theorem cancel_place {log : List Request} (h : EveryPrefix SoundLog log) {i j : Nat}
    {r r' : Request} {id : Int} (hi : log[i]? = some r) (hj : log[j]? = some r')
    (hcancel : r.command = .cancelOrder id) (hcancel' : r'.command = .cancelOrder id) : i = j := by
  have hij := cancel_once h hi hj hcancel hcancel'
  have hji := cancel_once h hj hi hcancel' hcancel
  omega

end RtoAutotrader
