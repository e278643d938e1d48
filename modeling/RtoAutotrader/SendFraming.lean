import Mathlib.Tactic.IntervalCases
import RtoAutotrader.SendOutcomes

namespace RtoAutotrader

/-- The request after a cancel, or the one behind another cancel, is an insert. -/
def InsertFollows (after : List Request) : Prop :=
  ∃ cancels insert order later, after = cancels ++ insert :: later ∧
    insert.command.entry = .opened order ∧ cancels.length ≤ 1 ∧
    ∀ r ∈ cancels, ∃ id, r.command = .cancelOrder id

theorem InsertFollows.append {after : List Request} (h : InsertFollows after)
    (more : List Request) : InsertFollows (after ++ more) := by
  obtain ⟨cancels, insert, order, later, rfl, hrest⟩ := h
  exact ⟨cancels, insert, order, later ++ more, by simp, hrest⟩

/-- Where an element of two lists stands. -/
theorem append_eq_append_cons {α : Type} {first second before after : List α} {x : α}
    (h : first ++ second = before ++ x :: after) :
    (∃ middle, first = before ++ x :: middle ∧ after = middle ++ second) ∨
      ∃ middle, before = first ++ middle ∧ second = middle ++ x :: after := by
  rcases List.append_eq_append_iff.mp h with ⟨middle, hbefore, hsecond⟩ | ⟨middle, hfirst, hrest⟩
  · exact Or.inr ⟨middle, hbefore, hsecond⟩
  · rcases List.cons_eq_append_iff.mp hrest with ⟨rfl, hsecond⟩ | ⟨others, rfl, hafter⟩
    · exact Or.inr ⟨[], by rw [hfirst, List.append_nil, List.append_nil], hsecond⟩
    · exact Or.inl ⟨others, hfirst, hafter⟩

namespace SimpleExecutor

theorem insertMissing_cases (s : SimpleExecutor) (side : Side) (price : Int) :
    insertMissing side price s = (s, []) ∨
      ∃ insert order, (insertMissing side price s).2 = [insert] ∧
        insert.command.entry = .opened order := by
  unfold insertMissing
  split_ifs
  · exact Or.inr ⟨_, _, rfl, rfl⟩
  · exact Or.inl rfl

theorem inserts_cases (s : SimpleExecutor) (bid_price ask_price : Int) :
    runFrom (fun s branch => branch s) s (inserts bid_price ask_price) = (s, []) ∨
      ∃ insert order later,
        (runFrom (fun s branch => branch s) s (inserts bid_price ask_price)).2 =
          insert :: later ∧ insert.command.entry = .opened order := by
  simp only [inserts, runFrom_cons, runFrom_nil, List.append_nil]
  rcases insertMissing_cases s .buy bid_price with hbid | ⟨insert, order, hbid, hopened⟩
  · rw [hbid]
    rcases insertMissing_cases s .sell ask_price with hask | ⟨insert, order, hask, hopened⟩
    · rw [hask]
      exact Or.inl rfl
    · exact Or.inr ⟨insert, order, [], by rw [hask]; rfl, hopened⟩
  · exact Or.inr ⟨insert, order, _, by rw [hbid]; rfl, hopened⟩

theorem cancelStale_short (s : SimpleExecutor) (side : Side) (price : Int) :
    (cancelStale side price s).2.length ≤ 1 := by
  unfold cancelStale
  split_ifs <;> simp

theorem cancels_short (s : SimpleExecutor) (bid_price ask_price : Int) :
    (runFrom (fun s branch => branch s) s (cancels bid_price ask_price)).2.length ≤ 2 := by
  simp only [cancels, runFrom_cons, runFrom_nil, List.append_nil, List.length_append]
  have hbid := cancelStale_short s .buy bid_price
  have hask := cancelStale_short (cancelStale .buy bid_price s).1 .sell ask_price
  omega

theorem cancels_request {s : SimpleExecutor} {bid_price ask_price : Int} {r : Request}
    (h : r ∈ (runFrom (fun s branch => branch s) s (cancels bid_price ask_price)).2) :
    (∃ id, r.command = .cancelOrder id) ∧
      (runFrom (fun s branch => branch s) s (cancels bid_price ask_price)).1.id_ r.side = 0 := by
  have hcleared : ∀ (s : SimpleExecutor) side price, r ∈ (cancelStale side price s).2 →
      r.side = side ∧ (cancelStale side price s).1.id_ side = 0 := by
    intro s side price hr
    unfold cancelStale at hr ⊢
    split_ifs at hr ⊢
    · rw [List.mem_singleton.mp hr]
      exact ⟨rfl, withQuote_id_same _ _ _ _⟩
    · simp at hr
  rw [cancels_eq]
  simp only [cancels, runFrom_cons, runFrom_nil, List.append_nil, List.mem_append] at h
  rcases h with hbid | hask
  · obtain ⟨hside, hid⟩ := hcleared _ _ _ hbid
    refine ⟨cancelStale_command hbid, ?_⟩
    rw [hside, (cancelStale_other _ _ (show Side.buy ≠ .sell by decide)).1]
    exact hid
  · obtain ⟨hside, hid⟩ := hcleared _ _ _ hask
    exact ⟨cancelStale_command hask, by rw [hside]; exact hid⟩

theorem inserts_request {s : SimpleExecutor} {bid_price ask_price id : Int} {r : Request}
    (h : r ∈ (runFrom (fun s branch => branch s) s (inserts bid_price ask_price)).2) :
    r.command ≠ .cancelOrder id := by
  simp only [inserts, runFrom_cons, runFrom_nil, List.append_nil, List.mem_append] at h
  rcases h with hbid | hask
  · exact insertMissing_requests _ _ _ _ _ hbid
  · exact insertMissing_requests _ _ _ _ _ hask

/-- A cancel either leaves its side empty or is followed by an insert of the same call. -/
theorem executeTrades_follows {s : SimpleExecutor} {bid_price ask_price id : Int}
    {before after : List Request} {r : Request}
    (h : (s.executeTrades bid_price ask_price).2 = before ++ r :: after)
    (hcancel : r.command = .cancelOrder id) :
    (s.executeTrades bid_price ask_price).1.id_ r.side = 0 ∨ InsertFollows after := by
  rw [executeTrades_eq, branches, runFrom_append] at h ⊢
  rcases append_eq_append_cons h with ⟨others, hcancels, rfl⟩ | ⟨middle, _, hinserts⟩
  · have hmem : r ∈ (runFrom (fun s branch => branch s) s (cancels bid_price ask_price)).2 := by
      rw [hcancels]
      exact List.mem_append_right _ List.mem_cons_self
    rcases inserts_cases (runFrom (fun s branch => branch s) s (cancels bid_price ask_price)).1
      bid_price ask_price with hnone | ⟨insert, order, later, hinserts, hopened⟩
    · left
      rw [hnone]
      exact (cancels_request hmem).2
    · refine Or.inr ⟨others, insert, order, later, by rw [hinserts], hopened, ?_, ?_⟩
      · have hshort := cancels_short s bid_price ask_price
        rw [hcancels] at hshort
        simp only [List.length_append, List.length_cons] at hshort
        omega
      · intro other hother
        have hothers : other ∈
            (runFrom (fun s branch => branch s) s (cancels bid_price ask_price)).2 := by
          rw [hcancels]
          exact List.mem_append_right _ (List.mem_cons_of_mem _ hother)
        exact (cancels_request hothers).1
  · have hmem := List.mem_append_right middle (List.mem_cons_self (a := r) (l := after))
    rw [← hinserts] at hmem
    exact absurd hcancel (inserts_request hmem)

end SimpleExecutor

/-- What becomes of a cancel in a run: the call that sent it left its side empty, or an
insert follows. -/
theorem executorRun_follows {calls : List SimpleExecutor.Call} {before after : List Request}
    {r : Request} {id : Int} (h : (executorRun calls).2 = before ++ r :: after)
    (hcancel : r.command = .cancelOrder id) :
    (∃ earlier bid_price ask_price later,
      calls = earlier ++ .executeTrades bid_price ask_price :: later ∧
      before ++ [r] <+: (executorRun (earlier ++ [.executeTrades bid_price ask_price])).2 ∧
      (executorRun (earlier ++ [.executeTrades bid_price ask_price])).1.id_ r.side = 0) ∨
    InsertFollows after := by
  induction calls using List.reverseRecOn generalizing after with
  | nil => simp [executorRun] at h
  | append_singleton calls c ih =>
    have hconcat : executorRun (calls ++ [c]) = (((executorRun calls).1.call c).1,
      (executorRun calls).2 ++ ((executorRun calls).1.call c).2) := runFrom_concat _ _ _ _
    have hlog := h
    rw [hconcat] at hlog
    rcases append_eq_append_cons hlog with ⟨middle, hold, rfl⟩ | ⟨middle, hbefore, hnew⟩
    · rcases ih hold with ⟨earlier, bid_price, ask_price, later, rfl, hrest⟩ | hfollows
      · exact Or.inl ⟨earlier, bid_price, ask_price, later ++ [c], by simp, hrest⟩
      · exact Or.inr (hfollows.append _)
    · cases c with
      | executeTrades bid_price ask_price =>
        rcases SimpleExecutor.executeTrades_follows hnew hcancel with hempty | hfollows
        · refine Or.inl ⟨calls, bid_price, ask_price, [], rfl, ⟨after, ?_⟩, ?_⟩
          · rw [h, List.append_assoc]
            rfl
          · rw [hconcat]
            exact hempty
        · exact Or.inr hfollows
      | onPositionUpdate future_position etf_position => simp [SimpleExecutor.call] at hnew

theorem Command.cancel_bytes (id : Int) :
    ∃ a b c d, (Command.cancelOrder id).bytes = [0, 7, 2, a, b, c, d] := by
  obtain ⟨a, b, c, d, hid⟩ := htonl_four id
  refine ⟨a, b, c, d, ?_⟩
  rw [Command.bytes, cancelOrder_eq, hid]
  rfl

theorem Command.insert_bytes {command : Command} {order : Order}
    (h : command.entry = .opened order) : ∃ rest, command.bytes = 0 :: 17 :: rest := by
  rw [Command.entry_opened h]
  exact ⟨_, by rw [Command.bytes, insertOrder_eq]; rfl⟩

/-- A part of a cancel and more bytes do not begin as an insert does. -/
theorem part_not_insert {id : Int} {part more rest : List UInt8}
    (hpart : part <+: (Command.cancelOrder id).bytes) (hne : part ≠ []) :
    part ++ 0 :: more ≠ 0 :: 17 :: rest := by
  intro h
  obtain ⟨a, b, c, d, hbytes⟩ := Command.cancel_bytes id
  rw [hbytes] at hpart
  obtain ⟨last, hlast⟩ := hpart
  rcases part with _ | ⟨x, _ | ⟨y, part⟩⟩
  · exact hne rfl
  · simp at h
  · simp at h hlast
    exact absurd (hlast.2.1.symm.trans h.2.1) (by decide)

/-- A part of a cancel, another cancel and an insert do not begin as the latter two do. -/
theorem part_not_cancel {id id' : Int} {part more rest : List UInt8}
    (hpart : part <+: (Command.cancelOrder id).bytes) (hne : part ≠ [])
    (hnot : part ≠ (Command.cancelOrder id).bytes) :
    part ++ ((Command.cancelOrder id').bytes ++ 0 :: 17 :: more) ≠
      (Command.cancelOrder id').bytes ++ 0 :: 17 :: rest := by
  intro h
  obtain ⟨a, b, c, d, hbytes⟩ := Command.cancel_bytes id
  obtain ⟨a', b', c', d', hbytes'⟩ := Command.cancel_bytes id'
  rw [hbytes'] at h
  rw [hbytes] at hpart hnot
  have hlength := hpart.length_le
  rw [List.prefix_iff_eq_take.mp hpart] at h hnot hne
  generalize part.length = count at *
  simp only [List.length_cons, List.length_nil] at hlength
  interval_cases count
  · exact hne rfl
  all_goals simp at h hnot
  all_goals grind

theorem sends_requests (results : Nat → SendResult) (log : List Request) :
    (sends results log).map SendRecord.request = log := by
  rw [sends, List.map_map]
  exact List.zipIdx_map_fst 0 log

theorem sends_at {results : Nat → SendResult} {log : List Request} {before after : List SendRecord}
    {record : SendRecord} (h : sends results log = before ++ record :: after) :
    record.result = results before.length := by
  have hat : (sends results log)[before.length]? = some record := by
    rw [h, List.getElem?_append_right (Nat.le_refl _), Nat.sub_self]
    rfl
  simp only [sends, List.getElem?_map, List.getElem?_zipIdx, Option.map_map] at hat
  obtain ⟨r, _, rfl⟩ := Option.map_eq_some_iff.mp hat
  simp

theorem mem_sends_early {results : Nat → SendResult} {log early : List Request}
    {before after : List SendRecord} {record : SendRecord}
    (h : sends results log = before ++ record :: after)
    (hearly : before.map SendRecord.request ++ [record.request] <+: early) :
    record ∈ sends results early := by
  obtain ⟨more, rfl⟩ := hearly
  refine mem_sends.mpr ⟨before.length, ?_, sends_at h⟩
  rw [List.append_assoc, List.getElem?_append_right (by simp)]
  simp

/-- The bytes of the messages accepted as a whole. -/
def wholeBytes (records : List SendRecord) : List UInt8 :=
  (records.filter fun record => record.Whole).flatMap fun record => record.request.command.bytes

theorem wholeBytes_append (first second : List SendRecord) :
    wholeBytes (first ++ second) = wholeBytes first ++ wholeBytes second := by
  simp [wholeBytes]

theorem wholeBytes_whole {record : SendRecord} (h : record.Whole) (records : List SendRecord) :
    wholeBytes (record :: records) = record.request.command.bytes ++ wholeBytes records := by
  rw [wholeBytes, List.filter_cons_of_pos (by simpa using h), List.flatMap_cons]
  rfl

theorem wholeBytes_part {record : SendRecord} (h : ¬ record.Whole) (records : List SendRecord) :
    wholeBytes (record :: records) = wholeBytes records := by
  rw [wholeBytes, List.filter_cons_of_neg (by simpa using h)]
  rfl

theorem acceptedBytes_cons (record : SendRecord) (records : List SendRecord) :
    acceptedBytes (record :: records) = record.accepted ++ acceptedBytes records := rfl

theorem acceptedBytes_append (first second : List SendRecord) :
    acceptedBytes (first ++ second) = acceptedBytes first ++ acceptedBytes second :=
  List.flatMap_append

theorem acceptedBytes_settled {records : List SendRecord}
    (h : ∀ record ∈ records, record.Whole ∨ record.accepted = []) :
    acceptedBytes records = wholeBytes records := by
  induction records with
  | nil => rfl
  | cons record records ih =>
    have htail := ih fun later hlater => h later (List.mem_cons_of_mem _ hlater)
    by_cases hwhole : record.Whole
    · rw [wholeBytes_whole hwhole, acceptedBytes_cons, htail]
      exact congrArg (· ++ _) hwhole
    · have hnone := (h record List.mem_cons_self).resolve_left hwhole
      rw [wholeBytes_part hwhole, acceptedBytes_cons, htail, hnone]
      rfl

/-- A part of a cancel that an insert follows is not the end of what is accepted. -/
theorem part_unframed {before after : List SendRecord} {record : SendRecord} {id : Int}
    (hbefore : ∀ earlier ∈ before, earlier.Whole ∨ earlier.accepted = [])
    (hcancel : record.request.command = .cancelOrder id) (hpart : ¬ record.Whole)
    (hsome : record.accepted ≠ []) (hfollows : InsertFollows (after.map SendRecord.request))
    (hinserts : ∀ later ∈ after, ∀ order, later.request.command.entry = .opened order →
      later.Whole) : ¬ Framed (before ++ record :: after) := by
  rintro ⟨rest, _, _, _, hframed⟩
  change acceptedBytes _ = wholeBytes _ ++ rest at hframed
  rw [acceptedBytes_append, acceptedBytes_settled hbefore, wholeBytes_append, List.append_assoc,
    List.append_cancel_left_eq, acceptedBytes_cons, wholeBytes_part hpart] at hframed
  have hfront := record.accepted_part
  rw [SendRecord.Whole] at hpart
  rw [hcancel] at hfront hpart
  obtain ⟨cancels, insert, order, later, hafter, hopened, hshort, hcancels⟩ := hfollows
  obtain ⟨others, afters, rfl, hothers, hrest⟩ := List.map_eq_append_iff.mp hafter
  obtain ⟨inserted, laters, rfl, rfl, rfl⟩ := List.map_eq_cons_iff.mp hrest
  have hwhole := hinserts inserted (by simp) order hopened
  have haccepted : inserted.accepted = inserted.request.command.bytes := hwhole
  obtain ⟨bytes, hbytes⟩ := Command.insert_bytes hopened
  rcases others with _ | ⟨other, _ | ⟨_, _⟩⟩
  · rw [List.nil_append, acceptedBytes_cons, wholeBytes_whole hwhole, haccepted, hbytes] at hframed
    exact part_not_insert hfront hsome hframed
  · obtain ⟨id', hother⟩ := hcancels other.request (by rw [← hothers]; simp)
    rw [List.singleton_append, acceptedBytes_cons, acceptedBytes_cons, haccepted] at hframed
    by_cases hcomplete : other.Whole
    · have hcopy : other.accepted = other.request.command.bytes := hcomplete
      rw [wholeBytes_whole hcomplete, wholeBytes_whole hwhole, hcopy, hother, hbytes,
        List.append_assoc] at hframed
      exact part_not_cancel hfront hsome hpart hframed
    · rw [wholeBytes_part hcomplete, wholeBytes_whole hwhole, hbytes] at hframed
      have hbegin := other.accepted_part
      rw [hother] at hbegin
      obtain ⟨a, b, c, d, hzero⟩ := Command.cancel_bytes id'
      rw [hzero] at hbegin
      generalize other.accepted = begin at hbegin hframed
      rcases begin with _ | ⟨x, begin⟩
      · exact part_not_insert hfront hsome hframed
      · obtain ⟨rfl, _⟩ := List.cons_prefix_cons.mp hbegin
        exact part_not_insert hfront hsome hframed
  · rw [← hothers] at hshort
    simp at hshort

end RtoAutotrader
