import RtoAutotrader.SendFraming

namespace RtoAutotrader

/-- The accepted bytes are whole messages, and whenever `executeTrades` returns the executor
records what reached the exchange. -/
structure InSync (calls : List SimpleExecutor.Call) (results : Nat → SendResult) : Prop where
  framed : Framed (sends results (executorRun calls).2)
  sides : ∀ earlier bid_price ask_price later,
    calls = earlier ++ .executeTrades bid_price ask_price :: later → ∀ side,
    SideInSync (executorRun (earlier ++ [.executeTrades bid_price ask_price])).1
      (sends results (executorRun (earlier ++ [.executeTrades bid_price ask_price])).2) side

/-- Every insert is accepted whole, and so are by then the cancels of a side that a call
leaves without an order, at its limit with no order at the price asked for. -/
structure StateSends (calls : List SimpleExecutor.Call) (results : Nat → SendResult) : Prop where
  inserts : InsertsWhole (sends results (executorRun calls).2)
  cancels : ∀ earlier bid_price ask_price later,
    calls = earlier ++ .executeTrades bid_price ask_price :: later → ∀ side,
    ¬ (executorRun earlier).1.MayInsert side →
    ¬ ((executorRun earlier).1.id_ side ≠ 0 ∧ (executorRun earlier).1.price_ side =
      SimpleExecutor.asked bid_price ask_price side) →
    CancelsWhole
      (sends results (executorRun (earlier ++ [.executeTrades bid_price ask_price])).2) side

/-- Where all inserts are whole, a side is in sync once the cancels are that left it empty. -/
theorem sideInSync_iff {s : SimpleExecutor} {log : List Request} {results : Nat → SendResult}
    (htracks : s.Tracks log) (hinserts : InsertsWhole (sends results log)) (side : Side) :
    SideInSync s (sends results log) side ↔
      (s.id_ side = 0 → CancelsWhole (sends results log) side) := by
  have hsound := htracks.sound.whole
  constructor
  · intro hsync hid record hrecord hside id hcancel
    obtain ⟨order, horder, rfl, horderSide⟩ :=
      hsound.cancel_inserted (sends_request hrecord) hcancel
    obtain ⟨r, hr, hentry⟩ := mem_inserted.mp horder
    obtain ⟨insert, hinsert, rfl⟩ := exists_record results hr
    obtain ⟨cancel, hcancelMem, hwhole, hcommand⟩ := hsync.empty hid insert hinsert
      (hinserts insert hinsert order hentry) order hentry (horderSide.trans hside)
    rw [cancel_record htracks.sound hrecord hcancelMem hcancel hcommand]
    exact hwhole
  · intro hcancels
    refine ⟨⟨?_, ?_⟩, ?_⟩
    · intro hid
      have hopen : ⟨s.id_ side, side, s.price_ side, 10, .goodForDay⟩ ∈ openOrders log :=
        htracks.mem_openOrders.mpr (SimpleExecutor.mem_quote.mpr ⟨hid, rfl⟩)
      obtain ⟨r, hr, hentry⟩ := mem_inserted.mp ((openOrders_sublist log).subset hopen)
      obtain ⟨insert, hinsert, rfl⟩ := exists_record results hr
      refine ⟨⟨insert, hinsert, hinserts insert hinsert _ hentry, _, hentry, rfl⟩, ?_⟩
      rintro ⟨cancel, hcancel, _, hcommand⟩
      obtain ⟨before, after, hsplit⟩ := List.append_of_mem (sends_request hcancel)
      rw [hsplit] at hsound hopen
      exact hsound.not_open hcommand _ hopen rfl
    · rintro ⟨⟨insert, hinsert, _, order, hentry, hid⟩, _⟩
      rw [← hid]
      exact hsound.nonzero order (mem_inserted.mpr ⟨_, sends_request hinsert, hentry⟩)
    · intro hid insert hinsert _ order hentry hside
      have hinserted : order ∈ inserted log :=
        mem_inserted.mpr ⟨_, sends_request hinsert, hentry⟩
      have hclosed : order ∉ openOrders log := by
        intro hopen
        have hquote := SimpleExecutor.mem_quote.mp (htracks.mem_openOrders.mp hopen)
        rw [hside] at hquote
        exact hquote.1 hid
      obtain ⟨r, hr, hcommand⟩ := cancelled_of_not_open hinserted hclosed
      obtain ⟨cancel, hcancel, rfl⟩ := exists_record results hr
      obtain ⟨other, hother, hotherId, hotherSide⟩ := hsound.cancel_inserted hr hcommand
      rw [hsound.inserted_id_inj hother hinserted hotherId] at hotherSide
      exact ⟨cancel, hcancel, hcancels hid cancel hcancel (hotherSide.symm.trans hside) _ hcommand,
        hcommand⟩

theorem inserts_whole_of_sides {calls : List SimpleExecutor.Call} {results : Nat → SendResult}
    (hlimit : (inserted (executorRun calls).2).length ≤ INSERT_LIMIT)
    (hsides : ∀ earlier bid_price ask_price later,
      calls = earlier ++ .executeTrades bid_price ask_price :: later → ∀ side,
      SideInSync (executorRun (earlier ++ [.executeTrades bid_price ask_price])).1
        (sends results (executorRun (earlier ++ [.executeTrades bid_price ask_price])).2) side) :
    InsertsWhole (sends results (executorRun calls).2) := by
  induction calls using List.reverseRecOn with
  | nil =>
    intro record hrecord
    simp [executorRun, sends] at hrecord
  | append_singleton calls c ih =>
    have hsound := (executorRun_tracks hlimit (List.append_nil _).symm).1.sound.whole
    have hbefore : InsertsWhole (sends results (executorRun calls).2) := by
      apply ih (Nat.le_trans (inserted_length_mono (executorRun_earlier rfl)) hlimit)
      intro earlier bid_price ask_price later hsplit
      exact hsides earlier bid_price ask_price (later ++ [c]) (by simp [hsplit])
    cases c with
    | onPositionUpdate future_position etf_position =>
      have hsame : (executorRun (calls ++ [.onPositionUpdate future_position etf_position])).2 =
          (executorRun calls).2 := by
        rw [executorRun, runFrom_concat]
        exact List.append_nil _
      rw [hsame]
      exact hbefore
    | executeTrades bid_price ask_price =>
      have hconcat := executorRun_concat calls bid_price ask_price
      intro record hrecord order hentry
      have hsplit := hrecord
      rw [hconcat] at hsplit
      rcases mem_sends_append hsplit with hold | hnew
      · exact hbefore record hold order hentry
      · have hid : (executorRun (calls ++ [.executeTrades bid_price ask_price])).1.id_ order.side =
            order.id := by
          rw [hconcat]
          exact SimpleExecutor.executeTrades_inserted hnew (Command.entry_opened hentry)
        have hnonzero := hsound.nonzero order
          (mem_inserted.mpr ⟨_, sends_request hrecord, hentry⟩)
        have hheld := (hsides calls bid_price ask_price [] rfl order.side).held
        rw [hid] at hheld
        obtain ⟨⟨accepted, haccepted, hwhole, order', hentry', hid'⟩, _⟩ := hheld.mp hnonzero
        rw [insert_record hsound hrecord haccepted hentry hentry' hid'.symm]
        exact hwhole

/-- After a call all sides are in sync if and only if the cancels of those it leaves empty
were accepted. -/
theorem call_sides_iff {calls earlier later : List SimpleExecutor.Call} {bid_price ask_price : Int}
    {results : Nat → SendResult}
    (hlimit : (inserted (executorRun calls).2).length ≤ INSERT_LIMIT)
    (hinserts : InsertsWhole (sends results (executorRun calls).2))
    (hsplit : calls = earlier ++ .executeTrades bid_price ask_price :: later) (side : Side) :
    SideInSync (executorRun (earlier ++ [.executeTrades bid_price ask_price])).1
        (sends results (executorRun (earlier ++ [.executeTrades bid_price ask_price])).2) side ↔
      (¬ (executorRun earlier).1.MayInsert side →
        ¬ ((executorRun earlier).1.id_ side ≠ 0 ∧ (executorRun earlier).1.price_ side =
          SimpleExecutor.asked bid_price ask_price side) →
        CancelsWhole
          (sends results (executorRun (earlier ++ [.executeTrades bid_price ask_price])).2)
          side) := by
  have hlater : calls = (earlier ++ [.executeTrades bid_price ask_price]) ++ later := by
    simpa using hsplit
  have hnow : InsertsWhole
      (sends results (executorRun (earlier ++ [.executeTrades bid_price ask_price])).2) :=
    fun record hrecord => hinserts record (sends_mono (executorRun_earlier hlater) hrecord)
  have hempty := SimpleExecutor.executeTrades_empty (executorRun_tracks hlimit hsplit).2
    bid_price ask_price side
  have hstate := congrArg Prod.fst (executorRun_concat earlier bid_price ask_price)
  rw [sideInSync_iff (executorRun_tracks hlimit hlater).1 hnow side, hstate, hempty, and_imp]

/-- In sync, a message that is not accepted whole is not accepted at all: it can only be a
cancel, and what follows it would be cut into other messages. -/
theorem settled_of_framed {calls : List SimpleExecutor.Call} {results : Nat → SendResult}
    (hlimit : (inserted (executorRun calls).2).length ≤ INSERT_LIMIT)
    (hstate : StateSends calls results) (hframed : Framed (sends results (executorRun calls).2))
    {before after : List SendRecord} (hsplit : sends results (executorRun calls).2 = before ++ after) :
    ∀ record ∈ before, record.Whole ∨ record.accepted = [] := by
  induction before using List.reverseRecOn generalizing after with
  | nil => simp
  | append_singleton before record ih =>
    rw [List.append_assoc, List.singleton_append] at hsplit
    have hearlier := ih hsplit
    have hlog := sends_requests results (executorRun calls).2
    rw [hsplit, List.map_append, List.map_cons] at hlog
    have hinserts : ∀ later ∈ record :: after, ∀ order,
        later.request.command.entry = .opened order → later.Whole := by
      intro later hlater
      apply hstate.inserts
      rw [hsplit]
      exact List.mem_append_right _ hlater
    intro other hother
    rcases List.mem_append.mp hother with hold | hlast
    · exact hearlier other hold
    · rw [List.mem_singleton.mp hlast]
      by_contra hneither
      obtain ⟨hpart, hsome⟩ := not_or.mp hneither
      cases hcommand : record.request.command with
      | insertOrder id side price volume lifespan =>
        refine hpart (hinserts record List.mem_cons_self ⟨id, side, price, volume, lifespan⟩ ?_)
        rw [hcommand]
        rfl
      | cancelOrder id =>
        rcases executorRun_follows hlog.symm hcommand with
          ⟨earlier, bid_price, ask_price, later, hcalls, hearly, hempty⟩ | hfollows
        · have hcounting := (executorRun_tracks hlimit hcalls).2
          rw [executorRun_concat] at hempty
          obtain ⟨hmay, hkept⟩ := (SimpleExecutor.executeTrades_empty hcounting _ _ _).mp hempty
          exact hpart (hstate.cancels earlier bid_price ask_price later hcalls _ hmay hkept record
            (mem_sends_early hsplit hearly) rfl id hcommand)
        · refine part_unframed hearlier hcommand hpart hsome hfollows ?_ (hsplit ▸ hframed)
          exact fun later hlater => hinserts later (List.mem_cons_of_mem _ hlater)

/-- The executor stays in sync exactly if all inserts and the cancels that empty a side are
accepted, and nothing is accepted behind a part of a message. -/
theorem sends_in_sync (calls : List SimpleExecutor.Call) (results : Nat → SendResult)
    (hlimit : (inserted (executorRun calls).2).length ≤ INSERT_LIMIT) :
    InSync calls results ↔
      StateSends calls results ∧ NothingAfterPart (sends results (executorRun calls).2) := by
  constructor
  · intro hsync
    have hwhole := inserts_whole_of_sides hlimit hsync.sides
    have hstate : StateSends calls results := by
      refine ⟨hwhole, ?_⟩
      intro earlier bid_price ask_price later hsplit side
      exact (call_sides_iff hlimit hwhole hsplit side).mp
        (hsync.sides earlier bid_price ask_price later hsplit side)
    refine ⟨hstate, List.pairwise_of_forall_mem_list ?_⟩
    intro first hfirst _ _ hpart hsome
    have hsettled := settled_of_framed hlimit hstate hsync.framed (List.append_nil _).symm
    exact absurd ((hsettled first hfirst).resolve_left hpart) hsome
  · rintro ⟨hstate, hnothing⟩
    refine ⟨framed_of_nothingAfterPart hnothing, ?_⟩
    intro earlier bid_price ask_price later hsplit side
    exact (call_sides_iff hlimit hstate.inserts hsplit side).mpr
      (hstate.cancels earlier bid_price ask_price later hsplit side)

/-- The cancel of the bid fails, but the bid is quoted again; that of the ask, which stays
empty, is accepted. -/
theorem sends_in_sync_failed_cancel :
    InSync [.executeTrades 900 1100, .onPositionUpdate 0 (-85), .executeTrades 1000 1200]
      fun i => if i = 2 then .failed else .accepted 17 := by
  have hsettled : ∀ record ∈ sends (fun i => if i = 2 then .failed else .accepted 17) (executorRun
      [.executeTrades 900 1100, .onPositionUpdate 0 (-85), .executeTrades 1000 1200]).2,
      (record.Whole ∨ record.accepted = []) ∧
        (record.Whole ∨ record.request.command = .cancelOrder 2) ∧
        (record.Whole ∨ record.request.side = .buy) := by decide
  refine (sends_in_sync _ _ (by decide)).mpr ⟨⟨?_, ?_⟩, ?_⟩
  · intro record hrecord order hopened
    refine (hsettled record hrecord).2.1.resolve_right ?_
    intro hcancel
    rw [hcancel] at hopened
    cases hopened
  · intro earlier bid_price ask_price later hsplit side hmay _ record hrecord hside _ _
    have hlater : [.executeTrades 900 1100, .onPositionUpdate 0 (-85), .executeTrades 1000 1200] =
        (earlier ++ [.executeTrades bid_price ask_price]) ++ later := by
      simpa using hsplit
    have hmem := sends_mono (executorRun_earlier hlater) hrecord
    refine (hsettled record hmem).2.2.resolve_right ?_
    rw [hside]
    rintro rfl
    rcases earlier with _ | ⟨first, _ | ⟨second, _ | ⟨third, earlier⟩⟩⟩
    · cases hsplit
      exact hmay (by decide)
    · cases hsplit
    · cases hsplit
      exact hmay (by decide)
    · simp at hsplit
  · exact List.pairwise_of_forall_mem_list fun first hfirst _ _ hpart hsome =>
      absurd ((hsettled first hfirst).1.resolve_left hpart) hsome

/-- Neither of the first two inserts is accepted, but the executor records both. -/
theorem failed_insert_recorded :
    ¬ InSync [.executeTrades 900 1100] fun _ => .failed := by
  intro hsync
  obtain ⟨⟨record, hrecord, hwhole, _⟩, _⟩ :=
    (hsync.sides [] 900 1100 [] rfl .buy).held.mp (by decide)
  obtain ⟨_, _, hresult⟩ := mem_sends.mp hrecord
  apply hwhole.ne_nil
  rw [SendRecord.accepted, hresult]
  rfl

end RtoAutotrader
