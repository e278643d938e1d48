import RtoAutotrader.Wire

namespace RtoAutotrader

variable {π : Type}

theorem Wire.write_eq {w w' : Wire π} {exchange : Exchange} {reports : List Callback}
    (h : w.write exchange reports = some w') : ∃ bytes, encodeReports reports = some bytes ∧
      w' = { w with exchange := exchange, inbound := w.inbound ++ bytes } := by
  obtain ⟨bytes, hbytes, heq⟩ := Option.bind_eq_some_iff.mp h
  exact ⟨bytes, hbytes, (Option.some.inj heq).symm⟩

theorem Wire.write_sent {w w' : Wire π} {exchange : Exchange} {reports : List Callback}
    (h : w.write exchange reports = some w') : w'.sent = w.sent := by
  obtain ⟨bytes, _, rfl⟩ := Wire.write_eq h
  rfl

variable [PricingModel π]

namespace Wire

variable {results : Nat → SendResult} {w w' : Wire π}

/-- All that an action can do, with what lets it happen. -/
theorem step_cases {action : WireAction} (h : w.step results action = some w') :
    (∃ chunk, action = .datagram chunk ∧ w' = w.read results chunk.data) ∨
    (∃ size, action = .receive size ∧ 1 ≤ size ∧ size ≤ MESSAGE_SIZE ∧ size ≤ w.inbound.length ∧
      w' = { w with inbound := w.inbound.drop size }.read results (w.inbound.take size)) ∨
    (∃ fees frame rest credentials, action = .process fees ∧ w.credentials = none ∧
      cutFrame w.outbound = some (frame, rest) ∧ readLogin frame = some credentials ∧
      w' = { w with outbound := rest, credentials := some credentials }) ∨
    (∃ fees credentials command rest, action = .process fees ∧ w.credentials = some credentials ∧
      nextCommand w.outbound = some (command, rest) ∧ { w with outbound := rest }.write
        (w.exchange.process command) (w.exchange.cancelReports fees command) = some w') ∨
    (∃ k volume fees future_position live exchange,
      action = .fill k volume fees future_position ∧ w.exchange.orders[k]? = some live ∧
      w.exchange.fill k volume = some exchange ∧ w.write exchange [live.traded volume fees,
        .onPositionUpdate future_position exchange.position] = some w') ∨
    ∃ future_position, action = .report future_position ∧ w.write w.exchange
      [.onPositionUpdate future_position w.exchange.position] = some w' := by
  cases action with
  | datagram chunk =>
    cases h
    exact Or.inl ⟨chunk, rfl, rfl⟩
  | receive size =>
    simp only [step] at h
    split_ifs at h with hsize
    cases h
    exact Or.inr (Or.inl ⟨size, rfl, hsize.1, hsize.2.1, hsize.2.2, rfl⟩)
  | process fees =>
    simp only [step] at h
    split at h
    next hnone =>
      obtain ⟨⟨frame, rest⟩, hcut, hread⟩ := Option.bind_eq_some_iff.mp h
      obtain ⟨credentials, hlogin, heq⟩ := Option.bind_eq_some_iff.mp hread
      cases heq
      exact Or.inr (Or.inr (Or.inl ⟨fees, frame, rest, credentials, rfl, hnone, hcut, hlogin, rfl⟩))
    next credentials hsome =>
      obtain ⟨⟨command, rest⟩, hnext, hwrite⟩ := Option.bind_eq_some_iff.mp h
      exact Or.inr (Or.inr (Or.inr (Or.inl
        ⟨fees, credentials, command, rest, rfl, hsome, hnext, hwrite⟩)))
  | fill k volume fees future_position =>
    simp only [step] at h
    split at h
    next live exchange hlive hfill =>
      exact Or.inr (Or.inr (Or.inr (Or.inr (Or.inl ⟨k, volume, fees, future_position, live, exchange,
        rfl, hlive, hfill, h⟩))))
    next => cases h
  | report future_position =>
    exact Or.inr (Or.inr (Or.inr (Or.inr (Or.inr ⟨future_position, rfl, h⟩))))

/-- What the trader has done is what its passes over the reads call for. -/
structure Follows (model : π) (w : Wire π) : Prop where
  msg : w.msg = w.heard.foldl Message.received Message.zero
  trader : w.trader = (runFrom answer (newTrader model)
    ((buffers Message.zero w.heard).map dispatch)).1
  sent : w.sent = (runFrom answer (newTrader model)
    ((buffers Message.zero w.heard).map dispatch)).2

theorem passes_read (results : Nat → SendResult)
    (hmsg : w.msg = w.heard.foldl Message.received Message.zero) (data : List UInt8) : (buffers Message.zero (w.read results data).heard).map dispatch =
      (buffers Message.zero w.heard).map dispatch ++ [dispatch (w.msg.received data)] := by
  rw [hmsg, Wire.read, buffers_concat, List.map_append]
  rfl

theorem msg_read (results : Nat → SendResult)
    (hmsg : w.msg = w.heard.foldl Message.received Message.zero) (data : List UInt8) :
    (w.read results data).msg =
      (w.read results data).heard.foldl Message.received Message.zero := by
  rw [Wire.read, List.foldl_append, ← hmsg]
  rfl

theorem Follows.read {model : π} (h : w.Follows model) (data : List UInt8) :
    (w.read results data).Follows model := by
  have hpasses := passes_read results h.msg data
  refine ⟨msg_read results h.msg data, ?_, ?_⟩
  · rw [hpasses, runFrom_concat, ← h.trader]
    rfl
  · rw [hpasses, runFrom_concat, ← h.trader, ← h.sent]
    rfl

theorem Follows.write {model : π} {exchange : Exchange} {reports : List Callback}
    (h : w.Follows model) (hwrite : w.write exchange reports = some w') : w'.Follows model := by
  obtain ⟨bytes, _, rfl⟩ := write_eq hwrite
  exact ⟨h.msg, h.trader, h.sent⟩

theorem Follows.step {model : π} {action : WireAction} (h : w.Follows model)
    (hstep : w.step results action = some w') : w'.Follows model := by
  obtain ⟨chunk, -, rfl⟩ | ⟨size, -, -, -, -, rfl⟩ | ⟨fees, frame, rest, credentials, -, -, -, -, rfl⟩ |
    ⟨fees, credentials, command, rest, -, -, -, hwritten⟩ |
    ⟨k, volume, fees, future_position, live, exchange, -, -, -, hwritten⟩ |
    ⟨future_position, -, hwritten⟩ := step_cases hstep
  · exact h.read chunk.data
  · have hkept : { w with inbound := w.inbound.drop size }.Follows model :=
      ⟨h.msg, h.trader, h.sent⟩
    exact hkept.read _
  · exact ⟨h.msg, h.trader, h.sent⟩
  · have hkept : { w with outbound := rest }.Follows model := ⟨h.msg, h.trader, h.sent⟩
    exact hkept.write hwritten
  · exact h.write hwritten
  · exact h.write hwritten

theorem runFrom_answer (t : AutoTrader π SimpleExecutor) (passes : List Pass) :
    runFrom answer t passes = runFrom AutoTrader.handle t (passes.filterMap Pass.callback?) :=
  runFrom_filterMap (fun _ _ _ h => by rw [answer, h]) (fun _ _ h => by rw [answer, h]) t passes

variable {model : π} {login : SendResult} {actions : List WireAction}

theorem run_follows (h : Wire.run model login results actions = some w) : w.Follows model :=
  playFrom_invariant (I := fun _ w => Follows model w) ⟨rfl, rfl, rfl⟩
    (fun _ _ _ _ hold hstep => hold.step hstep) actions h

theorem run_sent (h : Wire.run model login results actions = some w) :
    w.sent = (runFrom AutoTrader.handle (newTrader model) w.callbacks).2 := by
  rw [(run_follows h).sent, runFrom_answer]
  rfl

theorem step_sent {action : WireAction} (h : w.step results action = some w') :
    w.sent <+: w'.sent := by
  obtain ⟨chunk, -, rfl⟩ | ⟨size, -, -, -, -, rfl⟩ | ⟨fees, frame, rest, credentials, -, -, -, -, rfl⟩ |
    ⟨fees, credentials, command, rest, -, -, -, hwritten⟩ |
    ⟨k, volume, fees, future_position, live, exchange, -, -, -, hwritten⟩ |
    ⟨future_position, -, hwritten⟩ := step_cases h
  · exact List.prefix_append _ _
  · exact List.prefix_append _ _
  · exact List.prefix_rfl
  · exact write_sent hwritten ▸ List.prefix_rfl
  · exact write_sent hwritten ▸ List.prefix_rfl
  · exact write_sent hwritten ▸ List.prefix_rfl

theorem cutFrame_suffix {stream frame rest : List UInt8}
    (h : cutFrame stream = some (frame, rest)) : rest <:+ stream := by
  simp only [cutFrame] at h
  split_ifs at h
  cases h
  exact List.drop_suffix _ _

theorem nextCommand_suffix {stream rest : List UInt8} {command : Command}
    (h : nextCommand stream = some (command, rest)) : rest <:+ stream := by
  simp only [nextCommand] at h
  split_ifs at h
  obtain ⟨_, _, heq⟩ := Option.bind_eq_some_iff.mp h
  cases heq
  exact List.drop_suffix _ _

/-- What the socket has taken ends with what the exchange has not read. -/
theorem run_outbound (h : Wire.run model login results actions = some w) :
    w.outbound <:+ (loginFrame NAME SECRET).take login.count ++
      acceptedBytes (sends results w.sent) := by
  refine playFrom_invariant (I := fun _ (w : Wire π) => w.outbound <:+
    (loginFrame NAME SECRET).take login.count ++ acceptedBytes (sends results w.sent)) ?_ ?_ actions h
  · exact ⟨[], (List.append_nil _).symm⟩
  · intro _ w action w' hold hstep
    have hread : ∀ (w : Wire π) data, w.outbound <:+ (loginFrame NAME SECRET).take login.count ++
        acceptedBytes (sends results w.sent) → (w.read results data).outbound <:+
        (loginFrame NAME SECRET).take login.count ++
          acceptedBytes (sends results (w.read results data).sent) := by
      rintro w data ⟨before, hbefore⟩
      refine ⟨before, ?_⟩
      simp only [Wire.read]
      rw [sends_append, acceptedBytes_append, ← List.append_assoc, hbefore, List.append_assoc]
    obtain ⟨chunk, -, rfl⟩ | ⟨size, -, -, -, -, rfl⟩ |
      ⟨fees, frame, rest, credentials, -, -, hcut, -, rfl⟩ |
      ⟨fees, credentials, command, rest, -, -, hnext, hwritten⟩ |
      ⟨k, volume, fees, future_position, live, exchange, -, -, -, hwritten⟩ |
      ⟨future_position, -, hwritten⟩ := step_cases hstep
    · exact hread w chunk.data hold
    · exact hread { w with inbound := w.inbound.drop size } _ hold
    · exact (cutFrame_suffix hcut).trans hold
    · obtain ⟨bytes, _, rfl⟩ := write_eq hwritten
      exact (nextCommand_suffix hnext).trans hold
    · obtain ⟨bytes, _, rfl⟩ := write_eq hwritten
      exact hold
    · obtain ⟨bytes, _, rfl⟩ := write_eq hwritten
      exact hold

end Wire

end RtoAutotrader
