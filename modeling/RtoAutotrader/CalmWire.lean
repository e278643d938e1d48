import RtoAutotrader.CalmMarket
import RtoAutotrader.WireMarket

namespace RtoAutotrader

variable {π : Type} [PricingModel π] {results : Nat → SendResult}

/-- A step that gives the trader a book only when nothing is under way, in either direction. -/
def Wire.calmStep (results : Nat → SendResult) (w : Wire π) (action : WireAction) :
    Option (Wire π) :=
  match action with
  | .datagram _ => if w.outbound = [] ∧ w.inbound = [] then w.exactStep results action else none
  | _ => w.exactStep results action

theorem Wire.calmStep_cases {w w' : Wire π} {action : WireAction}
    (h : w.calmStep results action = some w') : w.exactStep results action = some w' ∧
      ∀ chunk, action = .datagram chunk → w.outbound = [] ∧ w.inbound = [] := by
  cases action with
  | datagram chunk =>
    simp only [calmStep] at h
    split_ifs at h with hquiet
    exact ⟨h, fun _ _ => hquiet⟩
  | _ => exact ⟨h, fun _ hchunk => by cases hchunk⟩

theorem wire_calm_related {model : π} {login : SendResult} {actions : List WireAction} {w : Wire π}
    (h : playFrom (Wire.calmStep results) (Wire.start model login) actions = some w)
    (hlogin : LOGIN_MESSAGE_SIZE ≤ login.count) (htaken : AllWhole (sends results w.sent))
    (hlimit : (inserted w.sent).length ≤ INSERT_LIMIT) : ∃ m, Related results w m ∧ m.Calm := by
  refine (playFrom_invariant_within (P := fun (w : Wire π) =>
      AllWhole (sends results w.sent) ∧ (inserted w.sent).length ≤ INSERT_LIMIT)
    (I := fun _ (w : Wire π) => w.Informed ∧ ∃ m, Related results w m ∧ m.Calm)
    ?_ ?_ ?_ actions h ⟨htaken, hlimit⟩).2
  · refine ⟨⟨[], rfl, rfl⟩, _, Related.start model hlogin, Market.consistent_start rfl, ?_⟩
    exact ⟨show (0 : Int) ≤ 99 by decide, show (-99 : Int) ≤ 0 by decide⟩
  · rintro w action w' hcalmStep ⟨hnow, hroom⟩
    obtain ⟨hstep, _⟩ := Wire.calmStep_cases hcalmStep
    have hsent := Wire.step_sent (Wire.exactStep_step hstep).2
    exact ⟨hnow.earlier hstep, Nat.le_trans (inserted_length_mono hsent) hroom⟩
  · rintro _ w action w' ⟨hinformed, m, hrelated, hcalm⟩ hcalmStep ⟨hnow, hroom⟩
    obtain ⟨hstep, hquiet⟩ := Wire.calmStep_cases hcalmStep
    refine ⟨hinformed.step hstep, ?_⟩
    obtain ⟨m', hrelated', rfl | ⟨next, hnext, hbook⟩⟩ := hrelated.step hstep hnow
    · exact ⟨m', hrelated', hcalm⟩
    · refine ⟨m', hrelated', hcalm.step ?_ hnext (hrelated'.sent hnow ▸ hroom)⟩
      rintro input rfl
      obtain ⟨chunk, rfl⟩ := hbook input rfl
      obtain ⟨houtbound, hinbound⟩ := hquiet chunk rfl
      refine ⟨hrelated.no_flight houtbound, ?_⟩
      rw [← hrelated.trader, ← hrelated.exchange]
      exact hinformed.heard hinbound

/-- A trader whose reads get the frames one at a time, and whose messages the socket takes whole,
cannot get past 99 lots when it is given books only once it has heard of everything and the
exchange of all it has sent: an old and a new quote may still trade on top of 79. -/
theorem wire_calm_bound (model : π) (login : SendResult) (results : Nat → SendResult)
    (actions : List WireAction) (w : Wire π)
    (h : playFrom (Wire.calmStep results) (Wire.start model login) actions = some w)
    (hlogin : LOGIN_MESSAGE_SIZE ≤ login.count) (htaken : AllWhole (sends results w.sent))
    (hlimit : (inserted w.sent).length ≤ INSERT_LIMIT) :
    w.exchange.position + w.exchange.resting .buy ≤ 99 ∧
      -99 ≤ w.exchange.position - w.exchange.resting .sell ∧ |w.exchange.position| ≤ 99 := by
  obtain ⟨m, hrelated, hcalm⟩ := wire_calm_related h hlogin htaken hlimit
  have hlimited : ∀ r ∈ m.inFlight, r.Limited :=
    fun r hr => hcalm.consistent.limited r (List.mem_append_right _ hr)
  have hbid := pending_nonneg hlimited .buy
  have hask := pending_nonneg hlimited .sell
  have hbuy := m.exchange.resting_nonneg .buy
  have hsell := m.exchange.resting_nonneg .sell
  obtain ⟨hhigh, hlow⟩ := hcalm.contained
  rw [hrelated.exchange]
  refine ⟨?_, ?_, abs_le.mpr ⟨?_, ?_⟩⟩
  · omega
  · omega
  · omega
  · omega

/-- A book, the commands it leads to, the report of the ask's cancel, and a trade of the bid. -/
def buyCycle (frame : BookFrame) (volume : Int) : List WireAction :=
  [.datagram frame.chunk, .process 0, .process 0, .process 0, .process 0, .receive 19,
    .fill 0 volume 0 0, .receive 19, .receive 11]

/-- The price moves to and fro, and every bid trades: the last two on top of 79 lots. -/
def boughtOut : List WireAction :=
  [.process 0, .datagram olderFrame.chunk, .process 0, .process 0, .fill 0 10 0 0, .receive 19,
    .receive 11] ++
    ([newerFrame, olderFrame, newerFrame, olderFrame, newerFrame, olderFrame].flatMap
      fun frame => buyCycle frame 10) ++ buyCycle newerFrame 9 ++
    [.datagram olderFrame.chunk, .process 0, .process 0, .process 0, .process 0, .receive 19,
      .receive 19, .datagram newerFrame.chunk, .fill 0 10 0 0, .process 0, .process 0, .process 0,
      .process 0, .fill 0 10 0 0]

def boughtOutWire? : Option (Wire FutureMidpoint) :=
  playFrom (Wire.calmStep fun _ => .accepted 17) (Wire.start FutureMidpoint.start (.accepted 73))
    boughtOut

theorem boughtOutWire_exists : boughtOutWire?.isSome := by decide +kernel

def boughtOutWire : Wire FutureMidpoint := boughtOutWire?.get boughtOutWire_exists

theorem boughtOutWire_run : boughtOutWire? = some boughtOutWire :=
  (Option.some_get boughtOutWire_exists).symm

/-- The bound is reached. -/
theorem boughtOutWire_bound : boughtOutWire.exchange.position = 99 ∧
    boughtOutWire.exchange.position + boughtOutWire.exchange.resting .buy ≤ 99 :=
  ⟨by decide +kernel, (wire_calm_bound _ _ _ boughtOut boughtOutWire boughtOutWire_run
    (by decide) (by decide +kernel) (by decide +kernel)).1⟩

end RtoAutotrader
