import RtoAutotrader.AutoTrader
import RtoAutotrader.FixedWidth
import RtoAutotrader.Outbound
import RtoAutotrader.Snprintf

namespace RtoAutotrader

variable {π ε : Type}

/-- The bytes handed to `send`, if `snprintf` defines them: both strings are formats. -/
def MarketLink.registerTrader (auto_trader : AutoTrader π ε) : Option (List UInt8) := do
  let msg := Message.zero
  let msg := msg.write 0 (htons LOGIN_MESSAGE_SIZE)
  let msg := msg.write 2 [LOGIN_MESSAGE_TYPE]
  let msg := msg.write 3 (List.replicate 20 0)
  let msg := msg.write 23 (List.replicate 50 0)
  let name ← snprintf (auto_trader.name_.length + 1) auto_trader.name_
  let msg := msg.write 3 name
  let secret ← snprintf (auto_trader.secret_.length + 1) auto_trader.secret_
  let msg := msg.write 23 secret
  return msg.bytes.take LOGIN_MESSAGE_SIZE

/-- A login of the exchange: size, type, and the two fields padded with zeros. -/
def loginFrame (name secret : List UInt8) : List UInt8 :=
  networkBytes 2 73 ++ 5 :: (name.rightpad 20 0 ++ secret.rightpad 50 0)

def loginHeader : List UInt8 := htons LOGIN_MESSAGE_SIZE ++ [LOGIN_MESSAGE_TYPE]

theorem loginFrame_eq (name secret : List UInt8) :
    loginFrame name secret = loginHeader ++ (name.rightpad 20 0 ++ secret.rightpad 50 0) := rfl

theorem login_cleared :
    ((((Message.zero.write 0 (htons LOGIN_MESSAGE_SIZE)).write 2 [LOGIN_MESSAGE_TYPE]).write 3
      (List.replicate 20 0)).write 23 (List.replicate 50 0)).bytes =
        loginHeader ++ List.replicate 85 0 := by
  decide

/-- The name's terminator may fall into the secret's field: the secret is written after it. -/
theorem login_written {msg : Message UInt8} {name secret : List UInt8}
    (hmsg : msg.bytes = loginHeader ++ List.replicate 85 0) (hname : name.length ≤ 20)
    (hsecret : secret.length ≤ 50) :
    ((msg.write 3 (name ++ [0])).write 23 (secret ++ [0])).bytes.take LOGIN_MESSAGE_SIZE =
      loginFrame name secret := by
  have hnamed : (msg.write 3 (name ++ [0])).bytes =
      loginHeader ++ name.rightpad 20 0 ++ List.replicate 65 0 := by
    rw [List.append_assoc, ← overwrite_terminated loginHeader 0 64 hname, ← hmsg]
    rfl
  have hfront : (loginHeader ++ name.rightpad 20 0).length = 23 := by
    rw [List.length_append, rightpad_width 0 hname]
    rfl
  have hsecreted := overwrite_terminated (loginHeader ++ name.rightpad 20 0) 0 14 hsecret
  have hframe : (loginFrame name secret).length = LOGIN_MESSAGE_SIZE := by
    rw [loginFrame_eq, ← List.append_assoc, List.length_append, hfront, rightpad_width 0 hsecret]
    rfl
  rw [hfront, ← hnamed, ← List.append_assoc, List.append_assoc loginHeader, ← loginFrame_eq]
    at hsecreted
  exact (congrArg (List.take LOGIN_MESSAGE_SIZE) hsecreted).trans (List.take_left' hframe)

theorem registerTrader_eq {auto_trader : AutoTrader π ε} (hname : auto_trader.name_.length ≤ 20)
    (hsecret : auto_trader.secret_.length ≤ 50) (hname0 : 0 ∉ auto_trader.name_)
    (hsecret0 : 0 ∉ auto_trader.secret_) :
    MarketLink.registerTrader auto_trader = (printed auto_trader.name_).bind fun name =>
      (printed auto_trader.secret_).map fun secret => loginFrame name secret := by
  rw [MarketLink.registerTrader, snprintf_whole hname0 (Nat.lt_succ_self _),
    snprintf_whole hsecret0 (Nat.lt_succ_self _)]
  cases hprinted : printed auto_trader.name_ with
  | none => rfl
  | some name =>
    cases hprinted' : printed auto_trader.secret_ with
    | none => rfl
    | some secret =>
      have hname := (printed_sublist hprinted).length_le.trans hname
      have hsecret := (printed_sublist hprinted').length_le.trans hsecret
      exact congrArg some (login_written login_cleared hname hsecret)

theorem loginFrame_inj {name name' secret secret' : List UInt8} (hname : name.length ≤ 20)
    (hname' : name'.length ≤ 20) (hname0 : 0 ∉ name) (hname0' : 0 ∉ name') (hsecret0 : 0 ∉ secret)
    (hsecret0' : 0 ∉ secret') (h : loginFrame name secret = loginFrame name' secret') :
    name = name' ∧ secret = secret' := by
  rw [loginFrame_eq, loginFrame_eq] at h
  have hwidth := (rightpad_width 0 hname).trans (rightpad_width 0 hname').symm
  obtain ⟨hpadded, hpadded'⟩ := List.append_inj (List.append_cancel_left h) hwidth
  exact ⟨rightpad_inj hname0 hname0' hpadded, rightpad_inj hsecret0 hsecret0' hpadded'⟩

/-- Fields of any fitting length arrive as they are, up to the full widths, exactly when
neither string asks `snprintf` for a conversion. -/
theorem login_verbatim_iff (auto_trader : AutoTrader π ε) (hname : auto_trader.name_.length ≤ 20)
    (hsecret : auto_trader.secret_.length ≤ 50) (hname0 : 0 ∉ auto_trader.name_)
    (hsecret0 : 0 ∉ auto_trader.secret_) :
    MarketLink.registerTrader auto_trader =
        some (loginFrame auto_trader.name_ auto_trader.secret_) ↔
      PERCENT ∉ auto_trader.name_ ∧ PERCENT ∉ auto_trader.secret_ := by
  rw [registerTrader_eq hname hsecret hname0 hsecret0, ← printed_eq_self_iff, ← printed_eq_self_iff]
  constructor
  · intro h
    obtain ⟨name, hprinted, h⟩ := Option.bind_eq_some_iff.mp h
    obtain ⟨secret, hprinted', h⟩ := Option.map_eq_some_iff.mp h
    have hsub := printed_sublist hprinted
    have hsub' := printed_sublist hprinted'
    obtain ⟨rfl, rfl⟩ := loginFrame_inj (hsub.length_le.trans hname) hname
      (fun hmem => hname0 (hsub.subset hmem)) hname0
      (fun hmem => hsecret0 (hsub'.subset hmem)) hsecret0 h
    exact ⟨hprinted, hprinted'⟩
  · rintro ⟨hprinted, hprinted'⟩
    rw [hprinted, hprinted']
    rfl

/-- At the full widths there is no room for a terminator in either field. -/
theorem login_verbatim_full_width :
    MarketLink.registerTrader { mainTrader with
      name_ := List.replicate 20 97, secret_ := List.replicate 50 98 } =
        some (loginFrame (List.replicate 20 97) (List.replicate 50 98)) :=
  (login_verbatim_iff { mainTrader with
      name_ := List.replicate 20 97, secret_ := List.replicate 50 98 }
    (by decide) (by decide) (by decide) (by decide)).mpr ⟨by decide, by decide⟩

/-- The name "%%" is sent as "%". -/
theorem login_name_percent : ¬∀ auto_trader : AutoTrader FutureMidpoint SimpleExecutor,
    auto_trader.name_.length ≤ 20 → auto_trader.secret_.length ≤ 50 → 0 ∉ auto_trader.name_ →
      0 ∉ auto_trader.secret_ → MarketLink.registerTrader auto_trader =
        some (loginFrame auto_trader.name_ auto_trader.secret_) := by
  intro h
  have hsent : MarketLink.registerTrader { mainTrader with name_ := [37, 37] } =
      some (loginFrame [37] SECRET) := by decide
  have hverbatim := h { mainTrader with name_ := [37, 37] } (by decide) (by decide) (by decide)
    (by decide)
  rw [hsent] at hverbatim
  revert hverbatim
  decide

end RtoAutotrader
