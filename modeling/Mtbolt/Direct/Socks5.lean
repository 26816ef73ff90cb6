import Mtbolt.Net.RawMessage

/-!
# The SOCKS5 handshake of a DC connection

When an upstream proxy is configured, a DC connection first speaks SOCKS5 with it
(`net-tcp-direct-dc.c`).  `socks5HandleResponse` is what the parser of the connection calls while
`extra_int` is not `SOCKS5_NONE`.
-/

namespace Mtbolt.Direct

/-- `SOCKS5_NONE`, `SOCKS5_GREETING_SENT`, `SOCKS5_AUTH_SENT` and `SOCKS5_CONNECT_SENT`. -/
inductive Socks5State
  | none
  | greetingSent
  | authSent
  | connectSent
  deriving DecidableEq, Repr

/-- `socks5_config`, as far as the handshake reads it.  `connectRequest` is what
`socks5_send_connect` writes for the connection's DC address. -/
structure Socks5Config where
  enabled : Bool
  user : List UInt8
  pass : List UInt8
  connectRequest : List UInt8
  deriving DecidableEq, Repr

/-- `socks5_send_greeting`. -/
def socks5SendGreeting (cfg : Socks5Config) : List UInt8 :=
  if cfg.user.isEmpty then [5, 1, 0] else [5, 2, 0, 2]

/-- `socks5_send_auth`. -/
def socks5SendAuth (cfg : Socks5Config) : List UInt8 :=
  [1, UInt8.ofNat cfg.user.length] ++ cfg.user ++ [UInt8.ofNat cfg.pass.length] ++ cfg.pass

/-- The results `1`, `0` and `-1` of `socks5_handle_response`. -/
inductive Socks5Result
  | more
  | complete
  | error
  deriving DecidableEq, Repr

/-- What `socks5_handle_response` leaves: its result, the state, the input and the bytes it
appends to the output. -/
structure Socks5Step where
  result : Socks5Result
  state : Socks5State
  inn : List UInt8
  sent : List UInt8
  deriving DecidableEq, Repr

/-- The answer to the greeting. -/
def socks5Greeting (cfg : Socks5Config) (inn : List UInt8) : Socks5Step :=
  if inn.length < 2 then ⟨.more, .greetingSent, inn, []⟩
  else
    let resp := (rwmFetchData inn 2).1
    let rest := (rwmFetchData inn 2).2
    if resp.getD 0 0 ≠ 5 then ⟨.error, .greetingSent, rest, []⟩
    else if resp.getD 1 0 = 0 then ⟨.more, .connectSent, rest, cfg.connectRequest⟩
    else if resp.getD 1 0 = 2 then
      if cfg.user.isEmpty then ⟨.error, .greetingSent, rest, []⟩
      else ⟨.more, .authSent, rest, socks5SendAuth cfg⟩
    else ⟨.error, .greetingSent, rest, []⟩

/-- The answer to the user name and password. -/
def socks5Auth (cfg : Socks5Config) (inn : List UInt8) : Socks5Step :=
  if inn.length < 2 then ⟨.more, .authSent, inn, []⟩
  else
    let resp := (rwmFetchData inn 2).1
    let rest := (rwmFetchData inn 2).2
    if resp.getD 1 0 ≠ 0 then ⟨.error, .authSent, rest, []⟩
    else ⟨.more, .connectSent, rest, cfg.connectRequest⟩

/-- The length of the address in the answer to CONNECT, by its type. -/
def socks5AddrLen (peek : List UInt8) : Option ℕ :=
  if peek.getD 3 0 = 1 then some 4
  else if peek.getD 3 0 = 4 then some 16
  else if peek.getD 3 0 = 3 then some (1 + (peek.getD 4 0).toNat)
  else .none

/-- The answer to CONNECT. -/
def socks5Connect (inn : List UInt8) : Socks5Step :=
  if inn.length < 5 then ⟨.more, .connectSent, inn, []⟩
  else
    let peek := rwmFetchLookup inn 5
    match socks5AddrLen peek with
    | .none => ⟨.error, .connectSent, inn, []⟩
    | some addrLen =>
      let total := 4 + addrLen + 2
      if inn.length < total then ⟨.more, .connectSent, inn, []⟩
      else
        let rest := (rwmFetchData inn total).2
        if peek.getD 1 0 ≠ 0 then ⟨.error, .connectSent, rest, []⟩
        else ⟨.complete, .none, rest, []⟩

/-- `socks5_handle_response`. -/
def socks5HandleResponse (cfg : Socks5Config) (state : Socks5State) (inn : List UInt8) :
    Socks5Step :=
  match state with
  | .greetingSent => socks5Greeting cfg inn
  | .authSent => socks5Auth cfg inn
  | .connectSent => socks5Connect inn
  | .none => ⟨.error, .none, inn, []⟩

theorem socks5Greeting_spec (cfg : Socks5Config) (inn : List UInt8) :
    (socks5Greeting cfg inn).result ≠ .complete ∧ (socks5Greeting cfg inn).state ≠ .none := by
  unfold socks5Greeting
  dsimp only
  split_ifs <;> exact ⟨nofun, nofun⟩

variable (cfg : Socks5Config) (inn : List UInt8)

theorem socks5Auth_spec :
    (socks5Auth cfg inn).result ≠ .complete ∧ (socks5Auth cfg inn).state ≠ .none := by
  unfold socks5Auth
  dsimp only
  split_ifs <;> exact ⟨nofun, nofun⟩

theorem socks5Connect_spec :
    ((socks5Connect inn).result ≠ .complete ∧ (socks5Connect inn).state ≠ .none) ∨
      ((socks5Connect inn).result = .complete ∧ (socks5Connect inn).state = .none ∧
        (socks5Connect inn).inn.length < inn.length) := by
  unfold socks5Connect
  dsimp only
  by_cases hshort : inn.length < 5
  · rw [if_pos hshort]
    exact .inl ⟨nofun, nofun⟩
  · rw [if_neg hshort]
    cases socks5AddrLen (rwmFetchLookup inn 5) with
    | none => exact .inl ⟨nofun, nofun⟩
    | some addrLen =>
      dsimp only
      split_ifs
      · exact .inl ⟨nofun, nofun⟩
      · exact .inl ⟨nofun, nofun⟩
      · refine .inr ⟨rfl, rfl, ?_⟩
        simp only [rwmFetchData, List.length_drop]
        omega

/-- **The handshake ends exactly with the state `SOCKS5_NONE`**, and its last response uses up
bytes. -/
theorem socks5HandleResponse_spec {state : Socks5State} (hstate : state ≠ .none)
    (inn : List UInt8) :
    let r := socks5HandleResponse cfg state inn
    (r.result ≠ .complete ∧ r.state ≠ .none) ∨
      (r.result = .complete ∧ r.state = .none ∧ r.inn.length < inn.length) := by
  cases state with
  | none => exact absurd rfl hstate
  | greetingSent => exact .inl (socks5Greeting_spec cfg inn)
  | authSent => exact .inl (socks5Auth_spec cfg inn)
  | connectSent => exact socks5Connect_spec inn

end Mtbolt.Direct
