import Mtbolt.Direct.Socks5

/-!
# What a SOCKS5 handshake has consumed and sent

In the handshake of a DC connection with an upstream proxy, the proxy chooses a method, it accepts
the credentials if that method has any, and only then it is asked to connect.  `Socks5Log` lists what
has been consumed and what has been sent at each stage.
-/

namespace Mtbolt.Direct

open List

/-- Where the handshake stands: it has not begun, it waits for an answer, or it is complete. -/
inductive Socks5Stage
  | start
  | greeting
  | auth
  | connect
  | done
  deriving DecidableEq, Repr

/-- `extra_int` at each stage. -/
def Socks5Stage.state : Socks5Stage → Socks5State
  | .start => .none
  | .greeting => .greetingSent
  | .auth => .authSent
  | .connect => .connectSent
  | .done => .none

/-- A whole reply to CONNECT: four bytes, the address, whose length depends on its type, and a
port. -/
def IsConnectReply (reply : List UInt8) : Prop :=
  ∃ addrLen, socks5AddrLen reply = some addrLen ∧ reply.length = 4 + addrLen + 2

/-- The status in a reply. -/
def replyStatus (reply : List UInt8) : UInt8 := reply.getD 1 0

/-- The bytes consumed and the bytes sent up to each stage. -/
inductive Socks5Log (cfg : Socks5Config) : Socks5Stage → List UInt8 → List UInt8 → Prop
  | start : Socks5Log cfg .start [] []
  | greeting : Socks5Log cfg .greeting [] (socks5SendGreeting cfg)
  | noAuth : Socks5Log cfg .connect [5, 0] (socks5SendGreeting cfg ++ cfg.connectRequest)
  | auth (huser : cfg.user ≠ []) :
    Socks5Log cfg .auth [5, 2] (socks5SendGreeting cfg ++ socks5SendAuth cfg)
  | accepted (huser : cfg.user ≠ []) (version : UInt8) :
    Socks5Log cfg .connect [5, 2, version, 0]
      (socks5SendGreeting cfg ++ socks5SendAuth cfg ++ cfg.connectRequest)
  | done {consumed sent reply : List UInt8} (hlog : Socks5Log cfg .connect consumed sent)
    (hreply : IsConnectReply reply) (hstatus : replyStatus reply = 0) :
    Socks5Log cfg .done (consumed ++ reply) sent

/-- The answers that end the handshake with an error. -/
inductive Refused (cfg : Socks5Config) : Socks5Stage → List UInt8 → Prop
  | version {version method : UInt8} (h : version ≠ 5) : Refused cfg .greeting [version, method]
  | method {method : UInt8} (h : method ≠ 0) (h' : method = 2 → cfg.user = []) :
    Refused cfg .greeting [5, method]
  | credentials {version status : UInt8} (h : status ≠ 0) : Refused cfg .auth [version, status]
  | connect {reply : List UInt8} (hreply : IsConnectReply reply) (h : replyStatus reply ≠ 0) :
    Refused cfg .connect reply

/-- What the bytes `inn` do to a handshake: they continue it, or not yet; they are refused, or an
address in them cannot be read; or they complete it. -/
inductive Answered (cfg : Socks5Config) (stage : Socks5Stage) (consumed sent : List UInt8) :
    List UInt8 → Socks5Step → Prop
  | more (stage' : Socks5Stage) (used rest out : List UInt8)
    (hlog : Socks5Log cfg stage' (consumed ++ used) (sent ++ out)) (hstate : stage'.state ≠ .none) :
    Answered cfg stage consumed sent (used ++ rest) ⟨.more, stage'.state, rest, out⟩
  | refused (used rest : List UInt8) (h : used = [] ∨ Refused cfg stage used) :
    Answered cfg stage consumed sent (used ++ rest) ⟨.error, stage.state, rest, []⟩
  | complete (used rest : List UInt8) (hstage : stage = .connect) (hreply : IsConnectReply used)
    (hstatus : replyStatus used = 0) :
    Answered cfg stage consumed sent (used ++ rest) ⟨.complete, .none, rest, []⟩

section Responses

variable {cfg : Socks5Config} {consumed sent : List UInt8}

theorem Answered.wait {stage : Socks5Stage} (hlog : Socks5Log cfg stage consumed sent)
    (hstate : stage.state ≠ .none) (inn : List UInt8) :
    Answered cfg stage consumed sent inn ⟨.more, stage.state, inn, []⟩ := by
  have hsame : Socks5Log cfg stage (consumed ++ []) (sent ++ []) := by simpa using hlog
  exact .more stage [] inn [] hsame hstate

theorem exists_two_of_length {inn : List UInt8} (h : ¬inn.length < 2) :
    ∃ a b rest, inn = [a, b] ++ rest := by
  cases inn with
  | nil => simp at h
  | cons a tail =>
    cases tail with
    | nil => simp at h
    | cons b rest => exact ⟨a, b, rest, rfl⟩

theorem answered_socks5Greeting (hlog : Socks5Log cfg .greeting consumed sent) (inn : List UInt8) :
    Answered cfg .greeting consumed sent inn (socks5Greeting cfg inn) := by
  unfold socks5Greeting
  by_cases hshort : inn.length < 2
  · rw [if_pos hshort]
    exact .wait hlog (by decide) inn
  · obtain ⟨version, method, rest, rfl⟩ := exists_two_of_length hshort
    cases hlog
    simp only [rwmFetchData, take_left', drop_left', length_cons, length_nil,
      getD_cons_zero, getD_cons_succ]
    split_ifs with hversion hnoAuth hpassword huser
    · exact .refused [_, _] rest (.inr (.version hversion))
    · obtain rfl := not_not.1 hversion
      subst hnoAuth
      exact .more .connect [5, 0] rest _ .noAuth (by decide)
    · obtain rfl := not_not.1 hversion
      exact .refused [5, _] rest (.inr (.method hnoAuth fun _ => isEmpty_iff.1 huser))
    · obtain rfl := not_not.1 hversion
      subst hpassword
      exact .more .auth [5, 2] rest _ (.auth fun h => huser (isEmpty_iff.2 h)) (by decide)
    · obtain rfl := not_not.1 hversion
      exact .refused [5, _] rest (.inr (.method hnoAuth fun h => absurd h hpassword))

theorem answered_socks5Auth (hlog : Socks5Log cfg .auth consumed sent) (inn : List UInt8) :
    Answered cfg .auth consumed sent inn (socks5Auth cfg inn) := by
  unfold socks5Auth
  by_cases hshort : inn.length < 2
  · rw [if_pos hshort]
    exact .wait hlog (by decide) inn
  · obtain ⟨version, status, rest, rfl⟩ := exists_two_of_length hshort
    cases hlog with
    | auth huser =>
      simp only [rwmFetchData, take_left', drop_left', length_cons, length_nil,
        getD_cons_zero, getD_cons_succ]
      split_ifs with hstatus
      · exact .refused [_, _] rest (.inr (.credentials hstatus))
      · obtain rfl := not_not.1 hstatus
        exact .more .connect [version, 0] rest _ (.accepted huser version) (by decide)

theorem socks5AddrLen_take (inn : List UInt8) {n : ℕ} (h : 5 ≤ n) :
    socks5AddrLen (inn.take n) = socks5AddrLen inn := by
  have hget (i : ℕ) (hi : i < 5) : (inn.take n).getD i 0 = inn.getD i 0 := by
    rw [getD_eq_getElem?_getD, getD_eq_getElem?_getD, getElem?_take_of_lt (by omega)]
  rw [socks5AddrLen, socks5AddrLen, hget 3 (by omega), hget 4 (by omega)]

theorem replyStatus_take (inn : List UInt8) {n : ℕ} (h : 2 ≤ n) :
    replyStatus (inn.take n) = replyStatus inn := by
  rw [replyStatus, replyStatus, getD_eq_getElem?_getD, getD_eq_getElem?_getD,
    getElem?_take_of_lt (by omega)]

theorem answered_socks5Connect (hlog : Socks5Log cfg .connect consumed sent) (inn : List UInt8) :
    Answered cfg .connect consumed sent inn (socks5Connect inn) := by
  unfold socks5Connect
  by_cases hshort : inn.length < 5
  · rw [if_pos hshort]
    exact .wait hlog (by decide) inn
  · rw [if_neg hshort]
    dsimp only [rwmFetchLookup, rwmFetchData]
    rw [socks5AddrLen_take inn le_rfl]
    cases haddr : socks5AddrLen inn with
    | none => exact .refused [] inn (.inl rfl)
    | some addrLen =>
      dsimp only
      split_ifs with hpart hstatus
      · exact .wait hlog (by decide) inn
      all_goals
        have hreply : IsConnectReply (inn.take (4 + addrLen + 2)) := by
          refine ⟨addrLen, (socks5AddrLen_take inn (by omega)).trans haddr, ?_⟩
          rw [length_take, min_eq_left (not_lt.1 hpart)]
        have hsame : replyStatus (inn.take (4 + addrLen + 2)) = (inn.take 5).getD 1 0 :=
          (replyStatus_take inn (by omega)).trans (replyStatus_take inn (by omega)).symm
      · have h : Answered cfg .connect consumed sent
            (inn.take (4 + addrLen + 2) ++ inn.drop (4 + addrLen + 2))
            ⟨.error, .connectSent, inn.drop (4 + addrLen + 2), []⟩ :=
          .refused _ _ (.inr (.connect hreply (hsame ▸ hstatus)))
        rwa [take_append_drop] at h
      · have h : Answered cfg .connect consumed sent
            (inn.take (4 + addrLen + 2) ++ inn.drop (4 + addrLen + 2))
            ⟨.complete, .none, inn.drop (4 + addrLen + 2), []⟩ :=
          .complete _ _ rfl hreply (hsame.trans (not_not.1 hstatus))
        rwa [take_append_drop] at h

/-- **A response** continues the handshake, is refused, or completes it. -/
theorem answered_socks5HandleResponse {stage : Socks5Stage}
    (hlog : Socks5Log cfg stage consumed sent) (hstate : stage.state ≠ .none) (inn : List UInt8) :
    Answered cfg stage consumed sent inn (socks5HandleResponse cfg stage.state inn) := by
  cases stage with
  | start => exact absurd rfl hstate
  | greeting => exact answered_socks5Greeting hlog inn
  | auth => exact answered_socks5Auth hlog inn
  | connect => exact answered_socks5Connect hlog inn
  | done => exact absurd rfl hstate

end Responses

/-! ### What comes behind a reply -/

/-- The bytes do not begin with a whole reply of status `0` to CONNECT, or are such a reply. -/
def NothingBehind (inn : List UInt8) : Prop :=
  ∀ reply rest, inn = reply ++ rest → IsConnectReply reply → replyStatus reply = 0 → rest = []

theorem socks5Connect_append {reply : List UInt8} (hreply : IsConnectReply reply)
    (hstatus : replyStatus reply = 0) (rest : List UInt8) :
    socks5Connect (reply ++ rest) = ⟨.complete, .none, rest, []⟩ := by
  obtain ⟨addrLen, haddr, hlen⟩ := hreply
  have htake (n : ℕ) (hn : n ≤ reply.length) : (reply ++ rest).take n = reply.take n :=
    take_append_of_le_length hn
  have hstatus' : (reply.take 5).getD 1 0 = 0 := (replyStatus_take reply (by omega)).trans hstatus
  unfold socks5Connect
  dsimp only [rwmFetchLookup, rwmFetchData]
  rw [if_neg (by rw [length_append]; omega), htake 5 (by omega),
    socks5AddrLen_take reply le_rfl, haddr]
  dsimp only
  rw [if_neg (by rw [length_append]; omega), hstatus', if_neg (not_not.2 rfl), ← hlen, drop_left]

theorem nothingBehind_iff (inn : List UInt8) :
    NothingBehind inn ↔
      ((socks5Connect inn).result = .complete → (socks5Connect inn).inn = []) := by
  constructor
  · intro h hresult
    have hlog : Socks5Log ⟨true, [], [], []⟩ .connect _ _ := .noAuth
    have hanswered := answered_socks5Connect hlog inn
    generalize socks5Connect inn = r at hanswered hresult ⊢
    cases hanswered with
    | more => cases hresult
    | refused => cases hresult
    | complete used rest _ hreply hstatus => exact h used rest rfl hreply hstatus
  · rintro h reply rest rfl hreply hstatus
    rw [socks5Connect_append hreply hstatus] at h
    exact h rfl

instance (inn : List UInt8) : Decidable (NothingBehind inn) :=
  decidable_of_iff _ (nothingBehind_iff inn).symm

end Mtbolt.Direct
