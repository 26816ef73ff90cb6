import Mtbolt.Lib.Session
import Mtbolt.Rpc.Client

/-!
# The handshake of an outbound RPC connection

The nonce packet of the other side fixes the keys of a connection, its handshake packet confirms
them, and only then packets are handed to `execute`.  A connection that may not be unencrypted
goes through the stages of such a session, whatever the other side sends.
-/

namespace Mtbolt.Rpc

open EventRun Net Session Words List

variable {κ : Type} {env : RpcEnv κ} {flags : CryptoFlags}

/-- The connections on which the passes of the parsing loop begin. -/
def clientPasses (env : RpcEnv κ) : ℕ → RpcConn κ → List (RpcConn κ)
  | 0, _ => []
  | fuel + 1, c =>
    c :: match rpccPass env c with
      | .stop _ _ => []
      | .again c' => clientPasses env fuel c'

/-- A pass hands the packet to `execute`: it logs a packet that has no negative number. -/
def ClientExecutes (env : RpcEnv κ) (c : RpcConn κ) (p : Packet κ) : Prop :=
  ∃ c', rpccPass env c = .again c' ∧ c'.data.handled = c.data.handled ++ [p] ∧ 0 ≤ p.num.toInt

/-! ### The two packets -/

/-- The Diffie-Hellman share in a nonce packet. -/
def dhShare (p : List UInt8) : List UInt8 := (p.drop (40 + 4 * (extraKeysCount p).toNat)).take 256

/-- The nonce in a nonce packet. -/
def cryptoNonce (p : List UInt8) : List UInt8 := (p.drop 16).take 16

/-- The Diffie-Hellman secret in the keys: that of the share in the nonce packet, or none where the
exchange may be left out. -/
def TempKey (flags : CryptoFlags) (dhRound : List UInt8 → Option (List UInt8))
    (p temp : List UInt8) : Prop :=
  dhRound (dhShare p) = some temp ∨
    temp = [] ∧ ¬ (flags.reqDh = true ∧ flags.allowSkipDh = false)

/-- What it takes to accept the nonce packet, and the keys that follow from it; the handshake
packet is accepted with these keys. -/
def clientRules (env : RpcEnv κ) (flags : CryptoFlags) : Rules (Packet κ) κ where
  keyed p keys := p.num = -2 ∧
    ∃ c temp, 0 ≤ (tcpRpccProcessNoncePacket env c p.message).2 ∧
      (tcpRpccProcessNoncePacket env c p.message).1.crypto = some keys ∧
      env.aesCreateKeys (cryptoNonce p.message) c.data.nonceTime temp = some keys ∧
      TempKey flags env.dhThirdRound p.message temp
  confirmed p keys := p.num = -1 ∧
    ∃ c, 0 ≤ (tcpRpccProcessHandshakePacket env c p.message).2 ∧ c.crypto = some keys
  carried p := 0 ≤ p.num.toInt

theorem not_accepted {α : Type*} {a : Prop} {x : α} {res : ℤ} (hres : res < 0)
    (h : 0 ≤ (x, res).2) : a :=
  absurd h (not_le.2 hres)

variable {c : RpcConn κ} {p : List UInt8} {keys : κ} {es : List RpcEvent}

theorem startAes_accepted {keySelect : BitVec 32}
    {dh : Option (List UInt8)} (h : 0 ≤ (startAes env c p keySelect dh).2) :
    ∃ temp keys, dh.elim (some []) env.dhThirdRound = some temp ∧
      env.aesCreateKeys (cryptoNonce p) c.data.nonceTime temp = some keys ∧
      (c.data.cryptoFlags.reqDh = true → c.data.cryptoFlags.allowSkipDh = false → dh ≠ none) ∧
      (startAes env c p keySelect dh).1 = { c with
        crypto := some keys, data := { c.data with cryptoTemp := false, lastBlock := [] } } := by
  unfold startAes at h ⊢
  split_ifs at h ⊢ with hkey henc htime hdh
  · exact not_accepted (by decide) h
  · exact not_accepted (by decide) h
  · exact not_accepted (by decide) h
  · exact not_accepted (by decide) h
  · cases htemp : dh.elim (some []) env.dhThirdRound with
    | none =>
      rw [htemp] at h
      exact not_accepted (by decide) h
    | some temp =>
      rw [htemp] at h
      dsimp only at h ⊢
      cases hstart : tcpRpccStartCrypto env { c with data := { c.data with cryptoTemp := false } }
          ((p.drop 16).take 16) keySelect temp with
      | none =>
        rw [hstart] at h
        exact not_accepted (by decide) h
      | some c' =>
        unfold tcpRpccStartCrypto at hstart
        split_ifs at hstart
        obtain ⟨keys, hkeys, rfl⟩ := Option.map_eq_some_iff.1 hstart
        refine ⟨temp, keys, rfl, hkeys, fun hreq hskip hnone => ?_, rfl⟩
        exact hdh ⟨hreq, by rw [hskip]; rfl, hnone⟩

theorem length_of_nonce_accepted (h : 0 ≤ (tcpRpccProcessNoncePacket env c p).2) :
    32 ≤ p.length := by
  unfold tcpRpccProcessNoncePacket at h
  split_ifs at h with hfirst hlength
  · exact not_accepted (by decide) h
  · exact not_accepted (by decide) h
  · omega

theorem nonce_accepted (hunenc : c.data.cryptoFlags.allowUnenc = false)
    (h : 0 ≤ (tcpRpccProcessNoncePacket env c p).2) :
    ∃ temp keys, env.aesCreateKeys (cryptoNonce p) c.data.nonceTime temp = some keys ∧
      TempKey c.data.cryptoFlags env.dhThirdRound p temp ∧
      (tcpRpccProcessNoncePacket env c p).1 = { c with
        crypto := some keys, data := { c.data with cryptoTemp := false, lastBlock := [] } } := by
  have hwithout {keySelect : BitVec 32} (h : 0 ≤ (startAes env c p keySelect none).2) :
      ∃ temp keys, env.aesCreateKeys (cryptoNonce p) c.data.nonceTime temp = some keys ∧
        TempKey c.data.cryptoFlags env.dhThirdRound p temp ∧
        (startAes env c p keySelect none).1 = { c with
          crypto := some keys, data := { c.data with cryptoTemp := false, lastBlock := [] } } := by
    obtain ⟨temp, keys, ⟨rfl⟩, hkeys, hdh, hresult⟩ := startAes_accepted h
    exact ⟨[], keys, hkeys, .inr ⟨rfl, fun hreq => hdh hreq.1 hreq.2 rfl⟩, hresult⟩
  unfold tcpRpccProcessNoncePacket at h ⊢
  split_ifs at h ⊢
  · exact not_accepted (by decide) h
  · exact not_accepted (by decide) h
  · cases hschema : CryptoSchema.ofWord (word p 8) with
    | none =>
      rw [hschema] at h
      exact not_accepted (by decide) h
    | some schema =>
      rw [hschema] at h
      dsimp only at h ⊢
      split_ifs at h ⊢
      · cases schema with
        | none =>
          rw [applySchema, hunenc, if_neg Bool.false_ne_true] at h
          split_ifs at h
          · exact not_accepted (by decide) h
          · exact not_accepted (by decide) h
        | aes => exact hwithout h
        | aesExt => exact hwithout h
        | aesDh =>
          rw [applySchema] at h ⊢
          split_ifs at h ⊢
          · exact not_accepted (by decide) h
          · exact not_accepted (by decide) h
          · obtain ⟨temp, keys, htemp, hkeys, -, hresult⟩ := startAes_accepted h
            have hpart : 36 + 4 * (extraKeysCount p).toNat + 4 =
                40 + 4 * (extraKeysCount p).toNat := by omega
            rw [hpart] at htemp
            exact ⟨temp, keys, hkeys, .inl htemp, hresult⟩
      · exact not_accepted (by decide) h

/-! ### Stages -/

/-- The number of the next packet at a stage.  After `0x7fffffff` there is none that is accepted. -/
def StageNum {π : Type} : Stage π κ → BitVec 32 → Prop
  | .waiting, num => num = -2
  | .keyed _ _, num => num = -1
  | .running _ _ _ _, num => num.toNat ≤ 2 ^ 31

/-- A number at the last stage is that of a message, or `-0x80000000`, which is refused. -/
theorem StageNum.cases {num : BitVec 32} (hle : num.toNat ≤ 2 ^ 31) :
    (num.toInt < 0 ∧ num ≠ -2 ∧ num ≠ -1) ∨ (¬ num.toInt < 0 ∧ (num + 1).toNat ≤ 2 ^ 31) := by
  have hint := BitVec.toInt_eq_toNat_cond num
  by_cases hlast : num.toNat = 2 ^ 31
  · have hnum : num = BitVec.ofNat 32 (2 ^ 31) := BitVec.eq_of_toNat_eq hlast
    rw [hnum]
    exact .inl (by decide)
  · refine .inr ⟨?_, ?_⟩
    · split_ifs at hint <;> omega
    · simp
      omega

/-- The connection is at a stage. -/
structure ClientAt (env : RpcEnv κ) (flags : CryptoFlags) (c : RpcConn κ)
    (s : Stage (Packet κ) κ) : Prop where
  reachable : Reachable (clientRules env flags) s
  flags : c.data.cryptoFlags = flags
  log : c.data.handled = s.log
  keys : c.crypto = s.keys
  num : StageNum s c.data.inPacketNum

/-- Between events a connection has failed or is at a stage. -/
def Settled (env : RpcEnv κ) (flags : CryptoFlags) (c : RpcConn κ) : Prop :=
  c.failed = true ∨ ∃ s, ClientAt env flags c s

/-- The end of a pass that began at the stage `s`. -/
def PassResult.Staged (env : RpcEnv κ) (flags : CryptoFlags) (s : Stage (Packet κ) κ) :
    PassResult κ → Prop
  | .stop c _ => Settled env flags c
  | .again c => ∃ s', ClientAt env flags c s' ∧ (s' = s ∨ Step (clientRules env flags) s s')

variable {c c' : RpcConn κ} {s : Stage (Packet κ) κ}

theorem ClientAt.congr (hc : ClientAt env flags c s) (hflags : c'.data.cryptoFlags = flags)
    (hlog : c'.data.handled = c.data.handled) (hkeys : c'.crypto = c.crypto)
    (hnum : c'.data.inPacketNum = c.data.inPacketNum) : ClientAt env flags c' s :=
  ⟨hc.reachable, hflags, hlog.trans hc.log, hkeys.trans hc.keys, hnum ▸ hc.num⟩

theorem Settled.congr (hc : Settled env flags c) (hfailed : c'.failed = c.failed)
    (hdata : c'.data = c.data) (hkeys : c'.crypto = c.crypto) : Settled env flags c' := by
  rcases hc with hc | ⟨s, hc⟩
  · exact .inl (hfailed.trans hc)
  · exact .inr ⟨s, hc.congr (hdata ▸ hc.flags) (congrArg _ hdata) hkeys (congrArg _ hdata)⟩

theorem cryptoFlags_sendHandshake (env : RpcEnv κ) (c : RpcConn κ) :
    (tcpRpccSendHandshakePacket env c).data.cryptoFlags = c.data.cryptoFlags := by
  unfold tcpRpccSendHandshakePacket
  split <;> rfl

theorem cryptoFlags_processHandshake (env : RpcEnv κ) (c : RpcConn κ) (p : List UInt8) :
    (tcpRpccProcessHandshakePacket env c p).1.data.cryptoFlags = c.data.cryptoFlags := by
  repeat' refine iteInduction (motive := fun r : RpcConn κ × ℤ =>
    r.1.data.cryptoFlags = c.data.cryptoFlags) (fun _ => ?_) fun _ => ?_
  all_goals rfl

variable {packet p : Packet κ}

/-- **The first packet**: the nonce is refused, or the keys are installed. -/
theorem staged_nonce (hflags : flags.allowUnenc = false) (hc : ClientAt env flags c .waiting)
    (hnum : packet.num = c.data.inPacketNum) :
    (handlePacket env c packet packet.message).Staged env flags .waiting := by
  have hnonce : packet.num = -2 := hnum.trans hc.num
  have hneg : packet.num.toInt < 0 := by
    rw [hnonce]
    decide
  rw [handlePacket, if_pos hneg, if_pos hnonce]
  by_cases hres : 0 ≤ (tcpRpccProcessNoncePacket env (countPacket c packet) packet.message).2
  · have hunenc : (countPacket c packet).data.cryptoFlags.allowUnenc = false := by
      rw [show (countPacket c packet).data.cryptoFlags = flags from hc.flags, hflags]
    obtain ⟨temp, keys, hkeys, hdh, hresult⟩ := nonce_accepted hunenc hres
    rw [show (countPacket c packet).data.cryptoFlags = flags from hc.flags] at hdh
    obtain ⟨hsame, hcrypto⟩ := sendHandshake_spec env
      (tcpRpccProcessNoncePacket env (countPacket c packet) packet.message).1
    have hstep : Step (clientRules env flags) .waiting (.keyed packet keys) :=
      .key ⟨hnonce, _, temp, hres, by rw [hresult], hkeys, hdh⟩
    rw [if_pos hres]
    refine ⟨.keyed packet keys, ⟨hc.reachable.tail hstep, ?_, ?_, ?_, ?_⟩, .inr hstep⟩
    · rw [cryptoFlags_sendHandshake, hresult]
      exact hc.flags
    · rw [hsame.handled, hresult]
      exact congrArg (· ++ [packet]) hc.log
    · rw [hcrypto, hresult]
      rfl
    · rw [hsame.inPacketNum, hresult]
      exact congrArg (· + 1) hc.num
  · rw [if_neg hres, if_pos (not_le.1 hres)]
    exact .inl rfl

/-- **The second packet**: the handshake is refused, or the session runs. -/
theorem staged_handshake {first : Packet κ}
    (hc : ClientAt env flags c (.keyed first keys)) (hnum : packet.num = c.data.inPacketNum) :
    (handlePacket env c packet packet.message).Staged env flags (.keyed first keys) := by
  have hminus : packet.num = -1 := hnum.trans hc.num
  have hneg : packet.num.toInt < 0 := by
    rw [hminus]
    decide
  have hne : packet.num ≠ -2 := by
    rw [hminus]
    decide
  rw [handlePacket, if_pos hneg, if_neg hne, if_pos hminus]
  by_cases hres : 0 ≤ (tcpRpccProcessHandshakePacket env (countPacket c packet) packet.message).2
  · obtain ⟨hsame, hcrypto⟩ := processHandshake_spec env (countPacket c packet) packet.message
    have hstep : Step (clientRules env flags) (.keyed first keys) (.running first packet [] keys) :=
      .confirm ⟨hminus, _, hres, hc.keys⟩
    rw [if_neg (not_lt.2 hres)]
    refine ⟨.running first packet [] keys, ⟨hc.reachable.tail hstep, ?_, ?_, ?_, ?_⟩, .inr hstep⟩
    · exact (cryptoFlags_processHandshake env _ _).trans hc.flags
    · rw [hsame.handled]
      exact congrArg (· ++ [packet]) hc.log
    · exact hcrypto.trans hc.keys
    · rw [hsame.inPacketNum]
      have hzero : (countPacket c packet).data.inPacketNum = 0 := congrArg (· + 1) hc.num
      rw [hzero]
      exact Nat.zero_le _
  · rw [if_pos (not_le.1 hres)]
    exact .inl rfl

/-- **Every later packet** goes to `execute`, as long as its number is not negative. -/
theorem staged_user {first second : Packet κ} {rest : List (Packet κ)}
    (hc : ClientAt env flags c (.running first second rest keys))
    (hnum : packet.num = c.data.inPacketNum) :
    (handlePacket env c packet packet.message).Staged env flags
      (.running first second rest keys) := by
  have hle : packet.num.toNat ≤ 2 ^ 31 := hnum ▸ hc.num
  rcases StageNum.cases hle with ⟨hneg, hne⟩ | ⟨hpos, hlt⟩
  · rw [handlePacket, if_pos hneg, if_neg hne.1, if_neg hne.2]
    exact .inl rfl
  · have hnext : (c.data.inPacketNum + 1).toNat ≤ 2 ^ 31 := hnum ▸ hlt
    have hstep : Step (clientRules env flags) (.running first second rest keys)
        (.running first second (rest ++ [packet]) keys) := .carry (not_lt.1 hpos)
    have hcount : ClientAt env flags (countPacket c packet)
        (.running first second (rest ++ [packet]) keys) :=
      ⟨hc.reachable.tail hstep, hc.flags, congrArg (· ++ [packet]) hc.log, hc.keys, hnext⟩
    rw [handlePacket, if_neg hpos]
    refine ⟨_, ?_, .inr hstep⟩
    split_ifs
    · exact hcount.congr hcount.flags rfl rfl rfl
    · exact hcount

theorem staged_handlePacket (hflags : flags.allowUnenc = false) (hc : ClientAt env flags c s)
    (hnum : packet.num = c.data.inPacketNum) :
    (handlePacket env c packet packet.message).Staged env flags s := by
  cases s with
  | waiting => exact staged_nonce hflags hc hnum
  | keyed first keys => exact staged_handshake hc hnum
  | running first second rest keys => exact staged_user hc hnum

theorem clientAt_pass (hflags : flags.allowUnenc = false) (hc : ClientAt env flags c s) :
    (rpccPass env c).Staged env flags s := by
  have hdrop (n : ℕ) : ClientAt env flags { c with inn := c.inn.drop n } s :=
    hc.congr hc.flags rfl rfl rfl
  have hfail (c : RpcConn κ) : Settled env flags (failConnection c) := .inl rfl
  refine iteInduction (fun _ => .inr ⟨s, hc⟩) fun _ => ?_
  refine iteInduction (fun _ => .inr ⟨s, hc⟩) fun _ => ?_
  refine iteInduction (fun _ => hfail _) fun _ => ?_
  refine iteInduction (fun _ => ⟨s, hdrop 4, .inl rfl⟩) fun _ => ?_
  refine iteInduction (fun _ => hfail _) fun _ => ?_
  refine iteInduction (fun _ => .inr ⟨s, hc⟩) fun _ => ?_
  refine iteInduction (fun _ => hfail _) fun _ => ?_
  refine iteInduction (fun _ => hfail _) fun hnum => ?_
  exact staged_handlePacket hflags (hdrop _) (not_not.1 hnum)

theorem settled_parseExecute (hflags : flags.allowUnenc = false) (hc : Settled env flags c)
    (hfailed : c.failed = false) : Settled env flags (tcpRpccParseExecute env c).1 := by
  rcases hc with hc | hc
  · rw [hfailed] at hc
    cases hc
  · refine parseLoop_rule (fun _ => .inr) (fun c c' res hc h => ?_) (fun c c' hc h => ?_) _ hc
    all_goals
      obtain ⟨s, hc⟩ := hc
      have hpass := clientAt_pass hflags hc
      rw [h] at hpass
    · exact hpass
    · obtain ⟨s', hc', -⟩ := hpass
      exact ⟨s', hc'⟩

/-! ### Runs -/

theorem Settled.popAll (hc : Settled env flags c) : Settled env flags c.popAll := by
  unfold ConnInfo.popAll
  split_ifs
  · exact hc.congr rfl rfl rfl
  · exact hc.congr rfl rfl rfl

theorem Settled.decrypt (hc : Settled env flags c) :
    Settled env flags (cpuTcpAesCryptoDecryptInput env c).1 := by
  unfold cpuTcpAesCryptoDecryptInput
  split
  · exact hc
  · rcases hc with hc | ⟨s, hc⟩
    · exact .inl hc
    · exact .inr ⟨s, hc.congr hc.flags rfl rfl rfl⟩

theorem Settled.applySkip (hc : Settled env flags c) : Settled env flags c.applySkip :=
  hc.congr c.failed_applySkip c.data_applySkip c.crypto_applySkip

section

variable (hflags : flags.allowUnenc = false)
include hflags

theorem settled_parse (c : RpcConn κ) (hc : Settled env flags c) (hopen : c.blocked = false) :
    Settled env flags ((ctTcpRpcClient env).parseExecute c).1 := by
  simp only [ConnInfo.blocked, Bool.or_eq_false_iff] at hopen
  exact settled_parseExecute hflags hc hopen.1.1.2

theorem settled_step {e : RpcEvent} (hc : Settled env flags c)
    (h : rpccStep env flags c e = some c') : Settled env flags c' := by
  cases e with
  | receive raw =>
    cases h
    exact hc.congr rfl rfl rfl
  | run =>
    cases h
    exact reader_invariant (fun _ hc => hc.popAll) (fun _ hc _ => hc.decrypt)
      (fun _ hc => hc.applySkip) (fun _ _ hc => hc.congr rfl rfl rfl) (settled_parse hflags) hc
  | connected nonceTime =>
    cases h
    rcases hc with hc | ⟨s, hc⟩
    · exact .inl hc
    · exact .inr ⟨s, hc.congr rfl rfl rfl rfl⟩
  | write outBytes =>
    cases h
    rcases hc with hc | ⟨s, hc⟩
    · exact .inl hc
    · exact .inr ⟨s, hc.congr hc.flags rfl rfl rfl⟩
  | fail =>
    cases h
    exact .inl rfl

theorem settled_run
    (hrun : run (rpccStep env flags) (tcpRpccInitOutbound flags) es = some c) :
    Settled env flags c := by
  have hstart : Settled env flags (tcpRpccInitOutbound flags) :=
    .inr ⟨.waiting, .refl, rfl, rfl, rfl, rfl⟩
  exact run_invariant (fun _ _ _ hc _ h => settled_step hflags hc h) hstart (along_true _ es) hrun

theorem clientAt_passes {fuel : ℕ} (hc : ClientAt env flags c s) :
    ∀ c' ∈ clientPasses env fuel c, ∃ s', ClientAt env flags c' s' := by
  induction fuel generalizing c s with
  | zero => exact fun c' h => absurd h not_mem_nil
  | succ fuel ih =>
    intro c' hc'
    have hpass := clientAt_pass hflags hc
    rcases mem_cons.1 hc' with rfl | hlater
    · exact ⟨s, hc⟩
    · cases hres : rpccPass env c with
      | stop c₁ res =>
        rw [hres] at hlater
        cases hlater
      | again c₁ =>
        rw [hres] at hpass hlater
        obtain ⟨s₁, hc₁, -⟩ := hpass
        exact ih hc₁ c' hlater

end

/-- A step that takes a packet without a negative number leaves the last stage, when the two
packets of the handshake have negative numbers. -/
theorem running_of_log {R : Rules (Packet κ) κ} {s s' : Stage (Packet κ) κ}
    (hcase : s' = s ∨ Step R s s') (hkeyed : ∀ p keys, R.keyed p keys → p.num.toInt < 0)
    (hconfirmed : ∀ p keys, R.confirmed p keys → p.num.toInt < 0) (hlog : s'.log = s.log ++ [p])
    (hnum : 0 ≤ p.num.toInt) : ∃ first second rest keys, s = .running first second rest keys := by
  rcases hcase with rfl | hstep
  · exact absurd (self_eq_append_right.1 hlog) (cons_ne_nil p [])
  · obtain ⟨p', hp', hplace⟩ := hstep.log
    rw [hp'] at hlog
    obtain rfl : p' = p := singleton_inj.1 (append_cancel_left hlog)
    rcases hplace with ⟨keys, h⟩ | ⟨keys, h⟩ | hrunning
    · exact absurd hnum (not_le.2 (hkeyed p' keys h))
    · exact absurd hnum (not_le.2 (hconfirmed p' keys h))
    · exact hrunning

theorem running_of_executes (hflags : flags.allowUnenc = false) (hc : ClientAt env flags c s)
    (hexec : ClientExecutes env c p) :
    ∃ first second rest keys, s = .running first second rest keys := by
  obtain ⟨c', hpass, hlog, hnum⟩ := hexec
  have hstaged := clientAt_pass hflags hc
  rw [hpass] at hstaged
  obtain ⟨s', hc', hcase⟩ := hstaged
  rw [hc'.log, hc.log] at hlog
  refine running_of_log hcase (fun q keys h => ?_) (fun q keys h => ?_) hlog hnum
  · rw [h.1]
    decide
  · rw [h.1]
    decide

/-- **`execute` is called at the last stage only**, on an outbound connection that may not be
unencrypted. -/
theorem client_executes (hflags : flags.allowUnenc = false)
    (hrun : run (rpccStep env flags) (tcpRpccInitOutbound flags) es = some c) {c₁ c₂ : RpcConn κ}
    (hc₁ : c₁ ∈ readerCalls (ctTcpRpcClient env) c)
    (hc₂ : c₂ ∈ clientPasses env (c₁.inn.length + 1) c₁) (hexec : ClientExecutes env c₂ p) :
    ∃ first second rest keys, c₂.data.handled = first :: second :: rest ∧
      c₂.crypto = some keys ∧ (clientRules env flags).keyed first keys ∧
      (clientRules env flags).confirmed second keys ∧
      ∀ q ∈ rest, (clientRules env flags).carried q := by
  obtain ⟨hsettled, hopen⟩ := readerCalls_invariant (fun _ hc => Settled.popAll hc)
    (fun _ hc _ => Settled.decrypt hc) (fun _ hc => Settled.applySkip hc) (settled_parse hflags)
    (settled_run hflags hrun) c₁ hc₁
  simp only [ConnInfo.blocked, Bool.or_eq_false_iff] at hopen
  rcases hsettled with hfailed | ⟨s, hc⟩
  · rw [hopen.1.1.2] at hfailed
    cases hfailed
  · obtain ⟨s', hc'⟩ := clientAt_passes hflags hc c₂ hc₂
    obtain ⟨first, second, rest, keys, rfl⟩ := running_of_executes hflags hc' hexec
    obtain ⟨hkeyed, hconfirmed, hcarried⟩ := hc'.reachable.accepted
    exact ⟨first, second, rest, keys, hc'.log, hc'.keys, hkeyed, hconfirmed, hcarried⟩

end Mtbolt.Rpc
