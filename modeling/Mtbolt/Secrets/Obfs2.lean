import Mtbolt.Lib.EventRun
import Mtbolt.Lib.Words
import Mtbolt.Secrets.Table

/-!
# The obfuscated2 header

A client proves that it knows a secret by a 64-byte header that decrypts to a transport tag under
a key derived from the secret.  `obfs2_parse_header` (`net-obfs2-parse.c`) tries a list of
secrets; `tcp_rpcs_compact_parse_execute` hands it the secrets of the slots in use and translates
the index it answers back to a slot.  With an empty list the parser works without secrets.
-/

namespace Mtbolt.Secrets

open EventRun Words List

/-- `OBFS2_TAG_PAD`, `OBFS2_TAG_MEDIUM` and `OBFS2_TAG_COMPACT`. -/
def tagPad : BitVec 32 := 0xdddddddd#32
def tagMedium : BitVec 32 := 0xeeeeeeee#32
def tagCompact : BitVec 32 := 0xefefefef#32

/-- The settings that the handshake reads: `ext_rand_pad_only` and `allow_only_tls`. -/
structure TransportConfig where
  randPadOnly : Bool
  allowOnlyTls : Bool
  deriving DecidableEq, Repr

/-- `tls_transport_is_strict_only`. -/
def TransportConfig.strictOnly (cfg : TransportConfig) : Bool :=
  cfg.allowOnlyTls && !cfg.randPadOnly

/-- The tags that `obfs2_parse_header` accepts. -/
def TransportConfig.accepts (cfg : TransportConfig) (tag : BitVec 32) : Bool :=
  tag == tagPad || ((tag == tagMedium || tag == tagCompact) && !cfg.randPadOnly)

/-- `struct aes_key_data`. -/
structure AesKeyData where
  readKey : List UInt8
  readIv : List UInt8
  writeKey : List UInt8
  writeIv : List UInt8
  deriving DecidableEq, Repr

/-- `struct obfs2_parse_result`. -/
structure Obfs2Result where
  tag : BitVec 32
  dc : ℤ
  secretId : ℕ
  keys : AesKeyData
  deriving DecidableEq, Repr

section Crypto

variable (sha256 : List UInt8 → List UInt8)
variable (aesCtr : List UInt8 → List UInt8 → List UInt8 → List UInt8)
variable (cfg : TransportConfig)

/-- A key of the header, mixed with the secret if there is one. -/
def deriveKey (secret : Option (List UInt8)) (key : List UInt8) : List UInt8 :=
  match secret with
  | some k => sha256 (key ++ k)
  | none => key

/-- The keys that a header and a secret determine. -/
def obfs2Keys (header : List UInt8) (secret : Option (List UInt8)) : AesKeyData where
  readKey := deriveKey sha256 secret ((header.drop 8).take 32)
  readIv := (header.drop 40).take 16
  writeKey := deriveKey sha256 secret ((header.drop 24).take 32).reverse
  writeIv := ((header.drop 8).take 16).reverse

/-- The header, decrypted under the read key. -/
def decryptHeader (header : List UInt8) (secret : Option (List UInt8)) : List UInt8 :=
  let kd := obfs2Keys sha256 header secret
  aesCtr kd.readKey kd.readIv header

/-- The tag of the decrypted header. -/
def headerTag (header : List UInt8) (secret : Option (List UInt8)) : BitVec 32 :=
  le32 ((decryptHeader sha256 aesCtr header secret).drop 56)

/-- The result for a secret that fits. -/
def obfs2Result (header : List UInt8) (secret : Option (List UInt8)) (sid : ℕ) : Obfs2Result where
  tag := headerTag sha256 aesCtr header secret
  dc := (BitVec.ofNat 16 (leNat (((decryptHeader sha256 aesCtr header secret).drop 60).take 2))).toInt
  secretId := sid
  keys := obfs2Keys sha256 header secret

/-- The loop of `obfs2_parse_header` over the secrets from index `sid` on. -/
def parseLoop (header : List UInt8) : ℕ → List (Option (List UInt8)) → Option Obfs2Result
  | _, [] => none
  | sid, secret :: secrets =>
    if cfg.accepts (headerTag sha256 aesCtr header secret) then
      some (obfs2Result sha256 aesCtr header secret sid)
    else parseLoop header (sid + 1) secrets

/-- `obfs2_parse_header`: with no secret there is one iteration, on the keys of the header. -/
def obfs2ParseHeader (header : List UInt8) (secrets : List (List UInt8)) : Option Obfs2Result :=
  parseLoop sha256 aesCtr cfg header 0 (if secrets.length > 0 then secrets.map some else [none])

/-- `compact_to_slot`: the slots in use, in order. -/
def compactToSlot (t : SecretTable) : List ℕ :=
  (List.range t.cnt).filter fun s => (t.slot s).state ≠ .free

/-- The obfuscated2 step of `tcp_rpcs_compact_parse_execute`: the slot the client is bound to and
the keys that are installed, `none` if the client does not pass.  The array `compact_to_slot` is
not initialised, so an index past its entries reads an arbitrary value `junk`. -/
def obfs2Step (t : SecretTable) (junk : ℕ) (header : List UInt8) : Option (ℕ × Obfs2Result) :=
  match obfs2ParseHeader sha256 aesCtr cfg header
      ((compactToSlot t).map fun s => (t.slot s).key) with
  | none => none
  | some pr =>
    if pr.tag ≠ tagPad ∧ cfg.strictOnly then none
    else some ((compactToSlot t).getD pr.secretId junk, pr)

/-- The header decrypts to an accepted tag under the secret. -/
def Fits (header : List UInt8) (secret : Option (List UInt8)) : Prop :=
  cfg.accepts (headerTag sha256 aesCtr header secret) = true

/-- `s` is the lowest slot in use whose secret fits the header. -/
def LowestFitting (t : SecretTable) (header : List UInt8) (s : ℕ) : Prop :=
  (t.slot s).state ≠ .free ∧ Fits sha256 aesCtr cfg header (some (t.slot s).key) ∧
    ∀ s' < s, (t.slot s').state ≠ .free → ¬ Fits sha256 aesCtr cfg header (some (t.slot s').key)

/-- Whatever `compact_to_slot` held, a client that passes with this header is bound to the lowest
slot in use whose secret fits. -/
def Authenticated (t : SecretTable) (header : List UInt8) : Prop :=
  ∀ junk s pr, obfs2Step sha256 aesCtr cfg t junk header = some (s, pr) →
    LowestFitting sha256 aesCtr cfg t header s

end Crypto

variable {sha256 : List UInt8 → List UInt8}
variable {aesCtr : List UInt8 → List UInt8 → List UInt8 → List UInt8}
variable {cfg : TransportConfig}

/-! ### The loop over the secrets -/

variable {header : List UInt8} {t : SecretTable}

/-- The loop answers the first secret that fits: all before it do not. -/
theorem parseLoop_eq_some {sid : ℕ} {secrets : List (Option (List UInt8))}
    {pr : Obfs2Result} (h : parseLoop sha256 aesCtr cfg header sid secrets = some pr) :
    ∃ before secret after, secrets = before ++ secret :: after ∧
      pr = obfs2Result sha256 aesCtr header secret (sid + before.length) ∧
      Fits sha256 aesCtr cfg header secret ∧
      ∀ k ∈ before, ¬ Fits sha256 aesCtr cfg header k := by
  induction secrets generalizing sid with
  | nil => cases h
  | cons secret secrets ih =>
    rw [parseLoop] at h
    split_ifs at h with hfits
    · cases h
      exact ⟨[], secret, secrets, rfl, rfl, hfits, nofun⟩
    · obtain ⟨before, k, after, rfl, rfl, hk, hbefore⟩ := ih h
      refine ⟨secret :: before, k, after, rfl, ?_, hk, ?_⟩
      · rw [length_cons, Nat.add_right_comm, Nat.add_assoc]
      · intro k' hk'
        rcases mem_cons.1 hk' with rfl | hk'
        · exact hfits
        · exact hbefore k' hk'

theorem mem_compactToSlot {s : ℕ} : s ∈ compactToSlot t ↔ s < t.cnt ∧ (t.slot s).state ≠ .free := by
  simp [compactToSlot]

theorem obfs2Step_bound (hne : compactToSlot t ≠ []) :
    Authenticated sha256 aesCtr cfg t header := by
  intro junk s pr h
  unfold obfs2Step obfs2ParseHeader at h
  rw [if_pos (by simpa [length_pos_iff] using hne), map_map] at h
  split at h
  · cases h
  · next pr' hparse =>
    split_ifs at h
    cases h
    obtain ⟨before, secret, after, hsplit, hpr, hfits, hbefore⟩ := parseLoop_eq_some hparse
    obtain ⟨l₁, l₂, hl, rfl, hl₂⟩ := map_eq_append_iff.1 hsplit
    obtain ⟨s, l₃, rfl, rfl, rfl⟩ := map_eq_cons_iff.1 hl₂
    have hbound : (compactToSlot t).getD pr.secretId junk = s := by
      rw [hpr, hl]
      simp [obfs2Result]
    rw [hbound]
    have hs : s < t.cnt ∧ (t.slot s).state ≠ .free := mem_compactToSlot.1 (by simp [hl])
    refine ⟨hs.2, hfits, fun s' hlt hused hfits' => ?_⟩
    -- the compacted slots are increasing, so a lower one stands before `s`
    have hs' : s' ∈ l₁ ++ s :: l₃ := hl ▸ mem_compactToSlot.2 ⟨hlt.trans hs.1, hused⟩
    have hsorted : (l₁ ++ s :: l₃).Pairwise (· < ·) := hl ▸ pairwise_lt_range.filter _
    rcases mem_append.1 hs' with hmem | hmem
    · exact hbefore _ (mem_map_of_mem hmem) hfits'
    · rcases mem_cons.1 hmem with rfl | hmem
      · exact lt_irrefl _ hlt
      · have := (pairwise_cons.1 (pairwise_append.1 hsorted).2.1).1 s' hmem
        exact lt_asymm hlt this

/-! ### Without a slot in use -/

/-- The header opens the worker without a secret: it decrypts under its own key to a tag that the
transport settings let through. -/
def OpensSecretless (sha256 : List UInt8 → List UInt8)
    (aesCtr : List UInt8 → List UInt8 → List UInt8 → List UInt8) (cfg : TransportConfig)
    (header : List UInt8) : Prop :=
  Fits sha256 aesCtr cfg header none ∧
    ¬ (headerTag sha256 aesCtr header none ≠ tagPad ∧ cfg.strictOnly = true)

theorem obfs2Step_secretless (hnil : compactToSlot t = []) (junk : ℕ)
    (header : List UInt8) :
    obfs2Step sha256 aesCtr cfg t junk header =
      if cfg.accepts (headerTag sha256 aesCtr header none) = true then
        if headerTag sha256 aesCtr header none ≠ tagPad ∧ cfg.strictOnly = true then none
        else some (junk, obfs2Result sha256 aesCtr header none 0)
      else none := by
  unfold obfs2Step obfs2ParseHeader
  rw [hnil]
  simp only [map_nil, length_nil, gt_iff_lt, lt_irrefl, if_false, parseLoop]
  by_cases hfits : cfg.accepts (headerTag sha256 aesCtr header none) = true
  · simp only [hfits, if_true]
    rfl
  · simp only [hfits]
    rfl

/-- Without a slot in use, every header that opens the worker binds its client to an arbitrary
slot. -/
theorem not_authenticated_of_opens (hnil : compactToSlot t = [])
    (hopen : OpensSecretless sha256 aesCtr cfg header) :
    ¬ Authenticated sha256 aesCtr cfg t header := by
  intro hauth
  have hstep (junk : ℕ) : obfs2Step sha256 aesCtr cfg t junk header =
      some (junk, obfs2Result sha256 aesCtr header none 0) := by
    obtain ⟨hfits, hstrict⟩ := hopen
    rw [Fits] at hfits
    rw [obfs2Step_secretless hnil, if_pos hfits, if_neg hstrict]
  obtain ⟨hused, hfits, -⟩ := hauth 0 0 _ (hstep 0)
  obtain ⟨-, -, hlowest⟩ := hauth 1 1 _ (hstep 1)
  exact hlowest 0 Nat.one_pos hused hfits

/-- **The obfuscated2 step authenticates a header exactly when a slot is in use or the header does
not open the worker without a secret.** -/
theorem obfs2_authenticated_iff (t : SecretTable) (header : List UInt8) :
    Authenticated sha256 aesCtr cfg t header ↔
      (∃ s < t.cnt, (t.slot s).state ≠ .free) ∨ ¬ OpensSecretless sha256 aesCtr cfg header := by
  by_cases hnil : compactToSlot t = []
  · have hnone : ¬ ∃ s < t.cnt, (t.slot s).state ≠ .free := by
      rintro ⟨s, hs⟩
      simpa [hnil] using mem_compactToSlot.2 hs
    rw [or_iff_right hnone]
    refine ⟨fun hauth hopen => not_authenticated_of_opens hnil hopen hauth, ?_⟩
    intro hclosed junk s pr h
    rw [obfs2Step_secretless hnil] at h
    split_ifs at h with hfits hstrict
    exact absurd ⟨hfits, hstrict⟩ hclosed
  · obtain ⟨s, hs⟩ := exists_mem_of_ne_nil _ hnil
    exact iff_of_true (obfs2Step_bound hnil) (.inl ⟨s, mem_compactToSlot.1 hs⟩)

/-! ### Runs of the table -/

/-- A configuration reload, and the release of a slot by the drain sweep. -/
inductive TableEvent
  | reload (entries : List SecretEntry)
  | release (s : ℕ)
  deriving DecidableEq, Repr

def tableStep (t : SecretTable) : TableEvent → Option SecretTable
  | .reload entries => some (reloadExtSecrets t entries).2
  | .release s => some (releaseSlotIfEmpty t s)

theorem good_tableStep (t : SecretTable) (e : TableEvent) (t' : SecretTable) (ht : t.Good)
    (h : tableStep t e = some t') : t'.Good ∧ t'.pinned = t.pinned := by
  cases e with
  | reload entries =>
    cases h
    exact ⟨good_reload ht entries, pinned_reload t entries⟩
  | release s =>
    cases h
    exact ⟨good_release ht s, pinned_release t s⟩

/-- **With a command-line secret the header always authenticates**, whatever is reloaded and
released: the pinned slots stay in use. -/
theorem authenticated_of_pinned {cli : List SecretEntry} {t₀ : SecretTable}
    (h0 : pinExtSecrets cli = some t₀) (hpin : 0 < t₀.pinned) {es : List TableEvent}
    (hrun : run tableStep t₀ es = some t) (header : List UInt8) :
    Authenticated sha256 aesCtr cfg t header := by
  have hinv : t.Good ∧ t.pinned = t₀.pinned :=
    run_invariant (I := fun t => t.Good ∧ t.pinned = t₀.pinned)
      (fun t e t' ht _ hstep =>
        ⟨(good_tableStep t e t' ht.1 hstep).1, (good_tableStep t e t' ht.1 hstep).2.trans ht.2⟩)
      ⟨(pinExtSecrets_spec h0).1, rfl⟩ (along_true t₀ es) hrun
  have hcnt := hinv.1.pinned
  refine obfs2Step_bound (ne_nil_of_mem (mem_compactToSlot (s := 0).2 ⟨by omega, ?_⟩))
  rw [hinv.1.active 0 (by omega)]
  nofun

/-- The only secret of a configuration is removed by a reload and its slot is released. -/
def onlySecretRemoved : List TableEvent :=
  [.reload [⟨List.replicate 16 7, "a", 0, 0, 0, 0, 0⟩], .reload [], .release 0]

/-- A header that carries the padded tag in clear. -/
def clearHeader : List UInt8 := List.replicate 56 0 ++ List.replicate 4 0xdd ++ [2, 0, 0, 0]

theorem authenticated_of_pinned_clearHeader :
    ∃ t₀ t, pinExtSecrets [⟨List.replicate 16 9, "b", 0, 0, 0, 0, 0⟩] = some t₀ ∧
      run tableStep t₀ onlySecretRemoved = some t ∧
      Authenticated (fun m => m.take 32) (fun _ _ d => d) ⟨false, false⟩ t clearHeader := by
  refine ⟨_, _, rfl, rfl, ?_⟩
  exact authenticated_of_pinned (rfl : pinExtSecrets [_] = _) (by decide)
    (rfl : run tableStep _ onlySecretRemoved = _) clearHeader

theorem obfs2_secretless_after_removal :
    ∃ t₀ t, pinExtSecrets [] = some t₀ ∧ run tableStep t₀ onlySecretRemoved = some t ∧
      ¬ Authenticated (fun m => m.take 32) (fun _ _ d => d) ⟨false, false⟩ t clearHeader := by
  refine ⟨_, _, rfl, rfl, not_authenticated_of_opens (by decide) ⟨?_, by decide⟩⟩
  rw [Fits]
  decide

end Mtbolt.Secrets
