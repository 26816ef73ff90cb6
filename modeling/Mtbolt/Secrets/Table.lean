import Mathlib.Tactic

/-!
# The table of client secrets

The worker keeps its secrets in 32 slots (`net-tcp-rpc-ext-server.c`, `net-tcp-rpc-ext-drain.c`).
A slot is free, active or draining; connections refer to slots by index, so a reload keeps the
slots of secrets that stay, drains the others, and only a drained slot without connections is
released.  This file has the slots with their limits and counters, the admission checks, the
tracking of client addresses, and the reload and release of slots.
-/

namespace Mtbolt.Secrets

open Function List

/-! ### Slots -/

/-- `SLOT_FREE`, `SLOT_ACTIVE`, `SLOT_DRAINING`. -/
inductive SlotState
  | free
  | active
  | draining
  deriving DecidableEq, Repr

/-- A client's `remote_ip` and `remote_ipv6`; `ip` is zero for an IPv6 client. -/
structure Addr where
  ip : ℕ
  ipv6 : ℕ
  deriving DecidableEq, Repr

/-- `struct tracked_ip`, an entry with `connections > 0`. -/
structure TrackedIp where
  addr : Addr
  connections : ℤ
  deriving DecidableEq, Repr

/-- Why a matching client is turned away. -/
inductive Rejection
  | draining
  | expired
  | limit
  | quota
  | ips
  deriving DecidableEq, Repr

/-- The arrays `ext_secret_*` and `per_secret_*` at one index.  `ips` holds the used entries of
`per_secret_ips`, `rejected` the counters `per_secret_rejected_*` (`per_secret_connections_rejected`
for the connection limit).  The last three are statistics that only reload and release touch here. -/
structure Slot where
  key : List UInt8
  label : String
  limit : ℤ
  quota : ℤ
  rateLimit : ℤ
  maxIps : ℤ
  expires : ℤ
  state : SlotState
  connections : ℤ
  connectionsCreated : ℤ
  rejected : Rejection → ℕ
  bytesReceived : ℤ
  bytesSent : ℤ
  ips : List TrackedIp
  uniqueIpCount : ℤ
  uniqueIps : ℤ
  rateLimited : ℤ
  drainForced : ℤ

/-- `EXT_SECRET_MAX_SLOTS`. -/
def maxSlots : ℕ := 32

/-- `EXT_SECRET_MAX_ACTIVE`. -/
def maxActive : ℕ := 16

/-- `SECRET_MAX_TRACKED_IPS`. -/
def maxTrackedIps : ℕ := 256

/-- A slot of all zero bytes. -/
def Slot.zero : Slot where
  key := List.replicate 16 0
  label := ""
  limit := 0
  quota := 0
  rateLimit := 0
  maxIps := 0
  expires := 0
  state := .free
  connections := 0
  connectionsCreated := 0
  rejected := fun _ => 0
  bytesReceived := 0
  bytesSent := 0
  ips := []
  uniqueIpCount := 0
  uniqueIps := 0
  rateLimited := 0
  drainForced := 0

/-- The slots, `ext_secret_cnt` and `ext_secret_pinned`. -/
structure SecretTable where
  slot : ℕ → Slot
  cnt : ℕ
  pinned : ℕ

/-- A secret as the configuration gives it. -/
structure SecretEntry where
  key : List UInt8
  label : String
  limit : ℤ
  quota : ℤ
  rateLimit : ℤ
  maxIps : ℤ
  expires : ℤ
  deriving DecidableEq, Repr

/-- A configured label, or the default for the slot. -/
def slotLabel (s : ℕ) (label : String) : String :=
  if label = "" then "secret_" ++ toString s else label

/-! ### Admission checks -/

/-- A limit divided among the workers, but at least one. -/
def effective (workers limit : ℤ) : ℤ := max (if workers > 1 then limit / workers else limit) 1

/-- `secret_over_limit`. -/
def secretOverLimit (workers : ℤ) (x : Slot) : Bool :=
  if x.limit ≤ 0 then false else x.connections ≥ effective workers x.limit

/-- `secret_expired`. -/
def secretExpired (now : ℤ) (x : Slot) : Bool := x.expires > 0 && now ≥ x.expires

/-- `secret_over_quota`. -/
def secretOverQuota (workers : ℤ) (x : Slot) : Bool :=
  if x.quota ≤ 0 then false else x.bytesReceived + x.bytesSent ≥ effective workers x.quota

/-- The comparison of a client's address with a tracked one. -/
def TrackedIp.isFor (e : TrackedIp) (addr : Addr) : Bool :=
  if addr.ip ≠ 0 then e.addr.ip = addr.ip
  else e.addr.ip = 0 && e.addr.ipv6 ≠ 0 && e.addr.ipv6 = addr.ipv6

/-- The address has an entry in the slot's table. -/
def ipTracked (x : Slot) (addr : Addr) : Bool := x.ips.any (·.isFor addr)

/-- `ip_over_limit`. -/
def ipOverLimit (workers : ℤ) (x : Slot) (addr : Addr) : Bool :=
  if x.maxIps ≤ 0 then false
  else if ipTracked x addr then false
  else x.uniqueIpCount ≥ effective workers x.maxIps

/-- The chain of checks on a client that matched a slot, the first failing one. -/
def rejection (workers now : ℤ) (x : Slot) (addr : Addr) : Option Rejection :=
  if x.state = .draining then some .draining
  else if secretExpired now x then some .expired
  else if secretOverLimit workers x then some .limit
  else if secretOverQuota workers x then some .quota
  else if ipOverLimit workers x addr then some .ips
  else none

/-! ### Address tracking -/

/-- Change the first entry for the address. -/
def updateTracked (addr : Addr) (f : TrackedIp → TrackedIp) : List TrackedIp → List TrackedIp
  | [] => []
  | e :: es => if e.isFor addr then f e :: es else e :: updateTracked addr f es

/-- `ip_track_connect`, without the cumulative Bloom filter. -/
def ipTrackConnect (x : Slot) (addr : Addr) : Slot :=
  if x.maxIps ≤ 0 ∧ x.rateLimit ≤ 0 then x
  else if ipTracked x addr then
    { x with ips := updateTracked addr (fun e => { e with connections := e.connections + 1 }) x.ips }
  else if x.ips.length < maxTrackedIps then
    { x with ips := x.ips ++ [⟨addr, 1⟩], uniqueIpCount := x.uniqueIpCount + 1 }
  else x

/-- `ip_track_disconnect_impl`. -/
def ipTrackDisconnect (x : Slot) (addr : Addr) : Slot :=
  match x.ips.find? (·.isFor addr) with
  | none => x
  | some e =>
    if e.connections - 1 ≤ 0 then
      { x with ips := x.ips.eraseP (·.isFor addr), uniqueIpCount := x.uniqueIpCount - 1 }
    else
      { x with
        ips := updateTracked addr (fun e => { e with connections := e.connections - 1 }) x.ips }

/-- The accounting of a new connection. -/
def Slot.connect (x : Slot) (addr : Addr) : Slot :=
  ipTrackConnect { x with
    connections := x.connections + 1
    connectionsCreated := x.connectionsCreated + 1 } addr

/-- The accounting of a closed connection. -/
def Slot.disconnect (x : Slot) (addr : Addr) : Slot :=
  ipTrackDisconnect { x with connections := x.connections - 1 } addr

/-- The statistics of a client turned away. -/
def Slot.reject (x : Slot) (r : Rejection) : Slot :=
  { x with rejected := update x.rejected r (x.rejected r + 1) }

/-! ### Reload and release -/

/-- The first slot from `pinned` on that meets a condition. -/
def findSlot (pinned : ℕ) (slot : ℕ → Slot) (p : Slot → Bool) : Option ℕ :=
  (List.range' pinned (maxSlots - pinned)).find? fun s => p (slot s)

/-- The slot after its secret was found in the new configuration. -/
def Slot.refresh (x : Slot) (s : ℕ) (e : SecretEntry) : Slot :=
  { x with
    label := slotLabel s e.label
    limit := e.limit
    quota := e.quota
    rateLimit := e.rateLimit
    maxIps := e.maxIps
    expires := e.expires
    state := .active }

/-- A slot for a brand-new secret. -/
def Slot.fresh (s : ℕ) (e : SecretEntry) : Slot :=
  { Slot.zero.refresh s e with key := e.key }

/-- Pass B: the entries whose key some slot in use has refresh that slot, which is then no
candidate to drain; the other entries are returned. -/
def passB (pinned : ℕ) : List SecretEntry → (ℕ → Slot) → (ℕ → Bool) →
    (ℕ → Slot) × (ℕ → Bool) × List SecretEntry
  | [], slot, candidate => (slot, candidate, [])
  | e :: es, slot, candidate =>
    match findSlot pinned slot fun x => x.state ≠ .free && x.key = e.key with
    | some s =>
      passB pinned es (update slot s ((slot s).refresh s e)) (update candidate s false)
    | none =>
      let r := passB pinned es slot candidate
      (r.1, r.2.1, e :: r.2.2)

/-- Pass C: the remaining candidates drain. -/
def passC (slot : ℕ → Slot) (candidate : ℕ → Bool) : ℕ → Slot :=
  fun s => if candidate s then { slot s with state := .draining } else slot s

/-- Pass D: each remaining entry takes the lowest free slot; `false` when there is none. -/
def passD (pinned : ℕ) : List SecretEntry → (ℕ → Slot) → Bool × (ℕ → Slot)
  | [], slot => (true, slot)
  | e :: es, slot =>
    match findSlot pinned slot fun x => x.state = .free with
    | none => (false, slot)
    | some s => passD pinned es (update slot s (Slot.fresh s e))

/-- The index after the last slot in use, at least `pinned`. -/
def highWater (pinned : ℕ) (slot : ℕ → Slot) : ℕ :=
  (List.range' pinned (maxSlots - pinned)).foldl
    (fun hw s => if (slot s).state ≠ .free ∧ s + 1 > hw then s + 1 else hw) pinned

/-- The number of pinned and of active slots. -/
def activeTotal (pinned : ℕ) (slot : ℕ → Slot) : ℕ :=
  pinned + (List.range' pinned (maxSlots - pinned)).countP fun s => (slot s).state = .active

/-- The entries that do not collide with a pinned slot. -/
def unpinnedEntries (t : SecretTable) (entries : List SecretEntry) : List SecretEntry :=
  entries.filter fun e => !(List.range t.pinned).any fun p => (t.slot p).key = e.key

/-- Pass A: the active unpinned slots are candidates to drain. -/
def drainCandidate (t : SecretTable) (s : ℕ) : Bool :=
  t.pinned ≤ s ∧ s < maxSlots ∧ (t.slot s).state = .active

/-- The passes of a reload over the slots. -/
def reloadSlots (t : SecretTable) (entries : List SecretEntry) : Bool × (ℕ → Slot) :=
  let b := passB t.pinned (unpinnedEntries t entries) t.slot (drainCandidate t)
  passD t.pinned b.2.2 (passC b.1 b.2.1)

/-- `tcp_rpcs_reload_ext_secrets`: the return value (`true` for `0`) and the table.  A failed
reload leaves the changes it has made. -/
def reloadExtSecrets (t : SecretTable) (entries : List SecretEntry) : Bool × SecretTable :=
  let r := reloadSlots t entries
  if !r.1 then (false, { t with slot := r.2 })
  else if activeTotal t.pinned r.2 > maxActive then (false, { t with slot := r.2 })
  else (true, { t with slot := r.2, cnt := highWater t.pinned r.2 })

/-- `tcp_rpcs_drain_release_slot_if_empty`. -/
def releaseSlotIfEmpty (t : SecretTable) (s : ℕ) : SecretTable :=
  if s < t.pinned ∨ s ≥ maxSlots then t
  else if (t.slot s).state ≠ .draining then t
  else if (t.slot s).connections ≠ 0 then t
  else
    let slot := update t.slot s Slot.zero
    { t with slot := slot, cnt := highWater t.pinned slot }

/-- `tcp_rpcs_set_ext_secret`, for a secret of the command line; `none` when the assertion on the
number of secrets fails. -/
def setExtSecret (t : SecretTable) (e : SecretEntry) : Option SecretTable :=
  if t.cnt < maxActive then
    some { t with slot := update t.slot t.cnt (Slot.fresh t.cnt e), cnt := t.cnt + 1 }
  else none

/-- The table of a process that was started with the given command-line secrets, which
`tcp_rpcs_pin_ext_secrets` pins. -/
def pinExtSecrets (cli : List SecretEntry) : Option SecretTable :=
  (cli.foldlM setExtSecret ⟨fun _ => Slot.zero, 0, 0⟩).map fun t => { t with pinned := t.cnt }

/-! ### What the operations keep -/

@[simp] theorem connections_connect (x : Slot) (addr : Addr) :
    (x.connect addr).connections = x.connections + 1 := by
  unfold Slot.connect ipTrackConnect
  split_ifs <;> rfl

@[simp] theorem state_connect (x : Slot) (addr : Addr) : (x.connect addr).state = x.state := by
  unfold Slot.connect ipTrackConnect
  split_ifs <;> rfl

@[simp] theorem connections_disconnect (x : Slot) (addr : Addr) :
    (x.disconnect addr).connections = x.connections - 1 := by
  unfold Slot.disconnect ipTrackDisconnect
  split
  · rfl
  · split_ifs <;> rfl

@[simp] theorem state_disconnect (x : Slot) (addr : Addr) :
    (x.disconnect addr).state = x.state := by
  unfold Slot.disconnect ipTrackDisconnect
  split
  · rfl
  · split_ifs <;> rfl

@[simp] theorem limit_connect (x : Slot) (addr : Addr) : (x.connect addr).limit = x.limit := by
  unfold Slot.connect ipTrackConnect
  split_ifs <;> rfl

variable {pinned s : ℕ} {slot : ℕ → Slot} {x : Slot} {t : SecretTable} {cli : List SecretEntry}

theorem findSlot_eq_some {p : Slot → Bool} (h : findSlot pinned slot p = some s) :
    pinned ≤ s ∧ s < maxSlots ∧ p (slot s) = true := by
  have hmem := mem_range'_1.1 (mem_of_find?_eq_some h)
  have hp := find?_some (p := fun s => p (slot s)) h
  exact ⟨hmem.1, by omega, hp⟩

/-- `y` is the same slot as `x` with the same counters; it may have changed between active and
draining, and its limits may have changed. -/
structure Slot.Kept (x y : Slot) : Prop where
  key : y.key = x.key
  connections : y.connections = x.connections
  bytes : y.bytesReceived = x.bytesReceived ∧ y.bytesSent = x.bytesSent
  ips : y.ips = x.ips ∧ y.uniqueIpCount = x.uniqueIpCount
  free : y.state = .free ↔ x.state = .free
  eq_of_free : x.state = .free → y = x

theorem Slot.Kept.refl (x : Slot) : x.Kept x :=
  ⟨rfl, rfl, ⟨rfl, rfl⟩, ⟨rfl, rfl⟩, Iff.rfl, fun _ => rfl⟩

theorem Slot.Kept.trans {y z : Slot} (hxy : x.Kept y) (hyz : y.Kept z) : x.Kept z where
  key := hyz.key.trans hxy.key
  connections := hyz.connections.trans hxy.connections
  bytes := ⟨hyz.bytes.1.trans hxy.bytes.1, hyz.bytes.2.trans hxy.bytes.2⟩
  ips := ⟨hyz.ips.1.trans hxy.ips.1, hyz.ips.2.trans hxy.ips.2⟩
  free := hyz.free.trans hxy.free
  eq_of_free := fun h => (hyz.eq_of_free (hxy.free.2 h)).trans (hxy.eq_of_free h)

theorem kept_refresh (hx : x.state ≠ .free) (s : ℕ) (e : SecretEntry) : x.Kept (x.refresh s e) :=
  ⟨rfl, rfl, ⟨rfl, rfl⟩, ⟨rfl, rfl⟩, by simp [Slot.refresh, hx], fun h => absurd h hx⟩

theorem passB_kept (pinned : ℕ) (es : List SecretEntry) (slot : ℕ → Slot)
    (candidate : ℕ → Bool) (s : ℕ) : (slot s).Kept ((passB pinned es slot candidate).1 s) := by
  induction es generalizing slot candidate with
  | nil => exact .refl _
  | cons e es ih =>
    rw [passB]
    cases hfind : findSlot pinned slot fun x => x.state ≠ .free && x.key = e.key with
    | none => exact ih slot candidate
    | some s' =>
      obtain ⟨-, -, hp⟩ := findSlot_eq_some hfind
      have hused : (slot s').state ≠ .free := by
        simp only [Bool.and_eq_true, decide_eq_true_eq] at hp
        exact hp.1
      refine Slot.Kept.trans ?_ (ih _ _)
      by_cases hs : s = s'
      · subst hs
        rw [update_self]
        exact kept_refresh hused s e
      · rw [update_of_ne hs]
        exact .refl _

theorem passB_pinned (hs : s < pinned) (es : List SecretEntry) (slot : ℕ → Slot)
    (candidate : ℕ → Bool) : (passB pinned es slot candidate).1 s = slot s := by
  induction es generalizing slot candidate with
  | nil => rfl
  | cons e es ih =>
    rw [passB]
    cases hfind : findSlot pinned slot fun x => x.state ≠ .free && x.key = e.key with
    | none => exact ih slot candidate
    | some s' =>
      obtain ⟨hle, -, -⟩ := findSlot_eq_some hfind
      exact (ih _ _).trans (update_of_ne (by omega) _ _)

theorem passB_candidate {es : List SecretEntry} {candidate : ℕ → Bool}
    (h : (passB pinned es slot candidate).2.1 s = true) : candidate s = true := by
  induction es generalizing slot candidate with
  | nil => exact h
  | cons e es ih =>
    rw [passB] at h
    cases hfind : findSlot pinned slot fun x => x.state ≠ .free && x.key = e.key with
    | none => simp only [hfind] at h; exact ih h
    | some s' =>
      simp only [hfind] at h
      have := ih h
      by_cases hs : s = s'
      · subst hs
        simp at this
      · rwa [update_of_ne hs] at this

theorem passC_kept {candidate : ℕ → Bool} (h : candidate s = true → (slot s).state ≠ .free) :
    (slot s).Kept (passC slot candidate s) := by
  unfold passC
  split_ifs with hs
  · exact ⟨rfl, rfl, ⟨rfl, rfl⟩, ⟨rfl, rfl⟩, by simp [h hs], fun hfree => absurd hfree (h hs)⟩
  · exact .refl _

theorem passD_filled (pinned : ℕ) (es : List SecretEntry) (slot : ℕ → Slot) (s : ℕ) :
    (passD pinned es slot).2 s = slot s ∨
      (pinned ≤ s ∧ s < maxSlots ∧ (slot s).state = .free ∧
        ∃ e ∈ es, (passD pinned es slot).2 s = Slot.fresh s e) := by
  induction es generalizing slot with
  | nil => exact .inl rfl
  | cons e es ih =>
    rw [passD]
    cases hfind : findSlot pinned slot fun x => decide (x.state = .free) with
    | none => exact .inl rfl
    | some s' =>
      obtain ⟨hle, hlt, hfree⟩ := findSlot_eq_some hfind
      have hrest := ih (update slot s' (Slot.fresh s' e))
      by_cases hs : s = s'
      · subst hs
        rw [update_self] at hrest
        rcases hrest with h | ⟨-, -, h, -⟩
        · exact .inr ⟨hle, hlt, by simpa using hfree, e, mem_cons_self, h⟩
        · cases h
      · rw [update_of_ne hs] at hrest
        rcases hrest with h | ⟨hle', hlt', hfree', e', he', h⟩
        · exact .inl h
        · exact .inr ⟨hle', hlt', hfree', e', mem_cons_of_mem _ he', h⟩

variable (t)

theorem slot_reload (es : List SecretEntry) :
    (reloadExtSecrets t es).2.slot = (reloadSlots t es).2 := by
  unfold reloadExtSecrets
  dsimp only
  split_ifs <;> rfl

variable (es : List SecretEntry)

theorem pinned_reload : (reloadExtSecrets t es).2.pinned = t.pinned := by
  unfold reloadExtSecrets
  dsimp only
  split_ifs <;> rfl

/-- The first three passes keep every slot: a slot that drains was active. -/
theorem passC_passB_kept (s : ℕ) :
    (t.slot s).Kept (passC (passB t.pinned es t.slot (drainCandidate t)).1
      (passB t.pinned es t.slot (drainCandidate t)).2.1 s) := by
  have hB := passB_kept t.pinned es t.slot (drainCandidate t) s
  refine hB.trans (passC_kept fun h hfree => ?_)
  have hactive := passB_candidate h
  simp only [drainCandidate, decide_eq_true_eq] at hactive
  rw [hB.free, hactive.2.2] at hfree
  cases hfree

/-- **What a reload does to a slot**: it keeps it, or fills it if it was free. -/
theorem reload_cases (s : ℕ) :
    (t.slot s).Kept ((reloadExtSecrets t es).2.slot s) ∨
      (t.pinned ≤ s ∧ s < maxSlots ∧ (t.slot s).state = .free ∧
        ∃ e, (reloadExtSecrets t es).2.slot s = Slot.fresh s e) := by
  rw [slot_reload]
  have hC := passC_passB_kept t (unpinnedEntries t es) s
  rcases passD_filled t.pinned _ _ s with h | ⟨hle, hlt, hfree, e, -, hfresh⟩
  · exact .inl (h ▸ hC)
  · exact .inr ⟨hle, hlt, hC.free.1 hfree, e, hfresh⟩

variable {t}

theorem reload_pinned (hs : s < t.pinned) (es : List SecretEntry) :
    (reloadExtSecrets t es).2.slot s = t.slot s := by
  rw [slot_reload]
  rcases passD_filled t.pinned _ _ s with h | ⟨hle, -⟩
  · refine h.trans ?_
    rw [passC, passB_pinned hs, if_neg]
    intro hcand
    have := passB_candidate hcand
    simp only [drainCandidate, decide_eq_true_eq] at this
    omega
  · omega

theorem highWater_bounds (hp : pinned ≤ maxSlots) (slot : ℕ → Slot) :
    pinned ≤ highWater pinned slot ∧ highWater pinned slot ≤ maxSlots := by
  have h : ∀ (l : List ℕ) (hw : ℕ), (∀ s ∈ l, s < maxSlots) → pinned ≤ hw ∧ hw ≤ maxSlots →
      pinned ≤ l.foldl (fun hw s => if (slot s).state ≠ .free ∧ s + 1 > hw then s + 1 else hw) hw ∧
        l.foldl (fun hw s => if (slot s).state ≠ .free ∧ s + 1 > hw then s + 1 else hw) hw ≤
          maxSlots := by
    intro l
    induction l with
    | nil => exact fun hw _ h => h
    | cons s l ih =>
      intro hw hl h
      refine ih _ (fun s' hs' => hl s' (mem_cons_of_mem _ hs')) ?_
      have := hl s mem_cons_self
      dsimp only
      split_ifs <;> omega
  refine h _ _ (fun s hs => ?_) ⟨le_refl _, hp⟩
  have := mem_range'_1.1 hs
  omega

/-- The shape of every table a process reaches. -/
structure SecretTable.Good (t : SecretTable) : Prop where
  cnt : t.cnt ≤ maxSlots
  pinned : t.pinned ≤ t.cnt
  active : ∀ s < t.pinned, (t.slot s).state = .active
  free : ∀ s, (t.slot s).state = .free → (t.slot s).connections = 0

theorem good_setSlot (ht : t.Good) (hstate : x.state = (t.slot s).state)
    (hfree : x.state = .free → x.connections = 0) :
    { t with slot := update t.slot s x }.Good where
  cnt := ht.cnt
  pinned := ht.pinned
  active := by
    intro s' hs'
    by_cases h : s' = s
    · subst h
      simpa [hstate] using ht.active s' hs'
    · simpa [update_of_ne h] using ht.active s' hs'
  free := by
    intro s'
    by_cases h : s' = s
    · subst h
      simpa using hfree
    · simpa [update_of_ne h] using ht.free s'

theorem connections_reload (ht : t.Good) (es : List SecretEntry) (s : ℕ) :
    ((reloadExtSecrets t es).2.slot s).connections = (t.slot s).connections := by
  rcases reload_cases t es s with h | ⟨-, -, hfree, e, h⟩
  · exact h.connections
  · rw [h, ht.free s hfree]
    rfl

theorem good_reload (ht : t.Good) (es : List SecretEntry) : (reloadExtSecrets t es).2.Good where
  cnt := by
    unfold reloadExtSecrets
    dsimp only
    split_ifs
    · exact ht.cnt
    · exact ht.cnt
    · exact (highWater_bounds (ht.pinned.trans ht.cnt) _).2
  pinned := by
    unfold reloadExtSecrets
    dsimp only
    split_ifs
    · exact ht.pinned
    · exact ht.pinned
    · exact (highWater_bounds (ht.pinned.trans ht.cnt) _).1
  active := by
    intro s hs
    rw [pinned_reload] at hs
    rw [reload_pinned hs]
    exact ht.active s hs
  free := by
    intro s hs
    rw [connections_reload ht]
    rcases reload_cases t es s with h | ⟨-, -, -, e, h⟩
    · exact ht.free s (h.free.1 hs)
    · rw [h] at hs
      cases hs

variable (t)

theorem release_cases (s s' : ℕ) :
    (releaseSlotIfEmpty t s).slot s' = t.slot s' ∨
      (s' = s ∧ t.pinned ≤ s ∧ (t.slot s).connections = 0 ∧
        (releaseSlotIfEmpty t s).slot s' = Slot.zero) := by
  unfold releaseSlotIfEmpty
  split_ifs with hrange hstate hconn
  · exact .inl rfl
  · exact .inl rfl
  · exact .inl rfl
  · by_cases hs : s' = s
    · subst hs
      exact .inr ⟨rfl, by omega, by simpa using hconn, update_self ..⟩
    · exact .inl (update_of_ne hs _ _)

theorem connections_release (s s' : ℕ) :
    ((releaseSlotIfEmpty t s).slot s').connections = (t.slot s').connections := by
  rcases release_cases t s s' with h | ⟨rfl, -, hzero, h⟩
  · rw [h]
  · rw [h, hzero]
    rfl

theorem pinned_release (s : ℕ) : (releaseSlotIfEmpty t s).pinned = t.pinned := by
  unfold releaseSlotIfEmpty
  split_ifs <;> rfl

variable {t}

theorem good_release (ht : t.Good) (s : ℕ) : (releaseSlotIfEmpty t s).Good where
  cnt := by
    unfold releaseSlotIfEmpty
    split_ifs
    · exact ht.cnt
    · exact ht.cnt
    · exact ht.cnt
    · exact (highWater_bounds (ht.pinned.trans ht.cnt) _).2
  pinned := by
    unfold releaseSlotIfEmpty
    split_ifs
    · exact ht.pinned
    · exact ht.pinned
    · exact ht.pinned
    · exact (highWater_bounds (ht.pinned.trans ht.cnt) _).1
  active := by
    intro s' hs'
    rw [pinned_release] at hs'
    rcases release_cases t s s' with h | ⟨rfl, hle, -⟩
    · rw [h]
      exact ht.active s' hs'
    · omega
  free := by
    intro s' hs'
    rw [connections_release]
    rcases release_cases t s s' with h | ⟨rfl, -, hzero, -⟩
    · rw [h] at hs'
      exact ht.free s' hs'
    · exact hzero

/-- No connection has been counted under the slot. -/
structure Slot.Unused (x : Slot) : Prop where
  connections : x.connections = 0
  bytes : x.bytesReceived = 0 ∧ x.bytesSent = 0
  ips : x.ips = [] ∧ x.uniqueIpCount = 0

theorem unused_zero : Slot.zero.Unused := ⟨rfl, ⟨rfl, rfl⟩, ⟨rfl, rfl⟩⟩

theorem unused_fresh (s : ℕ) (e : SecretEntry) : (Slot.fresh s e).Unused :=
  ⟨rfl, ⟨rfl, rfl⟩, ⟨rfl, rfl⟩⟩

/-- The table while the command line is read: the slots below `cnt` are active, and no slot has
been used. -/
structure SecretTable.Loading (t : SecretTable) : Prop where
  cnt : t.cnt ≤ maxActive
  active : ∀ s < t.cnt, (t.slot s).state = .active
  unused : ∀ s, (t.slot s).Unused

theorem loading_setExtSecret {t' : SecretTable} {e : SecretEntry} (ht : t.Loading)
    (h : setExtSecret t e = some t') : t'.Loading := by
  unfold setExtSecret at h
  split_ifs at h with hcnt
  cases h
  refine ⟨hcnt, fun s hs => ?_, fun s => ?_⟩
  · by_cases hlast : s = t.cnt
    · subst hlast
      dsimp only
      rw [update_self]
      rfl
    · dsimp only at hs ⊢
      rw [update_of_ne hlast]
      exact ht.active s (by omega)
  · by_cases hlast : s = t.cnt
    · subst hlast
      dsimp only
      rw [update_self]
      exact unused_fresh _ e
    · dsimp only
      rw [update_of_ne hlast]
      exact ht.unused s

theorem loading_foldlM {t' : SecretTable} (ht : t.Loading)
    (h : cli.foldlM setExtSecret t = some t') : t'.Loading := by
  induction cli generalizing t with
  | nil => cases h; exact ht
  | cons e cli ih =>
    obtain ⟨t1, ht1, hrest⟩ := Option.bind_eq_some_iff.1 h
    exact ih (loading_setExtSecret ht ht1) hrest

theorem pinExtSecrets_loading (h : pinExtSecrets cli = some t) : t.Loading ∧ t.pinned = t.cnt := by
  obtain ⟨t', ht', rfl⟩ := Option.map_eq_some_iff.1 h
  have hload := loading_foldlM
    ⟨Nat.zero_le _, fun s hs => absurd hs (Nat.not_lt_zero s), fun _ => unused_zero⟩ ht'
  exact ⟨⟨hload.cnt, hload.active, hload.unused⟩, rfl⟩

theorem pinExtSecrets_spec (h : pinExtSecrets cli = some t) :
    t.Good ∧ ∀ s, (t.slot s).connections = 0 := by
  obtain ⟨hload, hpinned⟩ := pinExtSecrets_loading h
  have hle : t.cnt ≤ maxSlots := hload.cnt.trans (by decide)
  refine ⟨⟨hle, hpinned.le, fun s hs => hload.active s (hpinned ▸ hs), fun s _ => ?_⟩, fun s => ?_⟩
  · exact (hload.unused s).connections
  · exact (hload.unused s).connections

end Mtbolt.Secrets
