import Mtbolt.Lib.EventRun
import Mtbolt.Lib.HashQueue
import Mtbolt.Lib.Words

/-!
# The cache of client randoms

A Fake-TLS ClientHello authenticates itself by its client random, which is an HMAC of the rest of
the hello with the time mixed into its last four bytes.  `net-tcp-rpc-ext-server.c` refuses a
random that it has seen, keeps the randoms it saw for two days, and bounds the time a hello may
carry so that a hello whose random was evicted is refused for its time.
-/

namespace Mtbolt.ExtServer

open EventRun Words List

/-! ### The entries -/

/-- `struct client_random`.  `addr` stands for the address of the entry. -/
structure ClientRandom where
  random : List UInt8
  time : ℤ
  addr : ℕ
  deriving DecidableEq, Repr

/-- `get_client_random_bucket`: the first byte and six bits of the second. -/
def getClientRandomBucket (random : List UInt8) : ℕ :=
  (random.getD 0 0).toNat * 64 + (random.getD 1 0).toNat % 64

/-- `first_client_random .. last_client_random` and the array `client_randoms`. -/
abbrev ClientRandoms := HashQueue ClientRandom ℕ

/-- The bucket of an entry. -/
def ClientRandom.bucket (e : ClientRandom) : ℕ := getClientRandomBucket e.random

/-- `have_client_random`. -/
def haveClientRandom (q : ClientRandoms) (random : List UInt8) : Bool :=
  (q.chain (getClientRandomBucket random)).any fun cur => cur.random = random

/-- `add_client_random`, with the address of the new entry. -/
def addClientRandom (now : ℤ) (addr : ℕ) (q : ClientRandoms) (random : List UInt8) :
    ClientRandoms :=
  q.push ClientRandom.bucket ⟨random, now, addr⟩

/-- `MAX_CLIENT_RANDOM_CACHE_TIME`. -/
def maxClientRandomCacheTime : ℤ := 2 * 86400

/-- The loop of `delete_old_client_randoms`.  It ends when the first entry is the last one;
`none` when `assert (entry->next_by_hash == NULL)` fails or the entry is not in its bucket. -/
def deleteOldLoop (now : ℤ) : List ClientRandom → (ℕ → List ClientRandom) → Option ClientRandoms
  | e :: e' :: rest, chain =>
    if e.time > now - maxClientRandomCacheTime then some ⟨e :: e' :: rest, chain⟩
    else
      (HashQueue.unlink e (chain e.bucket)).bind fun cut =>
        deleteOldLoop now (e' :: rest) (Function.update chain e.bucket cut)
  | queue, chain => some ⟨queue, chain⟩

/-- `delete_old_client_randoms`. -/
def deleteOldClientRandoms (now : ℤ) (q : ClientRandoms) : Option ClientRandoms :=
  deleteOldLoop now q.queue q.chain

/-- `is_allowed_timestamp`. -/
def isAllowedTimestamp (now : ℤ) (q : ClientRandoms) (timestamp : ℤ) : Bool :=
  if timestamp > now + 3 then false
  else if q.queue.head?.any fun first => timestamp > first.time + 3 then true
  else timestamp > now - 2 * 60

/-! ### The hello -/

/-- The 32 bytes of the client random in a ClientHello. -/
def clientRandom (clientHello : List UInt8) : List UInt8 := (clientHello.drop 11).take 32

/-- The ClientHello with its client random set to zero. -/
def zeroRandom (clientHello : List UInt8) : List UInt8 :=
  clientHello.take 11 ++ List.replicate 32 0 ++ clientHello.drop 43

/-- The time in a client random, given the digest it was made from. -/
def helloTimestamp (expectedRandom random : List UInt8) : ℤ :=
  (le32 (expectedRandom.drop 28) ^^^ le32 (random.drop 28)).toInt

/-- An accepted hello: its random and the time it carried. -/
structure Accepted where
  random : List UInt8
  timestamp : ℤ
  deriving DecidableEq, Repr

/-- The process as far as client randoms are concerned.  `accepted` is the log of the hellos
whose HMAC matched and whose timestamp was allowed. -/
structure TlsCache where
  randoms : ClientRandoms
  nextAddr : ℕ
  now : ℤ
  accepted : List Accepted

/-- The process at its start. -/
def TlsCache.start (now : ℤ) : TlsCache := ⟨HashQueue.empty, 0, now, []⟩

/-- `tick`: the clock is read.  `hello`: a ClientHello of a known domain and of the right length
arrives; `keys` are the keys of the slots that are not free, in slot order. -/
inductive TlsEvent
  | tick (now : ℤ)
  | hello (keys : List (List UInt8)) (clientHello : List UInt8)
  deriving DecidableEq, Repr

section Machine

variable (sha256Hmac : List UInt8 → List UInt8 → List UInt8)

/-- The matching loop over the slots: the digest of the first key that fits. -/
def matchHello (keys : List (List UInt8)) (clientHello : List UInt8) : Option (List UInt8) :=
  (keys.map fun key => sha256Hmac key (zeroRandom clientHello)).find? fun expectedRandom =>
    expectedRandom.take 28 = (clientRandom clientHello).take 28

/-- The treatment of a ClientHello up to the timestamp check; `none` when an assertion fails. -/
def helloStep (s : TlsCache) (keys : List (List UInt8)) (clientHello : List UInt8) :
    Option TlsCache :=
  let random := clientRandom clientHello
  if haveClientRandom s.randoms (random.take 16) then some s
  else
    let added := addClientRandom s.now s.nextAddr s.randoms (random.take 16)
    (deleteOldClientRandoms s.now added).map fun randoms =>
      let s := { s with randoms := randoms, nextAddr := s.nextAddr + 1 }
      match matchHello sha256Hmac keys clientHello with
      | none => s
      | some expectedRandom =>
        let timestamp := helloTimestamp expectedRandom random
        if isAllowedTimestamp s.now randoms timestamp then
          { s with accepted := s.accepted ++ [⟨random, timestamp⟩] }
        else s

def tlsStep (s : TlsCache) : TlsEvent → Option TlsCache
  | .tick now => some { s with now := now }
  | .hello keys clientHello => helloStep sha256Hmac s keys clientHello

end Machine

/-! ### Eviction -/

variable {q : ClientRandoms} {s : TlsCache} {now timestamp : ℤ}

theorem haveClientRandom_iff (hq : q.Linked ClientRandom.bucket) {random : List UInt8} :
    haveClientRandom q random = true ↔ ∃ e ∈ q.queue, e.random = random := by
  rw [haveClientRandom, any_eq_true]
  constructor
  · rintro ⟨e, he, hr⟩
    exact ⟨e, ((HashQueue.mem_chain_iff hq).1 he).1, by simpa using hr⟩
  · rintro ⟨e, he, rfl⟩
    exact ⟨e, (HashQueue.mem_chain_iff hq).2 ⟨he, rfl⟩, by simp⟩

/-- **Eviction.** It never fails its assertion; what it drops is a front part of the queue, at
least two days old, and the last entry stays. -/
theorem deleteOldLoop_spec (now : ℤ) {queue : List ClientRandom} {chain : ℕ → List ClientRandom}
    (hq : HashQueue.Linked ClientRandom.bucket ⟨queue, chain⟩) (hnd : queue.Nodup) :
    ∃ q dropped, deleteOldLoop now queue chain = some q ∧ q.Linked ClientRandom.bucket ∧
      queue = dropped ++ q.queue ∧ (∀ e ∈ dropped, e.time ≤ now - maxClientRandomCacheTime) ∧
      (queue ≠ [] → q.queue ≠ []) := by
  -- along the queue: each pass takes its head off the chains as well
  induction queue generalizing chain with
  | nil => exact ⟨_, [], rfl, hq, rfl, by simp, id⟩
  | cons e queue ih =>
    cases queue with
    | nil => exact ⟨_, [], rfl, hq, rfl, by simp, id⟩
    | cons e' rest =>
      rw [deleteOldLoop]
      split_ifs with hyoung
      · exact ⟨_, [], rfl, hq, rfl, by simp, id⟩
      · have hcut := HashQueue.unlink_head hq rfl hnd
        have hpop := HashQueue.linked_pop hq rfl
        obtain ⟨q, dropped, hrun, hlink, hsplit, hold, hne⟩ := ih hpop hnd.of_cons
        refine ⟨q, e :: dropped, ?_, hlink, by rw [hsplit]; rfl, ?_, fun _ => hne (by simp)⟩
        · rw [hcut]
          exact hrun
        · intro x hx
          rcases mem_cons.1 hx with rfl | hx
          · exact not_lt.1 hyoung
          · exact hold x hx

/-! ### The invariant -/

/-- A timestamp from the time before the oldest cached entry, two days ago or earlier. -/
def Stale (now : ℤ) (queue : List ClientRandom) (timestamp : ℤ) : Prop :=
  timestamp ≤ now - maxClientRandomCacheTime + 3 ∧
    ∃ first, queue.head? = some first ∧ timestamp ≤ first.time + 3

/-- An accepted hello is remembered: its random is cached, by an entry made at most three seconds
before the time it carried, or that time is stale. -/
def Remembered (s : TlsCache) (a : Accepted) : Prop :=
  (∃ e ∈ s.randoms.queue, e.random = a.random.take 16 ∧ a.timestamp ≤ e.time + 3) ∨
    Stale s.now s.randoms.queue a.timestamp

/-- The digests that the hello of an event is compared with. -/
def TlsEvent.digests (sha256Hmac : List UInt8 → List UInt8 → List UInt8) :
    TlsEvent → List (List UInt8)
  | .tick _ => []
  | .hello keys clientHello => keys.map fun key => sha256Hmac key (zeroRandom clientHello)

/-- Digests that agree in the 28 bytes the server compares are the same digest. -/
def NoNearCollision (D : List (List UInt8)) : Prop :=
  ∀ d ∈ D, ∀ d' ∈ D, d.take 28 = d'.take 28 → d = d'

instance (D : List (List UInt8)) : Decidable (NoNearCollision D) :=
  inferInstanceAs (Decidable (∀ d ∈ D, ∀ d' ∈ D, d.take 28 = d'.take 28 → d = d'))

/-- The invariant of the cache, in a run whose digests are in `D`. -/
structure TlsCache.Good (D : List (List UInt8)) (s : TlsCache) : Prop where
  linked : s.randoms.Linked ClientRandom.bucket
  nodup : s.randoms.queue.Nodup
  fresh : ∀ e ∈ s.randoms.queue, e.addr < s.nextAddr
  sorted : s.randoms.queue.Pairwise fun e e' => e.time ≤ e'.time
  past : ∀ e ∈ s.randoms.queue, e.time ≤ s.now
  remembered : ∀ a ∈ s.accepted, Remembered s a
  matched : ∀ a ∈ s.accepted, ∃ d ∈ D, d.take 28 = a.random.take 28 ∧
    a.timestamp = helloTimestamp d a.random
  once : s.accepted.Nodup

variable {sha256Hmac : List UInt8 → List UInt8 → List UInt8} {D : List (List UInt8)}

theorem good_tlsStart (now : ℤ) : (TlsCache.start now).Good D where
  linked := HashQueue.linked_empty
  nodup := nodup_nil
  fresh := by simp [TlsCache.start, HashQueue.empty]
  sorted := List.Pairwise.nil
  past := by simp [TlsCache.start, HashQueue.empty]
  remembered := by simp [TlsCache.start]
  matched := by simp [TlsCache.start]
  once := nodup_nil

theorem good_tick (hs : s.Good D) (hle : s.now ≤ now) :
    { s with now := now }.Good D := by
  refine { hs with past := fun e he => (hs.past e he).trans hle, remembered := ?_ }
  intro a ha
  rcases hs.remembered a ha with h | ⟨h, hfirst⟩
  · exact .inl h
  · exact .inr ⟨by linarith, hfirst⟩

theorem isAllowedTimestamp_of_stale (h : Stale now q.queue timestamp) :
    isAllowedTimestamp now q timestamp = false := by
  obtain ⟨hold, first, hfirst, hle⟩ := h
  unfold maxClientRandomCacheTime at hold
  unfold isAllowedTimestamp
  rw [hfirst, if_neg (by omega)]
  simp
  omega

theorem le_of_isAllowedTimestamp (h : isAllowedTimestamp now q timestamp = true) :
    timestamp ≤ now + 3 := by
  unfold isAllowedTimestamp at h
  split_ifs at h with hfuture <;> omega

/-- In a queue sorted by time, what stands before the part `kept` is not newer than its head. -/
theorem time_le_head_of_sorted {dropped kept : List ClientRandom} {e first : ClientRandom}
    (hsorted : (dropped ++ kept).Pairwise fun e e' => e.time ≤ e'.time)
    (hfirst : kept.head? = some first) (he : e ∈ dropped) : e.time ≤ first.time :=
  (pairwise_append.1 hsorted).2.2 e he first (mem_of_mem_head? hfirst)

theorem Stale.mono {queue dropped kept : List ClientRandom} {e : ClientRandom}
    (h : Stale now queue timestamp) (hsplit : queue ++ [e] = dropped ++ kept)
    (hsorted : (dropped ++ kept).Pairwise fun e e' => e.time ≤ e'.time) (hne : kept ≠ []) :
    Stale now kept timestamp := by
  obtain ⟨hold, first, hfirst, hle⟩ := h
  obtain ⟨queue, rfl⟩ := head?_eq_some_iff.1 hfirst
  cases dropped with
  | nil =>
    rw [nil_append] at hsplit
    exact ⟨hold, first, by rw [← hsplit]; rfl, hle⟩
  | cons d dropped =>
    obtain ⟨first', rest, rfl⟩ := exists_cons_of_ne_nil hne
    have hd : first = d := (cons.inj hsplit).1
    have := time_le_head_of_sorted hsorted rfl (mem_cons_self (a := d))
    exact ⟨hold, first', rfl, by rw [hd] at hle; linarith⟩

/-- The entry that `add_client_random` makes. -/
def TlsCache.entry (s : TlsCache) (random : List UInt8) : ClientRandom :=
  ⟨random, s.now, s.nextAddr⟩

theorem nodup_push (hs : s.Good D) (random : List UInt8) :
    (s.randoms.queue ++ [s.entry random]).Nodup := by
  refine nodup_append.2 ⟨hs.nodup, nodup_singleton _, fun e he e' he' heq => ?_⟩
  rw [mem_singleton.1 he'] at heq
  have := hs.fresh e he
  rw [heq] at this
  exact lt_irrefl _ this

theorem sorted_push (hs : s.Good D) (random : List UInt8) :
    (s.randoms.queue ++ [s.entry random]).Pairwise fun e e' => e.time ≤ e'.time := by
  refine pairwise_append.2 ⟨hs.sorted, pairwise_singleton _ _, fun e he e' he' => ?_⟩
  rw [mem_singleton.1 he']
  exact hs.past e he

/-- Adding an entry and dropping old ones: the invariant holds again, the new entry is cached, and
stale timestamps are still stale. -/
theorem good_refresh (hs : s.Good D) (random : List UInt8) :
    ∃ q, deleteOldClientRandoms s.now (addClientRandom s.now s.nextAddr s.randoms random) = some q ∧
      { s with randoms := q, nextAddr := s.nextAddr + 1 }.Good D ∧
      s.entry random ∈ q.queue ∧
      ∀ timestamp, Stale s.now s.randoms.queue timestamp → Stale s.now q.queue timestamp := by
  have hnd := nodup_push hs random
  have hsorted := sorted_push hs random
  obtain ⟨q, dropped, hrun, hlinked, hsplit, hold, hkept⟩ := deleteOldLoop_spec s.now
    (HashQueue.linked_push hs.linked (s.entry random)) hnd
  have hne : q.queue ≠ [] := hkept (by simp)
  rw [hsplit] at hnd hsorted
  have hmem {e : ClientRandom} (he : e ∈ q.queue) : e ∈ s.randoms.queue ++ [s.entry random] :=
    hsplit ▸ mem_append_right _ he
  have hlast : s.entry random ∈ q.queue := by
    have h := congrArg getLast? hsplit
    rw [getLast?_concat, getLast?_append_of_ne_nil _ hne] at h
    exact mem_of_getLast? h.symm
  have hstale (timestamp : ℤ) (h : Stale s.now s.randoms.queue timestamp) :
      Stale s.now q.queue timestamp := h.mono hsplit hsorted hne
  refine ⟨q, hrun, ⟨hlinked, (nodup_append.1 hnd).2.1, ?_,
    (pairwise_append.1 hsorted).2.1, ?_, ?_, hs.matched, hs.once⟩, hlast, hstale⟩
  · intro e he
    rcases mem_append.1 (hmem he) with he | he
    · exact Nat.lt_succ_of_lt (hs.fresh e he)
    · rw [mem_singleton.1 he]
      exact Nat.lt_succ_self _
  · intro e he
    rcases mem_append.1 (hmem he) with he | he
    · exact hs.past e he
    · rw [mem_singleton.1 he]
      exact le_refl _
  · intro a ha
    rcases hs.remembered a ha with ⟨e, he, hrand, hle⟩ | h
    · -- the entry of `a` was kept, or it was dropped and bounds the new oldest entry
      have he' : e ∈ dropped ++ q.queue := hsplit ▸ mem_append_left _ he
      rcases mem_append.1 he' with hdrop | hkeep
      · obtain ⟨first, rest, hfirst⟩ := exists_cons_of_ne_nil hne
        have hhead : q.queue.head? = some first := by rw [hfirst]; rfl
        have h1 := hold e hdrop
        have h2 := time_le_head_of_sorted hsorted hhead hdrop
        exact .inr ⟨by linarith, first, hhead, by linarith⟩
      · exact .inl ⟨e, hkeep, hrand, hle⟩
    · exact .inr (hstale _ h)

/-! ### Runs -/

/-- **A hello step** never fails an assertion and keeps the invariant: in particular it does not
accept a random that was accepted before. -/
theorem good_helloStep (hs : s.Good D) (keys : List (List UInt8)) (clientHello : List UInt8)
    (hD : (TlsEvent.hello keys clientHello).digests sha256Hmac ⊆ D) :
    ∃ s', helloStep sha256Hmac s keys clientHello = some s' ∧ s'.Good D := by
  unfold helloStep
  dsimp only
  split_ifs with hhave
  · exact ⟨s, rfl, hs⟩
  · rw [haveClientRandom_iff hs.linked] at hhave
    obtain ⟨q, hq, hgood, hentry, hstale⟩ := good_refresh hs ((clientRandom clientHello).take 16)
    refine ⟨_, congrArg (Option.map _) hq, ?_⟩
    cases hmatch : matchHello sha256Hmac keys clientHello with
    | none => exact hgood
    | some digest =>
      have hfits : digest.take 28 = (clientRandom clientHello).take 28 := by
        simpa using find?_some hmatch
      dsimp only
      split_ifs with hallowed
      · refine { hgood with remembered := ?_, matched := ?_, once := ?_ }
        · intro a ha
          rcases mem_append.1 ha with ha | ha
          · exact hgood.remembered a ha
          · rw [mem_singleton.1 ha]
            exact .inl ⟨_, hentry, rfl, le_of_isAllowedTimestamp hallowed⟩
        · intro a ha
          rcases mem_append.1 ha with ha | ha
          · exact hgood.matched a ha
          · rw [mem_singleton.1 ha]
            exact ⟨digest, hD (mem_of_find?_eq_some hmatch), hfits, rfl⟩
        · rw [nodup_append]
          refine ⟨hgood.once, nodup_singleton _, fun a ha a' ha' heq => ?_⟩
          rw [mem_singleton.1 ha'] at heq
          subst heq
          -- a repeated random is not cached any more, so the time it carried is stale
          rcases hs.remembered _ ha with ⟨e, he, hrand, -⟩ | hold
          · exact hhave ⟨e, he, hrand⟩
          · rw [isAllowedTimestamp_of_stale (hstale _ hold)] at hallowed
            exact Bool.false_ne_true hallowed
      · exact hgood

/-- The clock is never set back. -/
def ClockMonotone (s : TlsCache) : TlsEvent → Prop
  | .tick now => s.now ≤ now
  | .hello _ _ => True

instance (s : TlsCache) : ∀ e, Decidable (ClockMonotone s e)
  | .tick now => inferInstanceAs (Decidable (s.now ≤ now))
  | .hello _ _ => inferInstanceAs (Decidable True)

theorem good_tlsStep (s : TlsCache) (e : TlsEvent) (hs : s.Good D)
    (hok : ClockMonotone s e ∧ e.digests sha256Hmac ⊆ D) :
    ∃ s', tlsStep sha256Hmac s e = some s' ∧ s'.Good D := by
  cases e with
  | tick now => exact ⟨_, rfl, good_tick hs hok.1⟩
  | hello keys clientHello => exact good_helloStep hs keys clientHello hok.2

/-- Without near collisions a random carries one time, whatever the hello and the secret. -/
theorem TlsCache.Good.nodup_random (hs : s.Good D) (hD : NoNearCollision D) :
    (s.accepted.map Accepted.random).Nodup := by
  refine List.Nodup.map_on (fun a ha a' ha' hrandom => ?_) hs.once
  obtain ⟨d, hd, hfits, htime⟩ := hs.matched a ha
  obtain ⟨d', hd', hfits', htime'⟩ := hs.matched a' ha'
  rw [hrandom, ← hfits'] at hfits
  rw [hD d hd d' hd' hfits, hrandom, ← htime'] at htime
  exact Accepted.mk.injEq .. ▸ ⟨hrandom, htime⟩

/-- **No client random is accepted twice** with the same time, as a replay under the same secret
would be, and no assertion of the cache fails, in any run whose clock is not set back; it is not
accepted twice at all unless two digests of the run differ in their last four bytes only. -/
theorem client_random_accepted_once (now : ℤ) (es : List TlsEvent)
    (hclock : Along (tlsStep sha256Hmac) ClockMonotone (TlsCache.start now) es) :
    ∃ s, run (tlsStep sha256Hmac) (TlsCache.start now) es = some s ∧ s.accepted.Nodup ∧
      (NoNearCollision (es.flatMap (·.digests sha256Hmac)) →
        (s.accepted.map Accepted.random).Nodup) := by
  obtain ⟨s, hrun, hs⟩ := run_progress good_tlsStep (good_tlsStart now)
    (hclock.imp fun _ e he h => ⟨h, fun _ hd => mem_flatMap.2 ⟨e, he, hd⟩⟩)
  exact ⟨s, hrun, hs.once, hs.nodup_random⟩

/-- A digest for the runs below: the first byte of the key, zeros, and four bytes of the hello. -/
def paddedKey (key hello : List UInt8) : List UInt8 :=
  (key.getD 0 0 :: List.replicate 27 0) ++ (hello.drop 44 ++ [0, 0, 0, 0]).take 4

/-- A hello under the key `[k]` that carries the time `t < 256`. -/
def sampleHello (k t : UInt8) : List UInt8 :=
  List.replicate 11 0 ++ ((k :: List.replicate 27 0) ++ [t, 0, 0, 0]) ++ [k]

/-- A hello is accepted, two days pass and other hellos evict it; its replay is not accepted. -/
def sampleReplay : List TlsEvent :=
  [.hello [[7]] (sampleHello 7 100), .tick 172900, .hello [[7]] (sampleHello 9 0),
    .hello [[7]] (sampleHello 7 100)]

theorem client_random_accepted_once_sampleReplay :
    (run (tlsStep paddedKey) (TlsCache.start 100) sampleReplay).map (·.accepted.length) = some 1 ∧
      ∃ s, run (tlsStep paddedKey) (TlsCache.start 100) sampleReplay = some s ∧
        (s.accepted.map Accepted.random).Nodup := by
  refine ⟨by decide, ?_⟩
  obtain ⟨s, hrun, -, hs⟩ := client_random_accepted_once 100 sampleReplay
    (by decide : Along (tlsStep paddedKey) ClockMonotone (TlsCache.start 100) sampleReplay)
  exact ⟨s, hrun, hs (by decide)⟩

/-- The random of an accepted hello comes back two days later, in another hello under the same
secret, whose digest differs from the first one in its last four bytes: the time is a new one. -/
def nearReplay : List TlsEvent :=
  [.hello [[7]] (sampleHello 7 100), .tick 172900, .hello [[7]] (sampleHello 9 0),
    .hello [[7]] (sampleHello 7 100 ++ [0, 0xa3, 2])]

theorem client_random_accepted_twice :
    Along (tlsStep paddedKey) ClockMonotone (TlsCache.start 100) nearReplay ∧
      ∃ s, run (tlsStep paddedKey) (TlsCache.start 100) nearReplay = some s ∧
        ¬(s.accepted.map Accepted.random).Nodup := by
  decide

end Mtbolt.ExtServer
